import EniForwarding.Net.Malformed
import EniForwarding.Text.Keyword

/-! Switch ports.

A port has a kind, a role and, for a link aggregation group, the ports that are
its members. Rules can be bound to physical ports and to groups only.
-/

set_option autoImplicit false

namespace EniForwarding.Net

inductive PortKind where
  | cpu
  | phy
  | vlan
  | lag
  | tunnel
  | system
  deriving DecidableEq, Repr

namespace PortKind

def all : List PortKind := [.cpu, .phy, .vlan, .lag, .tunnel, .system]

def name : PortKind → String
  | .cpu => "cpu"
  | .phy => "phy"
  | .vlan => "vlan"
  | .lag => "lag"
  | .tunnel => "tunnel"
  | .system => "system"

/-- Rules can be bound to ports of this kind. -/
def isBindable : PortKind → Bool
  | .phy | .lag => true
  | _ => false

def ofName? (s : String) : Option PortKind := all.find? (·.name == s)

/-- The kind of this name in either case. -/
def read (s : String) : Except Malformed PortKind :=
  match all.find? fun kind => kind.name.toList == Text.lower s with
  | some kind => .ok kind
  | none => .error (.portKind s)

end PortKind

inductive PortRole where
  | external
  | internal
  | inband
  | recycle
  | dpuConnect
  deriving DecidableEq, Repr

namespace PortRole

instance : Inhabited PortRole := ⟨.external⟩

def all : List PortRole := [.external, .internal, .inband, .recycle, .dpuConnect]

def name : PortRole → String
  | .external => "Ext"
  | .internal => "Int"
  | .inband => "Inb"
  | .recycle => "Rec"
  | .dpuConnect => "Dpc"

def ofName? (s : String) : Option PortRole := all.find? (·.name == s)

def read (s : String) : Except Malformed PortRole :=
  match ofName? s with
  | some role => .ok role
  | none => .error (.portRole s)

end PortRole

structure Port where
  name : String
  kind : PortKind
  role : PortRole
  members : List String
  deriving DecidableEq, Repr

end EniForwarding.Net
