import EniForwarding.Entry
import EniForwarding.Neighbor
import EniForwarding.Data.SortedMap

/-! The switch that holds rule tables and tunnel next hops.

A call changes the switch or is refused. Table types, tables and rules are written
whole under their names; a tunnel next hop is created once under its name and gets a
fresh handle. The switch can be told to refuse all calls on rules or on tunnels.
-/

set_option autoImplicit false

namespace EniForwarding

inductive Call where
  | setTableType (name : String) (fields : Fields)
  | setTable (name : String) (fields : Fields)
  | setRule (key : String) (fields : Fields)
  | deleteRule (key : String)
  | createTunnel (hop : TunnelHop)
  | removeTunnel (hop : TunnelHop)
  deriving DecidableEq, Repr

inductive Call.Kind where
  | setTableType
  | setTable
  | setRule
  | deleteRule
  | createTunnel
  | removeTunnel
  deriving DecidableEq, Repr

def Call.kind : Call → Call.Kind
  | .setTableType .. => .setTableType
  | .setTable .. => .setTable
  | .setRule .. => .setRule
  | .deleteRule .. => .deleteRule
  | .createTunnel .. => .createTunnel
  | .removeTunnel .. => .removeTunnel

/-- Fields by name; the last value of a name counts. -/
abbrev FieldMap := SortedMap String String

structure Switch where
  tableTypes : SortedMap String FieldMap
  tables : SortedMap String FieldMap
  rules : SortedMap String FieldMap
  tunnels : SortedMap String Nat
  tableWrites : Nat
  issued : Nat
  rejectsAcl : Bool
  rejectsTunnels : Bool
  deriving DecidableEq

namespace Switch

def empty : Switch := ⟨∅, ∅, ∅, ∅, 0, 0, false, false⟩

/-- Handles count up from here. -/
def handleBase : Nat := 0x400000000000

/-- The handle of the newest tunnel next hop. -/
def lastHandle (s : Switch) : Nat := handleBase + s.issued

def setTableType (s : Switch) (name : String) (fields : Fields) : Except String Switch :=
  if s.rejectsAcl then .error "ACL table type rejected"
  else .ok { s with tableTypes := s.tableTypes.insert name (.ofList fields) }

def setTable (s : Switch) (name : String) (fields : Fields) : Except String Switch :=
  if s.rejectsAcl then .error "ACL table rejected"
  else .ok { s with
    tables := s.tables.insert name (.ofList fields)
    tableWrites := s.tableWrites + 1 }

def setRule (s : Switch) (key : String) (fields : Fields) : Except String Switch :=
  if s.rejectsAcl then .error "ACL rule rejected"
  else .ok { s with rules := s.rules.insert key (.ofList fields) }

/-- Deleting a rule that is not there changes nothing. -/
def deleteRule (s : Switch) (key : String) : Except String Switch :=
  if s.rejectsAcl then .error "ACL rule delete rejected"
  else .ok { s with rules := s.rules.erase key }

def createTunnel (s : Switch) (name : String) : Except String Switch :=
  if s.rejectsTunnels then .error "tunnel next hop create rejected"
  else if s.tunnels.contains name then .error (name ++ " already exists")
  else .ok { s with
    tunnels := s.tunnels.insert name (handleBase + (s.issued + 1))
    issued := s.issued + 1 }

def removeTunnel (s : Switch) (name : String) : Except String Switch :=
  if s.rejectsTunnels then .error "tunnel next hop remove rejected"
  else if s.tunnels.contains name then .ok { s with tunnels := s.tunnels.erase name }
  else .error (name ++ " does not exist")

def perform (s : Switch) : Call → Except String Switch
  | .setTableType name fields => s.setTableType name fields
  | .setTable name fields => s.setTable name fields
  | .setRule key fields => s.setRule key fields
  | .deleteRule key => s.deleteRule key
  | .createTunnel hop => s.createTunnel hop.render
  | .removeTunnel hop => s.removeTunnel hop.render

end Switch

end EniForwarding
