import EniForwarding.Acl.Vocabulary
import EniForwarding.Failure
import EniForwarding.Net.Mac

/-! Naming ENIs and their rules.

An ENI is named by its VNET and its MAC address. A key in a table joins the two with
a separator, which the VNET name does not contain, because the first one counts. An
ENI has up to four rules, told apart by their roles; the name of a rule in the switch
holds the table, the ENI and the role.
-/

set_option autoImplicit false

namespace EniForwarding

/-- What a rule of an ENI is for: a direction, and whether it ends a tunnel. -/
inductive Role where
  | inbound
  | outbound
  | inboundTerm
  | outboundTerm
  deriving DecidableEq, Repr

namespace Role

def all : List Role := [.inbound, .outbound, .inboundTerm, .outboundTerm]

def ordinal : Role → Nat
  | .inbound => 0
  | .outbound => 1
  | .inboundTerm => 2
  | .outboundTerm => 3

def suffix : Role → String
  | .inbound => "IN"
  | .outbound => "OUT"
  | .inboundTerm => "IN_TERM"
  | .outboundTerm => "OUT_TERM"

def ofSuffix? (s : String) : Option Role := all.find? (·.suffix == s)

/-- The rule takes traffic out of a tunnel on its way to the local DPU. -/
def isTerm : Role → Bool
  | .inboundTerm | .outboundTerm => true
  | _ => false

def isOutbound : Role → Bool
  | .outbound | .outboundTerm => true
  | _ => false

end Role

/-- Which MAC address of outbound traffic is that of the ENI. -/
inductive MacDirection where
  | source
  | destination
  deriving DecidableEq, Repr

namespace MacDirection

/-- The source, unless the destination is asked for. -/
def ofConfig (value : Option String) : MacDirection :=
  if value = some "dst" then .destination else .source

def field : MacDirection → Acl.MatchField
  | .source => .innerSrcMac
  | .destination => .innerDstMac

end MacDirection

structure EniKey where
  vnet : String
  mac : Net.Mac
  deriving DecidableEq, Repr

namespace EniKey

instance : Ord EniKey := ⟨compareLex (compareOn vnet) (compareOn mac)⟩

instance : Std.TransOrd EniKey :=
  inferInstanceAs (Std.TransCmp (compareLex (compareOn vnet) (compareOn mac)))

instance : Std.LawfulEqOrd EniKey where
  compare_self := Std.ReflCmp.compare_self
  eq_of_compare {a b} h := by
    obtain ⟨vnet, mac⟩ := Ordering.then_eq_eq.1 (show (compare a.vnet b.vnet).then
      (compare a.mac b.mac) = .eq from h)
    cases a; cases b
    simp_all

/-- The ENI that a key names: what stands before the first separator, and a MAC address
behind it. -/
def ofText? (separator : Char) (key : String) : Option EniKey := do
  let (vnet, mac) ← Text.atFirst separator key.toList
  if vnet.isEmpty then none
  else
    let mac ← Net.Mac.ofText? (.ofList mac)
    return ⟨.ofList vnet, mac⟩

def read (separator : Char) (key : String) : Except Failure EniKey :=
  match ofText? separator key with
  | some eni => .ok eni
  | none => .error (.invalidKey key)

def render (k : EniKey) : String := k.vnet ++ ":" ++ k.mac.render

def ruleKey (k : EniKey) (table : String) (role : Role) : String :=
  table ++ ":" ++ k.vnet ++ "_" ++ k.mac.keyText ++ "_" ++ role.suffix

end EniKey

end EniForwarding
