import EniForwarding.Data.OrderKey
import EniForwarding.Net.Ipv6
import EniForwarding.Net.Malformed
import EniForwarding.Text.Blank

/-! IP addresses of either family.

An IPv4 address sorts before every IPv6 address, and within a family addresses
sort as numbers. Blanks around a written address do not count.
-/

set_option autoImplicit false

namespace EniForwarding.Net

inductive Address where
  | v4 (ip : Ipv4)
  | v6 (ip : Ipv6)
  deriving DecidableEq, Repr

namespace Address

def isV4 : Address → Bool
  | .v4 _ => true
  | .v6 _ => false

def width : Address → Nat
  | .v4 _ => 32
  | .v6 _ => 128

/-- The family, then the parts of the address from the left. -/
def orderKey : Address → List Nat
  | .v4 ip => 4 :: ip.octets.map UInt8.toNat
  | .v6 ip => 6 :: ip.groups.map UInt16.toNat

theorem eq_of_orderKey (x y : Address) (h : x.orderKey = y.orderKey) : x = y := by
  cases x with
  | v4 x =>
    cases y with
    | v4 y => cases x; cases y; simpa [orderKey, Ipv4.octets, UInt8.toNat_inj] using h
    | v6 y => simp [orderKey] at h
  | v6 x =>
    cases y with
    | v4 y => simp [orderKey] at h
    | v6 y =>
      cases x; cases y
      simp only [orderKey, List.cons.injEq, true_and] at h
      simpa using List.map_inj_right (fun _ _ => UInt16.toNat_inj.1) |>.1 h

instance : Ord Address := ⟨compareOn orderKey⟩

instance : Std.TransOrd Address := inferInstanceAs (Std.TransCmp (compareOn orderKey))

instance : Std.LawfulEqOrd Address := lawfulEqCmp_compareOn eq_of_orderKey

def render : Address → String
  | .v4 ip => ip.render
  | .v6 ip => ip.render

/-- The address that is written as these characters, and nothing beside it. -/
def ofChars? (cs : List Char) : Option Address :=
  match Ipv4.read? cs with
  | some (ip, rest) => if rest.isEmpty then some (.v4 ip) else none
  | none =>
    match Ipv6.read? cs with
    | some (ip, rest) => if rest.isEmpty then some (.v6 ip) else none
    | none => none

def ofText? (s : String) : Option Address := ofChars? (Text.trimChars s.toList)

def read (s : String) : Except Malformed Address :=
  match ofText? s with
  | some ip => .ok ip
  | none => .error (.address s)

end Address

end EniForwarding.Net
