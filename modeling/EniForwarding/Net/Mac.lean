import EniForwarding.Data.OrderKey
import EniForwarding.Net.Malformed
import EniForwarding.Text.Integer
import EniForwarding.Text.Split

/-! Ethernet MAC addresses.

The written form is six pairs of lower-case hexadecimal digits between colons;
inside a rule key the pairs are in upper case and nothing stands between them.
A reader takes colons or hyphens, and each of the six parts is a hexadecimal
number of two characters.
-/

set_option autoImplicit false

namespace EniForwarding.Net

structure Mac where
  b0 : UInt8
  b1 : UInt8
  b2 : UInt8
  b3 : UInt8
  b4 : UInt8
  b5 : UInt8
  deriving DecidableEq, Repr

namespace Mac

def bytes (m : Mac) : List UInt8 := [m.b0, m.b1, m.b2, m.b3, m.b4, m.b5]

theorem eq_of_bytes (m n : Mac) (h : m.bytes = n.bytes) : m = n := by
  cases m; cases n; simpa [bytes] using h

/-- MAC addresses are ordered byte by byte from the left. -/
instance : Ord Mac := ⟨compareOn bytes⟩

instance : Std.TransOrd Mac := inferInstanceAs (Std.TransCmp (compareOn bytes))

instance : Std.LawfulEqOrd Mac := lawfulEqCmp_compareOn eq_of_bytes

def ofBytes? : List UInt8 → Option Mac
  | [b0, b1, b2, b3, b4, b5] => some ⟨b0, b1, b2, b3, b4, b5⟩
  | _ => none

/-- Six pairs of lower-case digits between colons. -/
def render (m : Mac) : String :=
  .ofList (List.intercalate [':'] (m.bytes.map Text.hexPair))

def keyText (m : Mac) : String :=
  .ofList ((m.bytes.flatMap Text.hexPair).map Char.toUpper)

def octet? (part : List Char) : Option UInt8 :=
  if part.length = 2 then (Text.unsigned? 16 256 part).map UInt8.ofNat else none

/-- Colons separate the parts if there is one, otherwise hyphens do. -/
def separator (cs : List Char) : Char := if ':' ∈ cs then ':' else '-'

def ofText? (s : String) : Option Mac := do
  let parts := Text.pieces (separator s.toList) s.toList
  let bytes ← parts.mapM octet?
  ofBytes? bytes

def read (s : String) : Except Malformed Mac :=
  match ofText? s with
  | some m => .ok m
  | none => .error (.mac s)

end Mac

end EniForwarding.Net
