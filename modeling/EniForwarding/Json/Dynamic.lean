import EniForwarding.Data.SortedMap
import EniForwarding.Json.Double

/-! Values without a fixed shape.

Where any value may stand, it is brought into a canonical form: integers of sixty-four
bits stay, other numbers become doubles, and objects list each name once, in order,
with the last value it had. Unreadable strings and numbers beyond the doubles are
refused, and so is nesting beyond a limit.
-/

set_option autoImplicit false

namespace EniForwarding.Json

/-- The number of containers that may be nested in one text. -/
def nestingLimit : Nat := 127

def canonicalNumeral? (n : Numeral) : Option Numeral :=
  match n.toInt? with
  | some i =>
    if Int64.minValue.toInt ≤ i ∧ i < UInt64.size then some n else (approximate? n).map numeralOf
  | none => (approximate? n).map numeralOf

mutual

def canonical? : Json → Option Json
  | .null => some .null
  | .bool b => some (.bool b)
  | .number n => (canonicalNumeral? n).map .number
  | .string s => some (.string s)
  | .array items => (canonicalItems? items).map .array
  | .object members =>
    (canonicalMembers? members).map fun members => .object (SortedMap.ofList members).toList
  | .unreadable => none

def canonicalItems? : List Json → Option (List Json)
  | [] => some []
  | item :: rest => do
    let item ← canonical? item
    let rest ← canonicalItems? rest
    return item :: rest

def canonicalMembers? : List (String × Json) → Option (List (String × Json))
  | [] => some []
  | member :: rest => do
    let member ← canonicalMember? member
    let rest ← canonicalMembers? rest
    return member :: rest

def canonicalMember? : String × Json → Option (String × Json)
  | (name, value) => (canonical? value).map (name, ·)

end

/-- The canonical form of a value inside so many containers. -/
def dynamic? (enclosing : Nat) (j : Json) : Option Json :=
  if enclosing + j.depth ≤ nestingLimit then canonical? j else none

end EniForwarding.Json
