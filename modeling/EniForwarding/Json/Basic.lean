/-! JSON values.

A number keeps the parts of its text, so that reading loses nothing that a later
reader may need to see: `1`, `1.0` and `1e0` are three numerals. An object keeps its
members in order, with repetitions. A text that names half of a surrogate pair
stands for no string; a value that holds such a text where a string is wanted is
`unreadable`, which matters to those who look at it and to nobody else.
-/

set_option autoImplicit false

namespace EniForwarding

/-- The parts of a number's text. -/
structure Numeral where
  negative : Bool
  whole : Nat
  fraction : List (Fin 10)
  exponent : Option Int
  deriving DecidableEq, Repr

namespace Numeral

def ofNat (n : Nat) : Numeral := ⟨false, n, [], none⟩

def ofInt (i : Int) : Numeral := ⟨decide (i < 0), i.natAbs, [], none⟩

/-- The integer that the numeral writes; a fraction, an exponent or a sign before
zero makes it another kind of number. -/
def toInt? (n : Numeral) : Option Int :=
  match n.fraction, n.exponent, n.negative with
  | [], none, false => some n.whole
  | [], none, true => if n.whole = 0 then none else some (-(n.whole : Int))
  | _, _, _ => none

def toNatBelow? (n : Numeral) (bound : Nat) : Option Nat :=
  match n.toInt? with
  | some (.ofNat k) => if k < bound then some k else none
  | _ => none

end Numeral

inductive Json where
  | null
  | bool (value : Bool)
  | number (value : Numeral)
  | string (value : String)
  | array (items : List Json)
  | object (members : List (String × Json))
  | unreadable
  deriving BEq, Repr, Inhabited

namespace Json

def nat (n : Nat) : Json := .number (.ofNat n)

def int (i : Int) : Json := .number (.ofInt i)

def strings (items : List String) : Json := .array (items.map .string)

def ofString? : Option String → Json
  | some s => .string s
  | none => .null

def string? : Json → Option String
  | .string s => some s
  | _ => none

def array? : Json → Option (List Json)
  | .array items => some items
  | _ => none

mutual

/-- The number of containers around the innermost value. -/
def depth : Json → Nat
  | .array items => depthItems items + 1
  | .object members => depthMembers members + 1
  | _ => 0

def depthItems : List Json → Nat
  | [] => 0
  | item :: rest => max item.depth (depthItems rest)

def depthMembers : List (String × Json) → Nat
  | [] => 0
  | member :: rest => max (depthMember member) (depthMembers rest)

def depthMember : String × Json → Nat
  | (_, value) => value.depth

end

end Json

end EniForwarding
