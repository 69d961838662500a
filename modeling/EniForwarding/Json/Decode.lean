import EniForwarding.Data.SortedMap
import EniForwarding.Json.Basic

/-! Reading values of a fixed shape.

A record is an object, or an array that gives the members in their order. In an
object a member of the record occurs at most once and members beside those of the
record do not count; an array has no items beside them. A map is an object in which
the last value of a name counts.
-/

set_option autoImplicit false

namespace EniForwarding.Json

def named (members : List (String × Json)) (name : String) : List Json :=
  (members.filter (·.1 == name)).map Prod.snd

/-- The member of this name; `none` if it is given twice. -/
def single? (members : List (String × Json)) (name : String) : Option (Option Json) :=
  match named members name with
  | [] => some none
  | [value] => some (some value)
  | _ => none

/-- The items in a given number of places, the last of which may stay empty. -/
def places? : Nat → List Json → Option (List (Option Json))
  | 0, [] => some []
  | 0, _ :: _ => none
  | n + 1, [] => (places? n []).map (none :: ·)
  | n + 1, item :: rest => (places? n rest).map (some item :: ·)

/-- What a record gives for each of the names, in their order. -/
def record? (names : List String) : Json → Option (List (Option Json))
  | .object members => names.mapM (single? members)
  | .array items => places? names.length items
  | _ => none

def required {α : Type} (read : Json → Option α) : Option Json → Option α
  | some j => read j
  | none => none

def orElse {α : Type} (fallback : α) (read : Json → Option α) : Option Json → Option α
  | some j => read j
  | none => some fallback

def nullable {α : Type} (read : Json → Option α) : Option Json → Option (Option α)
  | none | some .null => some none
  | some j => (read j).map some

def list? {α : Type} (read : Json → Option α) : Json → Option (List α)
  | .array items => items.mapM read
  | _ => none

def map? {α : Type} (read : Json → Option α) : Json → Option (SortedMap String α)
  | .object members =>
    (members.mapM fun member => (read member.2).map (member.1, ·)).map SortedMap.ofList
  | _ => none

/-- One of several words: a string, or an object that maps the word to null. -/
def word? {α : Type} (read : String → Option α) : Json → Option α
  | .string s => read s
  | .object [(s, .null)] => read s
  | _ => none

def nat? (bound : Nat) : Json → Option Nat
  | .number n => n.toNatBelow? bound
  | _ => none

def ofStringMap (m : SortedMap String String) : Json :=
  .object (m.toList.map fun (name, value) => (name, .string value))

end EniForwarding.Json
