import EniForwarding.Json.Dynamic
import EniForwarding.Proofs.Json.Decode

/-! Values without a fixed shape that reading keeps.

A value is held where its numbers are integers of sixty-four bits and every object is a map. Such
a value is its own canonical form, so it is read back as it was written, unless it is nested too
deeply.
-/

set_option autoImplicit false

namespace EniForwarding

theorem Numeral.toInt?_ofInt (i : Int) : (ofInt i).toInt? = some i := by
  by_cases negative : i < 0
  · have some_ : i.natAbs ≠ 0 := by omega
    have same : -(i.natAbs : Int) = i := by omega
    simp only [ofInt, decide_eq_true negative, toInt?, if_neg some_, same]
  · have same : (i.natAbs : Int) = i := by omega
    simp only [ofInt, decide_eq_false negative, toInt?, same]

namespace Json

/-- The values that are held without a fixed shape, with no number but integers. -/
inductive Held : Json → Prop
  | null : Held .null
  | bool (value : Bool) : Held (.bool value)
  | integer {i : Int} (least : Int64.minValue.toInt ≤ i) (below : i < UInt64.size) : Held (.int i)
  | string (value : String) : Held (.string value)
  | array {items : List Json} (each : ∀ item ∈ items, Held item) : Held (.array items)
  | object {members : SortedMap String Json} (each : ∀ member ∈ members.toList, Held member.2) :
    Held (.object members.toList)

variable {j : Json}

theorem canonicalItems?_of_forall {items : List Json}
    (kept : ∀ item ∈ items, canonical? item = some item) : canonicalItems? items = some items := by
  induction items with
  | nil => rfl
  | cons item items ih =>
    have head := kept item List.mem_cons_self
    have tail := ih fun later member => kept later (List.mem_cons_of_mem _ member)
    simp [canonicalItems?, head, tail]

theorem canonicalMembers?_of_forall {members : List (String × Json)}
    (kept : ∀ member ∈ members, canonical? member.2 = some member.2) :
    canonicalMembers? members = some members := by
  induction members with
  | nil => rfl
  | cons member members ih =>
    obtain ⟨name, value⟩ := member
    have head := kept (name, value) List.mem_cons_self
    have tail := ih fun later among => kept later (List.mem_cons_of_mem _ among)
    simp [canonicalMembers?, canonicalMember?, head, tail]

theorem canonical?_object {members : SortedMap String Json}
    (kept : ∀ member ∈ members.toList, canonical? member.2 = some member.2) :
    canonical? (.object members.toList) = some (.object members.toList) := by
  rw [canonical?, canonicalMembers?_of_forall kept, Option.map_some, SortedMap.ofList_toList]

namespace Held

theorem readable (held : j.Held) : j.Readable := by
  induction held with
  | null | bool | integer | string => trivial
  | array each ih => exact readableItems_of_forall ih
  | object each ih => exact readableMembers_of_forall ih

theorem canonical (held : j.Held) : canonical? j = some j := by
  induction held with
  | null | bool | string => rfl
  | @integer i least below =>
    have value := Numeral.toInt?_ofInt i
    rw [int, canonical?, canonicalNumeral?, value]
    exact congrArg (Option.map Json.number) (if_pos ⟨least, below⟩)
  | array each ih => rw [canonical?, canonicalItems?_of_forall ih, Option.map_some]
  | object each ih => exact canonical?_object ih

/-- A value that is nested no deeper than a text may be is read as it is. -/
theorem dynamic {enclosing : Nat} (held : j.Held) (shallow : enclosing + j.depth ≤ nestingLimit) :
    j.dynamic? enclosing = some j := by
  rw [dynamic?, if_pos shallow, held.canonical]

end Held

/-! ### String maps -/

theorem depth_ofStringMap (m : SortedMap String String) : (ofStringMap m).depth = 1 := by
  have flat : ∀ entries : List (String × String),
      depthMembers (entries.map fun e => (e.1, .string e.2)) = 0 := by
    intro entries
    induction entries with
    | nil => rfl
    | cons entry entries ih => simp [depthMembers, depthMember, depth, ih]
  exact congrArg (· + 1) (flat m.toList)

theorem held_ofStringMap (m : SortedMap String String) : (ofStringMap m).Held := by
  have written : ofStringMap m = .object (m.map Json.string).toList := rfl
  rw [written]
  apply Held.object
  intro member among
  obtain ⟨entry, -, rfl⟩ := List.mem_map.1 among
  exact .string entry.2

end Json

end EniForwarding
