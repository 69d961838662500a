import Mathlib.Data.List.Forall2
import EniForwarding.Text.Split

/-! Joined texts and their pieces.

Texts that are joined by a separator which none of them holds are found again as the
pieces of what they are joined to. Pieces that are read one by one are read in order,
and one that cannot be read spoils them all.
-/

set_option autoImplicit false

namespace EniForwarding.Text

theorem pieces_of_not_mem {sep : Char} {cs : List Char} (plain : sep ∉ cs) :
    pieces sep cs = [cs] := by
  induction cs with
  | nil => rfl
  | cons c rest ih =>
    rw [List.mem_cons, not_or] at plain
    rw [pieces, if_neg (Ne.symm plain.1), ih plain.2]

/-- The first piece ends at the first separator. -/
theorem pieces_append {sep : Char} {front : List Char} (plain : sep ∉ front) (rest : List Char) :
    pieces sep (front ++ sep :: rest) = front :: pieces sep rest := by
  induction front with
  | nil => simp [pieces]
  | cons c front ih =>
    rw [List.mem_cons, not_or] at plain
    rw [List.cons_append, pieces, if_neg (Ne.symm plain.1), ih plain.2]

theorem pieces_intercalate {sep : Char} {parts : List (List Char)} (some_ : parts ≠ [])
    (plain : ∀ part ∈ parts, sep ∉ part) : pieces sep (List.intercalate [sep] parts) = parts := by
  induction parts with
  | nil => exact absurd rfl some_
  | cons first others ih =>
    have here := plain first List.mem_cons_self
    cases others with
    | nil => simpa [List.intercalate] using pieces_of_not_mem here
    | cons second others =>
      have later := ih (List.cons_ne_nil _ _) fun part member => plain part (.tail _ member)
      simp only [List.intercalate, List.intersperse_cons_cons, List.flatten_cons] at later ⊢
      rw [List.singleton_append, pieces_append here, later]

theorem mem_intercalate_iff {sep c : Char} {parts : List (List Char)} :
    c ∈ List.intercalate [sep] parts ↔ (c = sep ∧ 2 ≤ parts.length) ∨ ∃ part ∈ parts, c ∈ part := by
  induction parts with
  | nil => simp [List.intercalate]
  | cons first others ih =>
    cases others with
    | nil => simp [List.intercalate]
    | cons second others =>
      simp only [List.intercalate, List.intersperse_cons_cons, List.flatten_cons,
        List.mem_append, List.mem_singleton, List.exists_mem_cons_iff, List.length_cons] at ih ⊢
      rw [ih]
      grind

/-- Reading item by item gives a value for each item, in their order. -/
theorem mapM_eq_some_iff {α β : Type} {read : α → Option β} {items : List α} {values : List β} :
    items.mapM read = some values ↔
      List.Forall₂ (fun item value => read item = some value) items values := by
  induction items generalizing values with
  | nil => simp [eq_comm]
  | cons item items ih =>
    simp only [List.mapM_cons, Option.pure_def, Option.bind_eq_bind, Option.bind_eq_some_iff, ih,
      List.forall₂_cons_left_iff, Option.some.injEq]
    constructor
    · rintro ⟨value, here, values, later, rfl⟩
      exact ⟨value, values, here, later, rfl⟩
    · rintro ⟨value, values, here, later, rfl⟩
      exact ⟨value, here, values, later, rfl⟩

end EniForwarding.Text
