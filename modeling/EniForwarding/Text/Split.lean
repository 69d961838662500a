/-! Cutting a text at a separating character.

`pieces` keeps every piece, also the empty ones, so joining the pieces with the
separator gives the text back. `atFirst` cuts once, at the first separator.
-/

set_option autoImplicit false

namespace EniForwarding.Text

/-- The pieces between the separators; there is always at least one. -/
def pieces (sep : Char) : List Char → List (List Char)
  | [] => [[]]
  | c :: rest =>
    if c = sep then [] :: pieces sep rest
    else
      match pieces sep rest with
      | [] => [[c]]
      | first :: others => (c :: first) :: others

/-- The parts before and after the first separator. -/
def atFirst (sep : Char) : List Char → Option (List Char × List Char)
  | [] => none
  | c :: rest =>
    if c = sep then some ([], rest)
    else (atFirst sep rest).map fun (before, after) => (c :: before, after)

theorem pieces_ne_nil (sep : Char) (cs : List Char) : pieces sep cs ≠ [] := by
  cases cs with
  | nil => simp [pieces]
  | cons c rest =>
    rw [pieces]
    split
    · simp
    · split <;> simp

theorem intercalate_pieces (sep : Char) (cs : List Char) :
    List.intercalate [sep] (pieces sep cs) = cs := by
  induction cs with
  | nil => simp [pieces, List.intercalate]
  | cons c rest ih =>
    rw [pieces]
    split
    next same =>
      subst same
      cases h : pieces c rest with
      | nil => exact absurd h (pieces_ne_nil c rest)
      | cons first others =>
        rw [h] at ih
        simpa [List.intercalate] using ih
    next =>
      cases h : pieces sep rest with
      | nil => exact absurd h (pieces_ne_nil sep rest)
      | cons first others =>
        rw [h] at ih
        cases others <;> simpa [List.intercalate] using ih

/-- A cut is at the first separator: what stands before it holds none. -/
theorem atFirst_eq_some_iff {sep : Char} {cs before after : List Char} :
    atFirst sep cs = some (before, after) ↔ cs = before ++ sep :: after ∧ sep ∉ before := by
  induction cs generalizing before with
  | nil => simp [atFirst]
  | cons c rest ih =>
    rw [atFirst]
    split
    next same =>
      subst same
      cases before <;> simp +contextual [eq_comm]
    next other =>
      cases before with
      | nil => simp [other]
      | cons head tail => simp [ih]; grind

theorem atFirst_eq_none_iff {sep : Char} {cs : List Char} :
    atFirst sep cs = none ↔ sep ∉ cs := by
  induction cs with
  | nil => simp [atFirst]
  | cons c rest ih =>
    rw [atFirst]
    split
    next same => simp [same]
    next other => simp [ih, Ne.symm other]

end EniForwarding.Text
