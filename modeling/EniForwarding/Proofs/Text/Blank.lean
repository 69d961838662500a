import Mathlib.Data.List.TakeWhile
import EniForwarding.Proofs.Text.Integer
import EniForwarding.Text.Blank

/-! Trimming.

A text is its trimmed form between two runs of blanks, and blanks that are put around a
text do not change what it is trimmed to.
-/

set_option autoImplicit false

namespace EniForwarding.Text

variable {cs : List Char}

theorem isBlank_of_digit {c : Char} (digit : (digit? 16 c).isSome = true) : isBlank c = false := by
  have bounds : 48 ≤ c.toNat ∧ c.toNat ≤ 102 := toNat_of_digit digit
  simp only [isBlank, Bool.or_eq_false_iff, Bool.and_eq_false_iff, decide_eq_false_iff_not,
    beq_eq_false_iff_ne, ne_eq]
  omega

/-- A written number is made of digits, so neither a blank nor a comma stands in it. -/
theorem solid_of_mem_toDigits {n : Nat} {c : Char} (member : c ∈ Nat.toDigits 10 n) :
    isBlank c = false ∧ c ≠ ',' := by
  have digit : c.isDigit = true := Nat.isDigit_of_mem_toDigits (by decide) (by decide) member
  refine ⟨isBlank_of_digit (isSome_digit?_of_isDigit digit), ?_⟩
  rintro rfl
  cases digit

theorem trimEndChars_append {after : List Char} (blank : ∀ c ∈ after, isBlank c = true) :
    trimEndChars (cs ++ after) = trimEndChars cs := by
  have reversed : ∀ c ∈ after.reverse, isBlank c = true := fun c member =>
    blank c (List.mem_reverse.1 member)
  rw [trimEndChars, List.reverse_append, List.dropWhile_append_of_pos reversed, trimEndChars]

theorem trimChars_surround {before after : List Char} (front : ∀ c ∈ before, isBlank c = true)
    (back : ∀ c ∈ after, isBlank c = true) :
    trimChars (before ++ (cs ++ after)) = trimChars cs := by
  have behind : trimStartChars (cs ++ after) = trimStartChars cs ++ after ∨
      (trimStartChars cs = [] ∧ trimStartChars (cs ++ after) = []) := by
    simp only [trimStartChars, List.dropWhile_append]
    split
    next nothing => exact .inr ⟨by simpa using nothing, List.dropWhile_eq_nil_iff.2 back⟩
    next => exact .inl rfl
  rw [trimChars, trimStartChars, List.dropWhile_append_of_pos front, ← trimStartChars]
  rcases behind with kept | ⟨nothing, nothing'⟩
  · rw [kept, trimEndChars_append back, trimChars]
  · rw [nothing', trimChars, nothing]

/-- What trimming takes off are blanks at the two ends. -/
theorem exists_surround (cs : List Char) : ∃ before after, cs = before ++ (trimChars cs ++ after) ∧
    (∀ c ∈ before, isBlank c = true) ∧ ∀ c ∈ after, isBlank c = true := by
  have blanks : ∀ ds : List Char, ∀ c ∈ ds.takeWhile isBlank, isBlank c = true :=
    fun ds => List.all_eq_true.1 List.all_takeWhile
  refine ⟨cs.takeWhile isBlank, ((trimStartChars cs).reverse.takeWhile isBlank).reverse, ?_,
    blanks cs, fun c member => blanks _ c (List.mem_reverse.1 member)⟩
  have back : trimChars cs ++ ((trimStartChars cs).reverse.takeWhile isBlank).reverse =
      trimStartChars cs := by
    rw [trimChars, trimEndChars, ← List.reverse_append, List.takeWhile_append_dropWhile,
      List.reverse_reverse]
  rw [back, trimStartChars, List.takeWhile_append_dropWhile]

theorem trimChars_eq_nil_iff : trimChars cs = [] ↔ ∀ c ∈ cs, isBlank c = true := by
  constructor
  · intro nothing
    obtain ⟨before, after, whole, front, back⟩ := exists_surround cs
    rw [nothing, List.nil_append] at whole
    intro c member
    rw [whole, List.mem_append] at member
    exact member.elim (front c) (back c)
  · intro blank
    rw [trimChars, trimStartChars, List.dropWhile_eq_nil_iff.2 blank]
    rfl

theorem trimChars_trimChars (cs : List Char) : trimChars (trimChars cs) = trimChars cs := by
  obtain ⟨before, after, whole, front, back⟩ := exists_surround cs
  have trimmed := congrArg trimChars whole
  rw [trimChars_surround front back] at trimmed
  exact trimmed.symm

theorem trimChars_of_solid (solid : ∀ c ∈ cs, isBlank c = false) : trimChars cs = cs := by
  obtain ⟨before, after, whole, front, back⟩ := exists_surround cs
  have nothing : ∀ run : List Char, run ⊆ cs → (∀ c ∈ run, isBlank c = true) → run = [] := by
    intro run inside blank
    rw [List.eq_nil_iff_forall_not_mem]
    intro c member
    have other := solid c (inside member)
    rw [blank c member] at other
    cases other
  have none_ : before = [] := nothing before (by rw [whole]; simp) front
  have none' : after = [] := nothing after (by rw [whole]; simp) back
  rw [none_, none', List.nil_append, List.append_nil] at whole
  exact whole.symm

/-- The text holds the characters, with nothing but blanks around them. -/
def Padded (cs : List Char) (s : String) : Prop :=
  ∃ before after, s.toList = before ++ (cs ++ after) ∧
    (∀ c ∈ before, isBlank c = true) ∧ ∀ c ∈ after, isBlank c = true

theorem Padded.trimChars {s : String} (padded : Padded cs s) (solid : ∀ c ∈ cs, isBlank c = false) :
    trimChars s.toList = cs := by
  obtain ⟨before, after, whole, front, back⟩ := padded
  rw [whole, trimChars_surround front back, trimChars_of_solid solid]

theorem padded_self (s : String) : Padded s.toList s := ⟨[], [], by simp, nofun, nofun⟩

end EniForwarding.Text
