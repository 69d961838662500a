import Mathlib.Data.List.Forall2
import Mathlib.Data.Nat.Digits.Defs
import EniForwarding.Proofs.Text.Integer

/-! Which texts are numbers, and of which value.

The grammar is stated apart from the readers: a digit by the characters that stand for
it, a number by its digits from the last one on, with any number of leading zeros. What
a reader accepts is exactly what the grammar allows below the reader's bound, and at
most one `+` in front of it.
-/

set_option autoImplicit false

namespace EniForwarding.Text

/-- The character stands for the digit; a letter may be in either case. -/
def Digit (radix : Nat) (c : Char) (d : Nat) : Prop :=
  d < radix ∧ (c = Nat.digitChar d ∨ c = (Nat.digitChar d).toUpper)

/-- One or more digits that write the number, whose last digit counts once. -/
def Spells (radix : Nat) (cs : List Char) (n : Nat) : Prop :=
  cs ≠ [] ∧ ∃ ds, List.Forall₂ (Digit radix) cs.reverse ds ∧ Nat.ofDigits radix ds = n

/-- A number as it may be written, with at most one `+` in front of the digits. -/
def Numeral (radix : Nat) (cs : List Char) (n : Nat) : Prop :=
  Spells radix cs n ∨ ∃ digits, cs = '+' :: digits ∧ Spells radix digits n

section readers

variable {radix : Nat} {cs : List Char} {n : Nat}

theorem digit?_eq_some_iff {c : Char} {d : Nat} (most : radix ≤ 16) :
    digit? radix c = some d ↔ Digit radix c d := by
  have either : ∀ d < 16, digit? 16 (Nat.digitChar d) = some d ∧
      digit? 16 (Nat.digitChar d).toUpper = some d := by decide
  have only : ∀ n < 103, ∀ d < 16, digit? 16 (Char.ofNat n) = some d →
      Char.ofNat n = Nat.digitChar d ∨ Char.ofNat n = (Nat.digitChar d).toUpper := by
    decide +kernel
  -- a digit of the radix is a digit of sixteen that is small enough
  have filtered : digit? radix c = some d ↔ digit? 16 c = some d ∧ d < radix := by
    simp only [digit?, Option.filter_eq_some_iff, decide_eq_true_eq]
    constructor
    · rintro ⟨value, below⟩
      exact ⟨⟨value, by omega⟩, below⟩
    · rintro ⟨⟨value, -⟩, below⟩
      exact ⟨value, below⟩
  rw [filtered, Digit, and_comm]
  refine and_congr_right fun below => ⟨fun value => ?_, ?_⟩
  · have bound := (toNat_of_digit (Option.isSome_of_eq_some value)).2
    have chosen := only c.toNat (Nat.lt_succ_of_le bound) d (by omega)
    rw [Char.ofNat_toNat] at chosen
    exact chosen value
  · rintro (rfl | rfl)
    · exact (either d (by omega)).1
    · exact (either d (by omega)).2

theorem digits?_eq_some_iff (most : radix ≤ 16) : digits? radix cs = some n ↔
    ∃ ds, List.Forall₂ (Digit radix) cs.reverse ds ∧ Nat.ofDigits radix ds = n := by
  obtain ⟨last, rfl⟩ : ∃ last : List Char, cs = last.reverse := ⟨_, cs.reverse_reverse.symm⟩
  rw [List.reverse_reverse]
  induction last generalizing n with
  | nil => simp [digits?, Nat.ofDigits_nil]
  | cons c last ih =>
    rw [List.reverse_cons, digits?_concat]
    simp only [Option.bind_eq_some_iff, Option.map_eq_some_iff, ih, digit?_eq_some_iff most,
      List.forall₂_cons_left_iff]
    constructor
    · rintro ⟨_, ⟨ds, spelled, rfl⟩, d, digit, rfl⟩
      exact ⟨d :: ds, ⟨d, ds, digit, spelled, rfl⟩, by rw [Nat.ofDigits_cons]; ring⟩
    · rintro ⟨_, ⟨d, ds, digit, spelled, rfl⟩, rfl⟩
      exact ⟨_, ⟨ds, spelled, rfl⟩, d, digit, by rw [Nat.ofDigits_cons]; ring⟩

theorem someDigits?_eq_some_iff (most : radix ≤ 16) :
    someDigits? radix cs = some n ↔ Spells radix cs n := by
  cases cs with
  | nil => simp [someDigits?, Spells]
  | cons c cs => simp [someDigits?, Spells, digits?_eq_some_iff most]

theorem spells_singleton_iff {c : Char} : Spells radix [c] n ↔ Digit radix c n := by
  simp [Spells, List.forall₂_cons_left_iff, Nat.ofDigits_singleton]

theorem spells_pair_iff {c d : Char} : Spells radix [c, d] n ↔
    ∃ high low, Digit radix c high ∧ Digit radix d low ∧ n = radix * high + low := by
  have value : ∀ high low, Nat.ofDigits radix [low, high] = radix * high + low := fun high low => by
    rw [Nat.ofDigits_cons, Nat.ofDigits_singleton, Nat.add_comm]
  simp only [Spells, List.reverse_cons, List.reverse_nil, List.nil_append,
    List.cons_append, List.forall₂_cons_left_iff, List.forall₂_nil_left_iff]
  constructor
  · rintro ⟨-, _, ⟨low, _, two, ⟨high, _, one, rfl, rfl⟩, rfl⟩, rfl⟩
    exact ⟨high, low, one, two, value high low⟩
  · rintro ⟨high, low, one, two, rfl⟩
    exact ⟨List.cons_ne_nil _ _, _, ⟨low, _, two, ⟨high, _, one, rfl, rfl⟩, rfl⟩, value high low⟩

theorem spells_toDigits (least : 1 < radix) (most : radix ≤ 16) (n : Nat) :
    Spells radix (Nat.toDigits radix n) n :=
  (someDigits?_eq_some_iff most).1 (someDigits?_toDigits radix least most n)

theorem not_spells_of_plus (most : radix ≤ 16) (rest : List Char) :
    ¬Spells radix ('+' :: rest) n := by
  have sign : digit? radix '+' = none := rfl
  rw [← someDigits?_eq_some_iff most]
  simp [someDigits?, digits?, sign]

/-- A number is read if it is below the bound. -/
theorem unsigned?_eq_some_iff {bound : Nat} (most : radix ≤ 16) :
    unsigned? radix bound cs = some n ↔ Numeral radix cs n ∧ n < bound := by
  simp only [unsigned?, Option.filter_eq_some_iff, someDigits?_eq_some_iff most,
    decide_eq_true_eq, Numeral]
  split
  next rest => simp [not_spells_of_plus most]
  next unsigned =>
    rw [or_iff_left]
    rintro ⟨digits, plus, -⟩
    exact unsigned digits plus

theorem unsigned?_toDigits (bound : Nat) (least : 1 < radix) (most : radix ≤ 16) (n : Nat) :
    unsigned? radix bound (Nat.toDigits radix n) = if n < bound then some n else none := by
  have spelled := spells_toDigits least most n
  have plain : unsigned? radix bound (Nat.toDigits radix n) =
      (someDigits? radix (Nat.toDigits radix n)).filter (· < bound) := by
    simp only [unsigned?]
    split
    next plus => exact absurd (plus ▸ spelled) (not_spells_of_plus most _)
    next => rfl
  rw [plain, someDigits?_toDigits radix least most, Option.filter_some]
  simp only [decide_eq_true_eq]

theorem unsigned?_uint8_iff {b : UInt8} (most : radix ≤ 16) :
    (unsigned? radix UInt8.size cs).map UInt8.ofNat = some b ↔ Numeral radix cs b.toNat := by
  rw [Option.map_eq_some_iff]
  constructor
  · rintro ⟨n, read, rfl⟩
    obtain ⟨numeral, below⟩ := (unsigned?_eq_some_iff most).1 read
    rwa [UInt8.toNat_ofNat_of_lt' below]
  · exact fun numeral => ⟨b.toNat, (unsigned?_eq_some_iff most).2 ⟨numeral, b.toNat_lt⟩, by simp⟩

theorem uint64?_eq_some_iff {v : UInt64} : uint64? cs = some v ↔ Numeral 10 cs v.toNat := by
  rw [uint64?, Option.map_eq_some_iff]
  constructor
  · rintro ⟨n, read, rfl⟩
    obtain ⟨numeral, below⟩ := (unsigned?_eq_some_iff (by decide)).1 read
    rwa [UInt64.toNat_ofNat_of_lt' below]
  · exact fun numeral =>
      ⟨v.toNat, (unsigned?_eq_some_iff (by decide)).2 ⟨numeral, v.toNat_lt⟩, by simp⟩

end readers

end EniForwarding.Text
