import EniForwarding.Text.Integer
/-! Reading back a written number.

A number is written without leading zeros in its radix. Reading the digits gives the
number back, and every character of the written form is a digit.
-/

set_option autoImplicit false

namespace EniForwarding.Text

theorem digit?_digitChar {radix d : Nat} (small : radix ≤ 16) (below : d < radix) :
    digit? radix (Nat.digitChar d) = some d := by
  have sixteen : ∀ d < 16, digit? 16 (Nat.digitChar d) = some d := by decide
  have value := sixteen d (by omega)
  simp only [digit?, Option.filter_eq_some_iff] at value ⊢
  exact ⟨value.1, by simpa using below⟩

theorem toNat_of_digit {c : Char} (digit : (digit? 16 c).isSome = true) :
    '0'.toNat ≤ c.toNat ∧ c.toNat ≤ 'f'.toNat := by
  simp only [digit?, Char.le_def, UInt32.le_iff_toNat_le, Bool.and_eq_true, decide_eq_true_eq] at digit
  split at digit
  next decimal => exact ⟨decimal.1, Nat.le_trans decimal.2 (by decide)⟩
  split at digit
  next lower => exact ⟨Nat.le_trans (by decide) lower.1, lower.2⟩
  split at digit
  next upper => exact ⟨Nat.le_trans (by decide) upper.1, Nat.le_trans upper.2 (by decide)⟩
  cases digit

theorem isSome_digit?_of_isDigit {c : Char} (digit : c.isDigit = true) : (digit? 16 c).isSome := by
  simp only [Char.isDigit, Bool.and_eq_true, decide_eq_true_eq] at digit
  have decimal : ('0' ≤ c && c ≤ '9') = true := by simpa [Char.le_def] using digit
  have small : c.toNat - '0'.toNat < 16 := by
    have most : c.toNat ≤ 57 := UInt32.le_iff_toNat_le.1 digit.2
    simp only [show '0'.toNat = 48 from rfl]
    omega
  simp only [digit?, decimal, if_true, Option.filter_some, decide_eq_true small]
  rfl

theorem digits?_concat {radix : Nat} (cs : List Char) (c : Char) :
    digits? radix (cs ++ [c]) =
      (digits? radix cs).bind fun n => (digit? radix c).map (n * radix + ·) := by
  simp [digits?, List.foldlM_append]

/-- A written number is read back, whatever its size. -/
theorem digits?_toDigits (radix : Nat) (least : 1 < radix) (most : radix ≤ 16) (n : Nat) :
    digits? radix (Nat.toDigits radix n) = some n := by
  induction n using Nat.strongRecOn with
  | ind n ih =>
    rw [Nat.toDigits_eq_if least]
    split
    next low => simp [digits?, digit?_digitChar most low]
    next high =>
      have shorter : n / radix < n := Nat.div_lt_self (by omega) least
      have digit : n % radix < radix := Nat.mod_lt n (by omega)
      rw [digits?_concat, ih _ shorter, digit?_digitChar most digit]
      simp [Nat.div_add_mod']

theorem someDigits?_toDigits (radix : Nat) (least : 1 < radix) (most : radix ≤ 16) (n : Nat) :
    someDigits? radix (Nat.toDigits radix n) = some n := by
  have read := digits?_toDigits radix least most n
  cases digits : Nat.toDigits radix n with
  | nil => exact absurd digits Nat.toDigits_ne_nil
  | cons c rest => rw [← digits, someDigits?, read]; simp [digits]

theorem isSome_digit?_of_mem_toDigits (radix : Nat) (least : 1 < radix) (most : radix ≤ 16)
    {n : Nat} {c : Char} (member : c ∈ Nat.toDigits radix n) : (digit? radix c).isSome := by
  induction n using Nat.strongRecOn with
  | ind n ih =>
    rw [Nat.toDigits_eq_if least] at member
    split at member
    next low =>
      rw [List.mem_singleton] at member
      simp [member, digit?_digitChar most low]
    next high =>
      have shorter : n / radix < n := Nat.div_lt_self (by omega) least
      have digit : n % radix < radix := Nat.mod_lt n (by omega)
      rcases List.mem_append.1 member with front | last
      · exact ih _ shorter front
      · rw [List.mem_singleton] at last
        simp [last, digit?_digitChar most digit]

end EniForwarding.Text
