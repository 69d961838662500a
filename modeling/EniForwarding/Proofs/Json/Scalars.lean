import EniForwarding.Json.Parser
import EniForwarding.Json.Printer
import EniForwarding.Proofs.Net.Address

/-! Reading back written strings and numerals.

A string is read back piece by piece: each of its characters is written as one piece. The parts
of a numeral tell where they end by the character that begins the next part, so a numeral is
read back where none of these characters follows it.
-/

set_option autoImplicit false

namespace EniForwarding

namespace Text

theorem digits?_hexPair (b : UInt8) : digits? 16 ('0' :: '0' :: hexPair b) = some b.toNat := by
  have all : ∀ n < 256, digits? 16 ('0' :: '0' :: hexPair (UInt8.ofNat n)) =
      some (UInt8.ofNat n).toNat := by
    decide +kernel
  have one := all b.toNat b.toNat_lt
  rwa [UInt8.ofNat_toNat] at one

theorem head_toDigits {n : Nat} (positive : 0 < n) : (Nat.toDigits 10 n).head? ≠ some '0' := by
  induction n using Nat.strongRecOn with
  | ind n ih =>
    rw [Nat.toDigits_eq_if (by decide)]
    split
    next low =>
      have digits : ∀ d < 10, 0 < d → Nat.digitChar d ≠ '0' := by decide
      simpa using digits n low positive
    next high =>
      have front := ih (n / 10) (by omega) (by omega)
      cases digits : Nat.toDigits 10 (n / 10) with
      | nil => exact absurd digits Nat.toDigits_ne_nil
      | cons c rest =>
        rw [digits] at front
        exact front

end Text

namespace Json

/-! ### Strings -/

/-- The piece that a character is written as: a control character without a letter of its own is
written by its number. -/
def pieceOf (c : Char) : Piece :=
  if c.toNat < 0x20 ∧ c ∉ ['\x08', '\x0c', '\n', '\r', '\t'] then .unit c.toNat else .char c

section pieces

variable (tail : List Char)

theorem readPieces_plain {c : Char} (quote : c ≠ '"') (backslash : c ≠ '\\') (high : ¬ c.toNat < 0x20) :
    readPieces (c :: tail) =
      (readPieces tail).map fun pieces => (.char c :: pieces.1, pieces.2) := by
  rw [readPieces]
  · simp [high]
  all_goals simp_all

theorem readPieces_unit (b : UInt8) :
    readPieces ("\\u00".toList ++ Text.hexPair b ++ tail) =
      (readPieces tail).map fun pieces => (.unit b.toNat :: pieces.1, pieces.2) := by
  have value := Text.digits?_hexPair b
  rw [Text.hexPair] at value
  simp [readPieces, Text.hexPair, value]
  cases readPieces tail <;> rfl

theorem readPieces_short {letter c : Char} (short : escaped? letter = some c) :
    readPieces ('\\' :: letter :: tail) =
      (readPieces tail).map fun pieces => (.char c :: pieces.1, pieces.2) := by
  have other : letter ≠ 'u' := by
    rintro rfl
    cases short
  rw [readPieces]
  · simp only [short, Option.bind_eq_bind, Option.bind_some]
    cases readPieces tail <;> rfl
  · simp_all

theorem readPieces_escapeChar (c : Char) :
    readPieces (escapeChar c ++ tail) =
      (readPieces tail).map fun pieces => (pieceOf c :: pieces.1, pieces.2) := by
  unfold escapeChar
  split
  any_goals exact readPieces_short tail rfl
  next quote backslash h1 h2 h3 h4 h5 =>
    have long : c ∉ ['\x08', '\x0c', '\n', '\r', '\t'] := by
      simp only [List.mem_cons, List.not_mem_nil, or_false, not_or]
      exact ⟨h1, h2, h3, h4, h5⟩
    unfold pieceOf
    split
    next low =>
      have value : c.toNat.toUInt8.toNat = c.toNat := by
        simp only [UInt8.toNat_ofNat']
        omega
      rw [readPieces_unit, value, if_pos ⟨low, long⟩]
    next high =>
      rw [if_neg fun both => high both.1]
      exact readPieces_plain tail quote backslash high

end pieces

/-- No written piece is half of a surrogate pair. -/
theorem joinPieces_pieceOf (c : Char) (pieces : List Piece) :
    joinPieces (pieceOf c :: pieces) = (joinPieces pieces).map (c :: ·) := by
  unfold pieceOf
  split
  next low =>
    obtain ⟨low, -⟩ := low
    have leading : isLeading c.toNat = false := by simp [isLeading]; omega
    have trailing : isTrailing c.toNat = false := by simp [isTrailing]; omega
    rw [joinPieces.eq_def]
    simp [leading, trailing]
  next => rfl

theorem readPieces_escaped (cs rest : List Char) :
    readPieces (cs.flatMap escapeChar ++ '"' :: rest) = some (cs.map pieceOf, rest) := by
  induction cs with
  | nil => simp [readPieces]
  | cons c cs ih =>
    rw [List.flatMap_cons, List.append_assoc, readPieces_escapeChar, ih]
    rfl

theorem joinPieces_map (cs : List Char) : joinPieces (cs.map pieceOf) = some cs := by
  induction cs with
  | nil => rfl
  | cons c cs ih => rw [List.map_cons, joinPieces_pieceOf, ih, Option.map_some]

theorem readString_written (s : String) (rest : List Char) :
    readString (s.toList.flatMap escapeChar ++ '"' :: rest) = some (some s, rest) := by
  simp [readString, readPieces_escaped, joinPieces_map]

/-! ### Numerals -/

/-- The text does not go on with a character of this class. -/
def Stops (p : Char → Bool) (rest : List Char) : Prop := ∀ c, rest.head? = some c → p c = false

def isNumeric (c : Char) : Bool := c.isDigit || c == '.' || c == 'e' || c == 'E'

section numerals

variable {p q : Char → Bool} {rest : List Char}

theorem Stops.weaken (stops : Stops p rest) (less : ∀ c, q c = true → p c = true) : Stops q rest := by
  intro c head
  have plain := stops c head
  cases goes : q c with
  | false => rfl
  | true => rw [less c goes] at plain; cases plain

theorem Stops.head_ne (stops : Stops p rest) {c : Char} (goes : p c = true) : rest.head? ≠ some c := by
  intro head
  rw [stops c head] at goes
  cases goes

/-- What begins with a character of another class goes on with none of this one. -/
theorem Stops.cons {c : Char} (other : p c = false) : Stops p (c :: rest) := by
  intro d head
  cases head
  exact other

theorem isDigit_of_mem_toDigits {n : Nat} {c : Char} (member : c ∈ Nat.toDigits 10 n) :
    c.isDigit = true :=
  Nat.isDigit_of_mem_toDigits (by decide) (by decide) member

theorem readWhole_toDigits (n : Nat) (stops : Stops Char.isDigit rest) :
    readWhole (Nat.toDigits 10 n ++ rest) = some (n, rest) := by
  have digits : ∀ c ∈ Nat.toDigits 10 n, c.isDigit = true := fun _ => isDigit_of_mem_toDigits
  have plain : ((Nat.toDigits 10 n).head? == some '0' && (Nat.toDigits 10 n).length != 1) = false := by
    rcases Nat.eq_zero_or_pos n with rfl | positive
    · rfl
    · simp [Text.head_toDigits positive]
  rw [readWhole, Text.takeWhile_run digits stops, Text.dropWhile_run digits stops, plain,
    Text.someDigits?_toDigits 10 (by decide) (by decide)]
  rfl

theorem digitOf_digitChar (d : Fin 10) :
    (Nat.digitChar d.val).isDigit = true ∧ digitOf (Nat.digitChar d.val) = d := by
  decide +revert

theorem readFraction_written (digits : List (Fin 10))
    (stops : Stops (fun c => c.isDigit || c == '.') rest) :
    readFraction (writeFraction digits ++ rest) = some (digits, rest) := by
  cases digits with
  | nil =>
    unfold readFraction
    split
    next same => exact absurd (congrArg List.head? same) (stops.head_ne rfl)
    next => rfl
  | cons d digits =>
    have run : ∀ c ∈ (d :: digits).map fun d => Nat.digitChar d.val, c.isDigit = true := by
      intro c member
      obtain ⟨d, -, rfl⟩ := List.mem_map.1 member
      exact (digitOf_digitChar d).1
    have read : ((d :: digits).map fun d => Nat.digitChar d.val).map digitOf = d :: digits := by
      simp [List.map_map, Function.comp_def, digitOf_digitChar]
    have ends : Stops Char.isDigit rest := stops.weaken fun c digit => by simp [digit]
    have written : writeFraction (d :: digits) ++ rest =
      '.' :: ((d :: digits).map (fun d => Nat.digitChar d.val) ++ rest) := rfl
    rw [written, readFraction]
    simp only [Text.takeWhile_run run ends, Text.dropWhile_run run ends, read]
    rfl

theorem readExponentDigits_written (negative : Bool) (n : Nat) (stops : Stops Char.isDigit rest) :
    readExponentDigits ((if negative then '-' else '+') :: Nat.toDigits 10 n ++ rest) =
      some (some (if negative then -(n : Int) else n), rest) := by
  have digits : ∀ c ∈ Nat.toDigits 10 n, c.isDigit = true := fun _ => isDigit_of_mem_toDigits
  cases negative <;>
    simp [readExponentDigits, readSign, Text.takeWhile_run digits stops,
      Text.dropWhile_run digits stops, Text.someDigits?_toDigits 10 (by decide) (by decide)]

theorem readExponent_written (exponent : Option Int) (stops : Stops isNumeric rest) :
    readExponent (writeExponent exponent ++ rest) = some (exponent, rest) := by
  have ends : Stops Char.isDigit rest := stops.weaken fun c digit => by simp [isNumeric, digit]
  cases exponent with
  | none =>
    unfold readExponent
    split
    next same => exact absurd (congrArg List.head? same) (stops.head_ne rfl)
    next same => exact absurd (congrArg List.head? same) (stops.head_ne rfl)
    next => rfl
  | some e =>
    cases e with
    | ofNat e => exact readExponentDigits_written false e ends
    | negSucc e => exact readExponentDigits_written true (e + 1) ends

theorem stops_exponent (exponent : Option Int) (stops : Stops isNumeric rest) :
    Stops (fun c => c.isDigit || c == '.') (writeExponent exponent ++ rest) := by
  rcases exponent with _ | _ | _
  · exact stops.weaken fun c => by
      simp only [isNumeric, Bool.or_eq_true]
      exact fun goes => .inl (.inl goes)
  · exact .cons rfl
  · exact .cons rfl

theorem stops_fraction (digits : List (Fin 10))
    (stops : Stops (fun c => c.isDigit || c == '.') rest) :
    Stops Char.isDigit (writeFraction digits ++ rest) := by
  cases digits with
  | nil => exact stops.weaken fun c digit => by simp [digit]
  | cons => exact .cons rfl

theorem readNumeral_written (n : Numeral) (stops : Stops isNumeric rest) :
    readNumeral (writeNumeral n ++ rest) = some (n, rest) := by
  obtain ⟨negative, whole, fraction, exponent⟩ := n
  have before := stops_exponent exponent stops
  have read := readWhole_toDigits whole (stops_fraction fraction before)
  have parts : readFraction (writeFraction fraction ++ (writeExponent exponent ++ rest)) =
      some (fraction, writeExponent exponent ++ rest) ∧
      readExponent (writeExponent exponent ++ rest) = some (exponent, rest) :=
    ⟨readFraction_written fraction before, readExponent_written exponent stops⟩
  unfold readNumeral writeNumeral
  cases negative with
  | true => simp [read, parts]
  | false =>
    -- the whole part begins with a digit, which is no sign
    cases digits : Nat.toDigits 10 whole with
    | nil => exact absurd digits Nat.toDigits_ne_nil
    | cons c cs =>
      have unsigned : c ≠ '-' := by
        rintro rfl
        have digit := isDigit_of_mem_toDigits (digits ▸ List.mem_cons_self)
        cases digit
      rw [digits] at read
      simp only [Bool.false_eq_true, if_false, List.nil_append, List.cons_append, List.append_assoc]
      split
      next same => exact absurd (List.cons.inj same).1 unsigned
      next =>
        rw [List.cons_append] at read
        simp [read, parts]

end numerals

end Json

end EniForwarding
