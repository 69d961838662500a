import EniForwarding.Proofs.Json.Scalars
import EniForwarding.Proofs.Text.Blank
import EniForwarding.Proofs.Time.Calendar
import EniForwarding.Time.Instant

/-! Reading back a written point in time.

Every part of the written form is a number of known width or ends at a mark, so each part is
read off the front of the text by itself. A leap second is written as the second 60 of its
minute, and is read back where it is the last second of a minute.
-/

set_option autoImplicit false

namespace EniForwarding.Time.Instant

open Json (Stops)

/-- A point in time with a year that can be written, and a leap second only at the end of
a minute. -/
structure Proper (t : Instant) : Prop where
  year : isYear (Date.ofDays (t.seconds.fdiv 86400)).year = true
  nanos : t.nanos < 2000000000
  leap : 1000000000 ≤ t.nanos → t.seconds % 60 = 59

/-! ### Numbers of a width -/

section numbers

variable {width most n : Nat} {digits rest : List Char}

theorem isDigit_of_mem_padded {c : Char} (member : c ∈ padded width n) : c.isDigit = true := by
  rcases List.mem_append.1 member with zeros | digits
  · rw [(List.mem_replicate.1 zeros).2]
    rfl
  · exact Json.isDigit_of_mem_toDigits digits

theorem padded_ne_nil : padded width n ≠ [] := by
  simp [padded, Nat.toDigits_ne_nil]

theorem someDigits?_padded : Text.someDigits? 10 (padded width n) = some n := by
  have zeros : ∀ more, Text.digits? 10 (List.replicate more '0' ++ Nat.toDigits 10 n) = some n := by
    intro more
    induction more with
    | zero => exact Text.digits?_toDigits 10 (by decide) (by decide) n
    | succ more ih => exact ih
  have read : Text.digits? 10 (padded width n) = some n := zeros _
  cases digits : padded width n with
  | nil => exact absurd digits padded_ne_nil
  | cons c cs => rwa [digits] at read

theorem length_padded (below : n < Nat.pow 10 width) (some_ : 0 < width) :
    (padded width n).length = width := by
  have short : (Nat.toDigits 10 n).length ≤ width :=
    (Nat.length_toDigits_le_iff (by decide) some_).2 below
  simp only [padded, List.length_append, List.length_replicate]
  omega

theorem trimStartChars_run (run : ∀ c ∈ digits, c.isDigit = true) (some_ : digits ≠ []) :
    Text.trimStartChars (digits ++ rest) = digits ++ rest := by
  cases digits with
  | nil => exact absurd rfl some_
  | cons c digits =>
    have solid := Text.isBlank_of_digit (Text.isSome_digit?_of_isDigit (run c List.mem_cons_self))
    exact List.dropWhile_cons_of_neg (by simp [solid])

theorem stops_take (stops : Stops Char.isDigit rest) (k : Nat) :
    Stops Char.isDigit (rest.take k) := by
  intro c head
  rw [List.head?_take] at head
  split at head
  · cases head
  · exact stops c head

theorem takeWhile_take (run : ∀ c ∈ digits, c.isDigit = true) (fits : digits.length ≤ most)
    (stops : Stops Char.isDigit (rest.take (most - digits.length))) :
    ((digits ++ rest).take most).takeWhile Char.isDigit = digits := by
  rw [List.take_append, List.take_of_length_le fits, Text.takeWhile_run run stops]

/-- A run of digits is read to its end, where the text stops having digits or the limit is. -/
theorem readDigits_run (run : ∀ c ∈ digits, c.isDigit = true)
    (read : Text.someDigits? 10 digits = some n) (fits : digits.length ≤ most)
    (ends : digits.length = most ∨ Stops Char.isDigit rest) :
    readDigits most (digits ++ rest) = some (n, rest) := by
  have stops : Stops Char.isDigit (rest.take (most - digits.length)) := by
    rcases ends with full | stops
    · rw [full, Nat.sub_self]
      nofun
    · exact stops_take stops _
  simp [readDigits, takeWhile_take run fits stops, read]

theorem readDigits_padded (below : n < Nat.pow 10 width) (some_ : 0 < width) :
    readDigits width (padded width n ++ rest) = some (n, rest) := by
  have length := length_padded below some_
  exact readDigits_run (fun c member => isDigit_of_mem_padded member) someDigits?_padded
    (Nat.le_of_eq length) (.inl length)

theorem readNumber_padded (below : n < Nat.pow 10 width) (some_ : 0 < width) :
    readNumber width (padded width n ++ rest) = some (n, rest) := by
  rw [readNumber, trimStartChars_run (fun c member => isDigit_of_mem_padded member) padded_ne_nil,
    readDigits_padded below some_]

end numbers

/-! ### The parts -/

section parts

variable {rest : List Char}

theorem readYear_unsigned {n : Nat} (below : n < 10000) :
    readYear (padded 4 n ++ rest) = some ((n : Int), rest) := by
  have read : readDigits 4 (padded 4 n ++ rest) = some (n, rest) :=
    readDigits_padded below (by decide)
  have sign : ∀ c cs, padded 4 n ++ rest = c :: cs → c.isDigit = true := by
    intro c cs same
    cases digits : padded 4 n with
    | nil => exact absurd digits padded_ne_nil
    | cons d ds =>
      rw [digits, List.cons_append, List.cons.injEq] at same
      exact isDigit_of_mem_padded (same.1 ▸ digits ▸ List.mem_cons_self)
  rw [readYear, trimStartChars_run (fun c => isDigit_of_mem_padded) padded_ne_nil]
  -- the two cases with a sign cannot be, since a digit is none
  split
  next same => exact absurd (sign _ _ same) (by decide)
  next same => exact absurd (sign _ _ same) (by decide)
  next => rw [read, Option.map_some]

/-- A year without a sign has four digits; behind a sign it has as many as there are. -/
theorem readYear_writeYear (year : Int) (stops : Stops Char.isDigit rest) :
    readYear (writeYear year ++ rest) = some (year, rest) := by
  have signed : readDigits (padded 4 year.natAbs ++ rest).length (padded 4 year.natAbs ++ rest) =
      some (year.natAbs, rest) :=
    readDigits_run (fun c => isDigit_of_mem_padded) someDigits?_padded (by simp) (.inr stops)
  unfold writeYear
  split
  next plain =>
    rw [readYear_unsigned (by omega), Int.toNat_of_nonneg plain.1]
  split
  next late =>
    have same : (year.natAbs : Int) = year := by omega
    exact (congrArg (Option.map _) signed).trans (congrArg (fun year => some (year, rest)) same)
  next early =>
    have same : -(year.natAbs : Int) = year := by omega
    exact (congrArg (Option.map _) signed).trans (congrArg (fun year => some (year, rest)) same)

/-- The digits of a fraction are scaled by those that were left out behind them. -/
theorem readFraction_digits {width n nanos : Nat} (below : n < Nat.pow 10 width)
    (some_ : 0 < width) (fits : width ≤ 9) (scaled : n * Nat.pow 10 (9 - width) = nanos)
    (stops : Stops Char.isDigit rest) :
    readFraction ('.' :: (padded width n ++ rest)) = some (nanos, rest) := by
  have run : ∀ c ∈ padded width n, c.isDigit = true := fun c => isDigit_of_mem_padded
  have length := length_padded below some_
  have digits := takeWhile_take run (Nat.le_trans (Nat.le_of_eq length) fits) (stops_take stops _)
  simp only [readFraction, digits, Text.dropWhile_run run stops, someDigits?_padded, length,
    Option.map_some, scaled]

theorem readFraction_writeFraction {nanos : Nat} (below : nanos < 1000000000)
    (stops : Stops (fun c => c.isDigit || c == '.') rest) :
    readFraction (writeFraction nanos ++ rest) = some (nanos, rest) := by
  have stops' : Stops Char.isDigit rest := stops.weaken fun c digit => by simp [digit]
  unfold writeFraction
  split
  next whole =>
    subst whole
    unfold readFraction
    split
    next same => exact absurd (congrArg List.head? same) (stops.head_ne rfl)
    next => rfl
  split
  next millis =>
    have few : nanos / 1000000 < 1000 := by omega
    have scaled : nanos / 1000000 * 1000000 = nanos := by omega
    exact readFraction_digits few (by decide) (by decide) scaled stops'
  split
  next micros =>
    have few : nanos / 1000 < 1000000 := by omega
    have scaled : nanos / 1000 * 1000 = nanos := by omega
    exact readFraction_digits few (by decide) (by decide) scaled stops'
  next => exact readFraction_digits below (by decide) (by decide) (Nat.mul_one nanos) stops'

theorem readDate_written {date : Date} (valid : date.isValid = true) :
    readDate (writeYear date.year ++ '-' :: (padded 2 date.month ++ '-' ::
      (padded 2 date.day ++ rest))) = some (date, rest) := by
  have small := valid
  simp only [Date.isValid, Bool.and_eq_true, decide_eq_true_eq] at small
  have short := monthLength_le date.year date.month
  have month : date.month < Nat.pow 10 2 := Nat.lt_of_le_of_lt small.1.1.2 (by decide)
  have day : date.day < Nat.pow 10 2 :=
    Nat.lt_of_le_of_lt (Nat.le_trans small.2 short) (by decide)
  have mark : ∀ cs, readMark '-' ('-' :: cs) = some ((), cs) := fun _ => rfl
  have year : ∀ cs, readYear (writeYear date.year ++ '-' :: cs) = some (date.year, '-' :: cs) :=
    fun _ => readYear_writeYear date.year (Stops.cons rfl)
  simp only [readDate, year, mark, readNumber_padded month (by decide),
    readNumber_padded day (by decide), Option.bind_eq_bind, Option.bind_some, valid, if_true]

/-- The time of day, where the second before a minute's end may be followed by a leap second. -/
theorem readTime_written {second extra nanos : Nat} (day : second < 86400)
    (leap : extra = 0 ∨ extra = 1 ∧ second % 60 = 59) (below : nanos < 1000000000)
    (stops : Stops (fun c => c.isDigit || c == '.') rest) :
    readTime (padded 2 (second / 3600) ++ ':' :: (padded 2 (second / 60 % 60) ++ ':' ::
      (padded 2 (second % 60 + extra) ++ (writeFraction nanos ++ rest)))) =
    some ((second, nanos + extra * 1000000000), rest) := by
  have mark : ∀ cs, readMark ':' (':' :: cs) = some ((), cs) := fun _ => rfl
  have number : ∀ n ≤ 60, ∀ cs, readNumber 2 (padded 2 n ++ cs) = some (n, cs) :=
    fun n small cs => readNumber_padded (Nat.lt_of_le_of_lt small (by decide)) (by decide)
  have hour : second / 3600 < 24 := by omega
  have minute : second / 60 % 60 < 60 := by omega
  have last : second % 60 + extra ≤ 60 := by omega
  have extra' : (if second % 60 + extra = 60 then 1 else 0) = extra := by split <;> omega
  have sum : second / 3600 * 3600 + second / 60 % 60 * 60 + (second % 60 + extra - extra) =
      second := by omega
  simp only [readTime, mark, number _ (Nat.le_trans (Nat.le_of_lt hour) (by decide)),
    number _ (Nat.le_of_lt minute), number _ last, readFraction_writeFraction below stops,
    Option.bind_eq_bind, Option.bind_some, if_pos (And.intro hour (And.intro minute last)), extra',
    sum]

end parts

theorem ofText?_render {t : Instant} (proper : t.Proper) : ofText? t.render = some t := by
  obtain ⟨year, nanos, leap⟩ := proper
  obtain ⟨day, day_eq⟩ : ∃ day, day = t.seconds.fdiv 86400 := ⟨_, rfl⟩
  obtain ⟨second, second_eq⟩ : ∃ second, second = (t.seconds.fmod 86400).toNat := ⟨_, rfl⟩
  obtain ⟨extra, extra_eq⟩ : ∃ extra, extra = if t.nanos < 1000000000 then 0 else 1 := ⟨_, rfl⟩
  have text : t.render.toList = writeYear (Date.ofDays day).year ++ '-' ::
      (padded 2 (Date.ofDays day).month ++ '-' :: (padded 2 (Date.ofDays day).day ++ 'T' ::
        (padded 2 (second / 3600) ++ ':' :: (padded 2 (second / 60 % 60) ++ ':' ::
          (padded 2 (second % 60 + extra) ++
            (writeFraction (t.nanos - extra * 1000000000) ++ ['Z'])))))) := by
    simp [render, day_eq, second_eq, extra_eq]
  rw [← day_eq] at year
  have day_div : day = t.seconds / 86400 :=
    day_eq.trans (Int.fdiv_eq_ediv_of_nonneg _ (by decide))
  have second_mod : second = (t.seconds % 86400).toNat :=
    second_eq.trans (congrArg Int.toNat (Int.fmod_eq_emod_of_nonneg _ (by decide)))
  -- the text counts a leap second among the seconds, and the instant among the nanoseconds
  have leap' : extra = 0 ∨ extra = 1 ∧ second % 60 = 59 := by
    split at extra_eq
    next => exact .inl extra_eq
    next late =>
      have minute := leap (by omega)
      exact .inr ⟨extra_eq, by omega⟩
  have fraction : t.nanos - extra * 1000000000 < 1000000000 := by split at extra_eq <;> omega
  have nanos' : t.nanos - extra * 1000000000 + extra * 1000000000 = t.nanos := by
    split at extra_eq <;> omega
  have stops : Stops (fun c => c.isDigit || c == '.') ['Z'] := Stops.cons rfl
  have time := readTime_written (by omega : second < 86400) leap' fraction stops
  have zone : readZone (Text.trimStartChars ['Z']) = some (0, []) := rfl
  have divider : ∀ cs, readDivider ('T' :: cs) = some ((), cs) := fun _ => rfl
  have seconds : day * 86400 + (second : Int) - 0 = t.seconds := by omega
  simp only [ofText?, text, readDate_written (isValid_ofDays year), divider, time, zone,
    nanos', Option.bind_eq_bind, Option.bind_some, toDays_ofDays, seconds, ← day_eq, year]
  rfl

end EniForwarding.Time.Instant
