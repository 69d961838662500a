import EniForwarding.Text.Blank
import EniForwarding.Text.Integer
import EniForwarding.Time.Calendar

/-! Points in time and their RFC 3339 form.

A point is written in UTC with as few fraction digits as suffice of 0, 3, 6 or 9. A
reader is lenient: numbers may be shorter than usual and follow blanks, the date and
the time may be divided by a blank, and any offset of less than a day is taken.
-/

set_option autoImplicit false

namespace EniForwarding.Time

/-- Seconds since the start of 1970 in UTC, and nanoseconds; a thousand million of
them or more stand for a leap second. -/
structure Instant where
  seconds : Int
  nanos : Nat
  deriving DecidableEq, Repr

namespace Instant

def padded (width n : Nat) : List Char :=
  let digits := Nat.toDigits 10 n
  List.replicate (width - digits.length) '0' ++ digits

def writeYear (year : Int) : List Char :=
  if 0 ≤ year ∧ year ≤ 9999 then padded 4 year.toNat
  else if 0 ≤ year then '+' :: padded 4 year.natAbs
  else '-' :: padded 4 year.natAbs

def writeFraction (nanos : Nat) : List Char :=
  if nanos = 0 then []
  else if nanos % 1000000 = 0 then '.' :: padded 3 (nanos / 1000000)
  else if nanos % 1000 = 0 then '.' :: padded 6 (nanos / 1000)
  else '.' :: padded 9 nanos

def render (t : Instant) : String :=
  let date := Date.ofDays (t.seconds.fdiv 86400)
  let second := (t.seconds.fmod 86400).toNat
  let leap := if t.nanos < 1000000000 then 0 else 1
  .ofList <|
    writeYear date.year ++ ['-'] ++ padded 2 date.month ++ ['-'] ++ padded 2 date.day ++ ['T'] ++
    padded 2 (second / 3600) ++ [':'] ++ padded 2 (second / 60 % 60) ++ [':'] ++
    padded 2 (second % 60 + leap) ++ writeFraction (t.nanos - leap * 1000000000) ++ ['Z']

/-- A reader of the front of a text. -/
abbrev Reader (α : Type) := List Char → Option (α × List Char)

def readDigits (most : Nat) : Reader Nat := fun cs =>
  let digits := (cs.take most).takeWhile Char.isDigit
  (Text.someDigits? 10 digits).map (·, cs.drop digits.length)

def readNumber (most : Nat) : Reader Nat := fun cs => readDigits most (Text.trimStartChars cs)

/-- A year of up to four digits, or of any number of them behind a sign. -/
def readYear : Reader Int := fun cs =>
  match Text.trimStartChars cs with
  | '-' :: cs => (readDigits cs.length cs).map fun (n, rest) => (-(n : Int), rest)
  | '+' :: cs => (readDigits cs.length cs).map fun (n, rest) => ((n : Int), rest)
  | cs => (readDigits 4 cs).map fun (n, rest) => ((n : Int), rest)

def readMark (mark : Char) : Reader Unit := fun cs =>
  match Text.trimStartChars cs with
  | c :: rest => if c = mark then some ((), rest) else none
  | [] => none

/-- A point and the digits of a fraction of a second, of which nine count. -/
def readFraction : Reader Nat
  | '.' :: cs =>
    let digits := (cs.take 9).takeWhile Char.isDigit
    (Text.someDigits? 10 digits).map fun n =>
      (n * Nat.pow 10 (9 - digits.length), cs.dropWhile Char.isDigit)
  | cs => some (0, cs)

def readPair : Reader Nat
  | a :: b :: rest => (Text.digits? 10 [a, b]).map (·, rest)
  | _ => none

/-- The offset from UTC in seconds. -/
def readOffset : Reader Int
  | 'Z' :: rest | 'z' :: rest => some (0, rest)
  | sign :: rest => do
    let factor : Int ←
      if sign = '+' then some 1 else if sign = '-' ∨ sign = '−' then some (-1) else none
    let (hours, rest) ← readPair rest
    let (minutes, rest) ← readPair (rest.dropWhile fun c => c == ':' || Text.isBlank c)
    if hours < 24 ∧ minutes < 60 then some (factor * (hours * 3600 + minutes * 60 : Nat), rest)
    else none
  | [] => none

def readZone : Reader Int := fun cs =>
  match cs with
  | a :: b :: c :: rest =>
    if [a, b, c].map Char.toUpper = ['U', 'T', 'C'] then some (0, rest) else readOffset cs
  | _ => readOffset cs

def readDate : Reader Date := fun cs => do
  let (year, cs) ← readYear cs
  let (_, cs) ← readMark '-' cs
  let (month, cs) ← readNumber 2 cs
  let (_, cs) ← readMark '-' cs
  let (day, cs) ← readNumber 2 cs
  let date : Date := ⟨year, month, day⟩
  if date.isValid then some (date, cs) else none

/-- The second of the day, and nanoseconds that include a leap second. -/
def readTime : Reader (Nat × Nat) := fun cs => do
  let (hour, cs) ← readNumber 2 cs
  let (_, cs) ← readMark ':' cs
  let (minute, cs) ← readNumber 2 cs
  let (_, cs) ← readMark ':' cs
  let (second, cs) ← readNumber 2 cs
  let (nanos, cs) ← readFraction cs
  if hour < 24 ∧ minute < 60 ∧ second ≤ 60 then
    let leap := if second = 60 then 1 else 0
    some ((hour * 3600 + minute * 60 + (second - leap), nanos + leap * 1000000000), cs)
  else none

def readDivider : Reader Unit
  | 'T' :: rest | 't' :: rest | ' ' :: rest => some ((), rest)
  | _ => none

def ofText? (s : String) : Option Instant := do
  let (date, cs) ← readDate s.toList
  let (_, cs) ← readDivider cs
  let ((second, nanos), cs) ← readTime cs
  let (offset, cs) ← readZone (Text.trimStartChars cs)
  let seconds := date.toDays * 86400 + second - offset
  if (Text.trimStartChars cs).isEmpty && isYear (Date.ofDays (seconds.fdiv 86400)).year then
    some ⟨seconds, nanos⟩
  else none

end Instant

end EniForwarding.Time
