import EniForwarding.Json.Basic

/-! Numbers that are not integers of sixty-four bits.

Such a number is held as a double. Reading keeps the leading digits that fit sixty-four
bits, counts the others, and scales by a power of ten; a number beyond the doubles is
refused. Writing takes the fewest digits that read back as the same double, of two
candidates the nearer one, and a point or an exponent so that it is no integer.
-/

set_option autoImplicit false

namespace EniForwarding.Json

/-- Take in digits for as long as the number fits sixty-four bits; the digits that
did not fit remain. -/
def absorb (significand : Nat) : List Nat → Nat × List Nat
  | [] => (significand, [])
  | d :: rest =>
    if significand * 10 + d < UInt64.size then absorb (significand * 10 + d) rest
    else (significand, d :: rest)

/-- Multiply by a power of ten. No double is left once the value is infinite. Three
divisions by the greatest power bring every number of sixty-four bits to zero. -/
def scale? : Nat → Float → Int → Option Float
  | 0, value, _ => some value
  | fuel + 1, value, exponent =>
    if exponent.natAbs ≤ 308 then
      if 0 ≤ exponent then
        let scaled := value * Float.ofScientific 1 false exponent.natAbs
        if scaled.isInf then none else some scaled
      else some (value / Float.ofScientific 1 false exponent.natAbs)
    else if value == 0 then some value
    else if 0 ≤ exponent then none
    else scale? fuel (value / Float.ofScientific 1 false 308) (exponent + 308)

def approximate? (n : Numeral) : Option Float :=
  let whole := (Nat.toDigits 10 n.whole).map fun c => c.toNat - '0'.toNat
  let (significand, left) := absorb 0 whole
  let (significand, leftFraction) := absorb significand (n.fraction.map Fin.val)
  let shift := (left.length : Int) - (n.fraction.length - leftFraction.length : Nat)
  (scale? 5 significand.toUInt64.toFloat (shift + n.exponent.getD 0)).map fun value =>
    if n.negative then -value else value

/-- The least power of ten, among so many, that brings a fraction below one to at least one. -/
def leastShift (num den : Nat) : Nat → Nat → Nat
  | 0, shift => shift
  | fuel + 1, shift =>
    if den ≤ num * Nat.pow 10 shift then shift else leastShift num den fuel (shift + 1)

def leadingExponent (num den : Nat) : Int :=
  if den ≤ num then ((Nat.toDigits 10 (num / den)).length : Int) - 1
  else -(leastShift num den 400 1 : Int)

structure Interval where
  low : Nat
  value : Nat
  high : Nat
  den : Nat
  closed : Bool

/-- The numbers that are nearer to `m * 2 ^ q` than to another double; `narrow` says
that the double below is at half the distance. -/
def Interval.around (m : Nat) (q : Int) (narrow : Bool) : Interval :=
  let unit := Nat.pow 2 (q - 2).toNat
  let den := Nat.pow 2 (2 - q).toNat
  ⟨(4 * m - if narrow then 1 else 2) * unit, 4 * m * unit, (4 * m + 2) * unit, den, m % 2 == 0⟩

def Interval.has (i : Interval) (d : Nat) (k : Int) : Bool :=
  let x := d * Nat.pow 10 k.toNat * i.den
  let scale := Nat.pow 10 (-k).toNat
  let low := i.low * scale
  let high := i.high * scale
  if i.closed then low ≤ x && x ≤ high else low < x && x < high

/-- The multiple of `10 ^ k` to stand for the value: of its two neighbours the one
in the interval, of two such the nearer, and of two as near the even one. -/
def Interval.onGrid? (i : Interval) (k : Int) : Option Nat :=
  let num := i.value * Nat.pow 10 (-k).toNat
  let den := i.den * Nat.pow 10 k.toNat
  let below := num / den
  let rest := 2 * (num % den)
  match i.has below k, i.has (below + 1) k with
  | true, true =>
    if rest < den || (rest == den && below % 2 == 0) then some below else some (below + 1)
  | true, false => some below
  | false, true => some (below + 1)
  | false, false => none

/-- The shortest decimal `d * 10 ^ k`, looked for from `count` digits on. The grid of no
digits holds the next power of ten, which is as short as a digit can be. -/
def Interval.shortest (i : Interval) (leading : Int) : Nat → Nat → Nat × Int
  | 0, _ => (i.value / i.den, 0)
  | fuel + 1, count =>
    let k := leading + 1 - count
    match i.onGrid? k with
    | some d => (d, k)
    | none => i.shortest leading fuel (count + 1)

/-- The fraction and binary exponent of a positive double, and whether the double
below is at half the distance. -/
def binaryParts (bits : Nat) : Nat × Int × Bool :=
  let fraction := bits % Nat.pow 2 52
  let exponent : Nat := bits / Nat.pow 2 52 % Nat.pow 2 11
  if exponent = 0 then (fraction, -1074, false)
  else (fraction + Nat.pow 2 52, (exponent : Int) - 1075, fraction == 0 && exponent != 1)

/-- Lay out `d * 10 ^ k`: with a point if that takes at most sixteen digits before it
or four zeros behind it, otherwise with an exponent. -/
def layOut (negative : Bool) (d : Nat) (k : Int) : Numeral :=
  let digits := (Nat.toDigits 10 d).map fun c => Fin.ofNat 10 (c.toNat - '0'.toNat)
  let point := digits.length + k
  let number := fun (ds : List (Fin 10)) => ds.foldl (fun n d => n * 10 + d.val) 0
  if 0 ≤ k ∧ point ≤ 16 then ⟨negative, d * Nat.pow 10 k.toNat, [0], none⟩
  else if 0 < point ∧ point ≤ 16 then
    ⟨negative, number (digits.take point.toNat), digits.drop point.toNat, none⟩
  else if -5 < point ∧ point ≤ 0 then
    ⟨negative, 0, List.replicate (-point).toNat 0 ++ digits, none⟩
  else ⟨negative, number (digits.take 1), digits.drop 1, some (point - 1)⟩

/-- The shortest numeral that reads back as the double. -/
def numeralOf (value : Float) : Numeral :=
  let bits := value.toBits.toNat
  let negative := UInt64.size / 2 ≤ bits
  let (m, q, narrow) := binaryParts bits
  if m = 0 then ⟨negative, 0, [0], none⟩
  else
    let interval := Interval.around m q narrow
    let (d, k) := interval.shortest (leadingExponent interval.value interval.den) 18 0
    layOut negative d k

end EniForwarding.Json
