/-! Decimal and hexadecimal integers as text.

A number is one or more ASCII digits with any number of leading zeros, after at
most one `+`; a signed number may have `-` there instead. A reader is given its
bounds and refuses what lies outside them.
-/

set_option autoImplicit false

namespace EniForwarding.Text

/-- The value of an ASCII digit in a radix up to sixteen. -/
def digit? (radix : Nat) (c : Char) : Option Nat :=
  let value? :=
    if '0' ≤ c && c ≤ '9' then some (c.toNat - '0'.toNat)
    else if 'a' ≤ c && c ≤ 'f' then some (c.toNat - 'a'.toNat + 10)
    else if 'A' ≤ c && c ≤ 'F' then some (c.toNat - 'A'.toNat + 10)
    else none
  value?.filter (· < radix)

def digits? (radix : Nat) (cs : List Char) : Option Nat :=
  cs.foldlM (fun n c => (digit? radix c).map (n * radix + ·)) 0

def someDigits? (radix : Nat) : List Char → Option Nat
  | [] => none
  | cs => digits? radix cs

/-- Digits after at most one `+`, with a value below the bound. -/
def unsigned? (radix bound : Nat) (cs : List Char) : Option Nat :=
  let digits :=
    match cs with
    | '+' :: rest => rest
    | cs => cs
  (someDigits? radix digits).filter (· < bound)

/-- Digits after at most one sign, with a value in `[-half, half)`. -/
def signed? (half : Nat) (cs : List Char) : Option Int :=
  match cs with
  | '-' :: rest => ((someDigits? 10 rest).filter (· ≤ half)).map fun n => -(n : Int)
  | cs => (unsigned? 10 half cs).map Int.ofNat

def uint8? (cs : List Char) : Option UInt8 := (unsigned? 10 UInt8.size cs).map UInt8.ofNat

def uint32? (cs : List Char) : Option UInt32 := (unsigned? 10 UInt32.size cs).map UInt32.ofNat

def uint64? (cs : List Char) : Option UInt64 := (unsigned? 10 UInt64.size cs).map UInt64.ofNat

def hexDigit (n : Nat) : Char := Nat.digitChar n

def renderRadix (radix n : Nat) : String := .ofList (Nat.toDigits radix n)

def hexPair (b : UInt8) : List Char := [hexDigit (b.toNat / 16), hexDigit (b.toNat % 16)]

end EniForwarding.Text
