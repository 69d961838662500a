import EniForwarding.Text.Integer

/-! IPv4 addresses in dotted decimal.

An octet is written without leading zeros, so each address has one written form.
`read?` takes an address off the front of a text and leaves the rest, because the
last part of an IPv6 address may be one.
-/

set_option autoImplicit false

namespace EniForwarding.Net

structure Ipv4 where
  a : UInt8
  b : UInt8
  c : UInt8
  d : UInt8
  deriving DecidableEq, Repr

namespace Ipv4

def octets (ip : Ipv4) : List UInt8 := [ip.a, ip.b, ip.c, ip.d]

def render (ip : Ipv4) : String :=
  ".".intercalate (ip.octets.map fun o => Text.renderRadix 10 o.toNat)

/-- An octet is the longest run of digits at the front: at most three, without a
leading zero, and below 256. -/
def octet? (cs : List Char) : Option (UInt8 × List Char) :=
  let digits := cs.takeWhile Char.isDigit
  if digits.length ≤ 3 && (digits.length == 1 || digits.head? != some '0') then
    (Text.someDigits? 10 digits).filter (· < 256) |>.map fun n =>
      (UInt8.ofNat n, cs.dropWhile Char.isDigit)
  else none

def dot? : List Char → Option (List Char)
  | '.' :: rest => some rest
  | _ => none

def read? (cs : List Char) : Option (Ipv4 × List Char) := do
  let (a, cs) ← octet? cs
  let (b, cs) ← octet? (← dot? cs)
  let (c, cs) ← octet? (← dot? cs)
  let (d, cs) ← octet? (← dot? cs)
  return (⟨a, b, c, d⟩, cs)

end Ipv4

end EniForwarding.Net
