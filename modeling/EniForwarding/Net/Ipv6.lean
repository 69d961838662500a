import EniForwarding.Net.Ipv4

/-! IPv6 addresses and their text form.

The written form is that of RFC 5952: lower-case groups without leading zeros,
`::` for the first of the longest runs of at least two zero groups, and dotted
decimal for the addresses that map an IPv4 address. A reader takes every form
that writes the same eight groups, `::` standing for at least one of them.
-/

set_option autoImplicit false

namespace EniForwarding.Net

structure Ipv6 where
  groups : List UInt16
  length_groups : groups.length = 8
  deriving DecidableEq, Repr

namespace Ipv6

def ofGroups? (groups : List UInt16) : Option Ipv6 :=
  if h : groups.length = 8 then some ⟨groups, h⟩ else none

def groupsOf (ip : Ipv4) : List UInt16 :=
  [ip.a.toUInt16 * 256 + ip.b.toUInt16, ip.c.toUInt16 * 256 + ip.d.toUInt16]

/-- The IPv4 address that `::ffff:0:0/96` maps into IPv6, if this is one. -/
def mapped? (ip : Ipv6) : Option Ipv4 :=
  match ip.groups with
  | [0, 0, 0, 0, 0, 0xffff, high, low] =>
    some ⟨(high >>> 8).toUInt8, high.toUInt8, (low >>> 8).toUInt8, low.toUInt8⟩
  | _ => none

/-- Where the first of the longest runs of zeros starts, and its length. -/
def longestZeros : List UInt16 → Nat × Nat
  | [] => (0, 0)
  | g :: rest =>
    let here := ((g :: rest).takeWhile (· == 0)).length
    let (start, length) := longestZeros rest
    if length ≤ here then (0, here) else (start + 1, length)

def renderGroups (groups : List UInt16) : String :=
  ":".intercalate (groups.map fun g => Text.renderRadix 16 g.toNat)

def render (ip : Ipv6) : String :=
  match ip.mapped? with
  | some v4 => "::ffff:" ++ v4.render
  | none =>
    let (start, length) := longestZeros ip.groups
    if 1 < length then
      renderGroups (ip.groups.take start) ++ "::" ++ renderGroups (ip.groups.drop (start + length))
    else renderGroups ip.groups

/-- A group is the longest run of hexadecimal digits at the front, one to four of them. -/
def group? (cs : List Char) : Option (UInt16 × List Char) :=
  let isHex := fun c => (Text.digit? 16 c).isSome
  let digits := cs.takeWhile isHex
  if digits.length ≤ 4 then
    (Text.someDigits? 16 digits).map fun n => (UInt16.ofNat n, cs.dropWhile isHex)
  else none

def afterColon? (first : Bool) : List Char → Option (List Char)
  | ':' :: rest => if first then some (':' :: rest) else some rest
  | cs => if first then some cs else none

/-- Read up to `room` groups off the front. The last two may be written as an IPv4
address, which ends the part; the flag says whether they were. -/
def readGroups : (room : Nat) → (first : Bool) → List Char → List UInt16 × Bool × List Char
  | 0, _, cs => ([], false, cs)
  | room + 1, first, cs =>
    match afterColon? first cs with
    | none => ([], false, cs)
    | some inner =>
      match if 0 < room then Ipv4.read? inner else none with
      | some (v4, rest) => (groupsOf v4, true, rest)
      | none =>
        match group? inner with
        | none => ([], false, cs)
        | some (g, rest) =>
          let (later, dotted, rest) := readGroups room false rest
          (g :: later, dotted, rest)

/-- Read an address off the front of a text: eight groups, or two parts around `::`
of which the first does not end in dotted decimal. -/
def read? (cs : List Char) : Option (Ipv6 × List Char) :=
  let (head, dotted, rest) := readGroups 8 true cs
  if head.length = 8 then (ofGroups? head).map (·, rest)
  else if dotted then none
  else
    match rest with
    | ':' :: ':' :: rest =>
      let (tail, _, rest) := readGroups (7 - head.length) true rest
      let zeros := List.replicate (8 - head.length - tail.length) 0
      (ofGroups? (head ++ zeros ++ tail)).map (·, rest)
    | _ => none

end Ipv6

end EniForwarding.Net
