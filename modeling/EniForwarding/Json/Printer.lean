import EniForwarding.Json.Basic
import EniForwarding.Text.Integer

/-! The written form of JSON values.

A layout says what stands before an item and after a member's name. The compact
layout adds nothing; the pretty layout puts each item on a line of its own, two
spaces deeper than its container. Strings are written as they are, except that
quotes, backslashes and control characters are escaped. An exponent has its sign.
-/

set_option autoImplicit false

namespace EniForwarding.Json

/-- The blanks of a written value, by depth. -/
structure Layout where
  lineBreak : Nat → List Char
  afterName : List Char

def Layout.compact : Layout := ⟨fun _ => [], [':']⟩

def Layout.pretty : Layout := ⟨fun depth => '\n' :: List.replicate (2 * depth) ' ', [':', ' ']⟩

def escapeChar (c : Char) : List Char :=
  match c with
  | '"' => ['\\', '"']
  | '\\' => ['\\', '\\']
  | '\x08' => ['\\', 'b']
  | '\x0c' => ['\\', 'f']
  | '\n' => ['\\', 'n']
  | '\r' => ['\\', 'r']
  | '\t' => ['\\', 't']
  | c => if c.toNat < 0x20 then "\\u00".toList ++ Text.hexPair c.toNat.toUInt8 else [c]

def writeString (s : String) : List Char := ['"'] ++ s.toList.flatMap escapeChar ++ ['"']

def writeFraction : List (Fin 10) → List Char
  | [] => []
  | digits => '.' :: digits.map fun d => Nat.digitChar d.val

def writeExponent : Option Int → List Char
  | none => []
  | some (.ofNat e) => 'e' :: '+' :: Nat.toDigits 10 e
  | some (.negSucc e) => 'e' :: '-' :: Nat.toDigits 10 (e + 1)

def writeNumeral (n : Numeral) : List Char :=
  (if n.negative then ['-'] else []) ++ Nat.toDigits 10 n.whole ++
    writeFraction n.fraction ++ writeExponent n.exponent

mutual

/-- The text of a value that stands at a depth. -/
def write (layout : Layout) (depth : Nat) : Json → List Char
  | .null | .unreadable => ['n', 'u', 'l', 'l']
  | .bool true => ['t', 'r', 'u', 'e']
  | .bool false => ['f', 'a', 'l', 's', 'e']
  | .number n => writeNumeral n
  | .string s => writeString s
  | .array [] => ['[', ']']
  | .array items =>
    ['['] ++ (writeItems layout (depth + 1) items).drop 1 ++ layout.lineBreak depth ++ [']']
  | .object [] => ['\x7b', '\x7d']
  | .object members =>
    ['\x7b'] ++ (writeMembers layout (depth + 1) members).drop 1 ++ layout.lineBreak depth ++
      ['\x7d']

def writeItems (layout : Layout) (depth : Nat) : List Json → List Char
  | [] => []
  | item :: rest =>
    [','] ++ layout.lineBreak depth ++ write layout depth item ++ writeItems layout depth rest

def writeMembers (layout : Layout) (depth : Nat) : List (String × Json) → List Char
  | [] => []
  | member :: rest =>
    [','] ++ layout.lineBreak depth ++ writeMember layout depth member ++
      writeMembers layout depth rest

def writeMember (layout : Layout) (depth : Nat) : String × Json → List Char
  | (name, value) => writeString name ++ layout.afterName ++ write layout depth value

end

def compact (j : Json) : String := .ofList (write .compact 0 j)

def pretty (j : Json) : String := .ofList (write .pretty 0 j)

end EniForwarding.Json
