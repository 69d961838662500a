import EniForwarding.Text.Hidden
import EniForwarding.Text.Integer

/-! Quoted text for listings.

A listing shows a text between double quotes. A quote or backslash in it follows a
backslash, the common controls have letters, and every other hidden character is
shown by its code point, so one line of a listing is one line on the screen.
-/

set_option autoImplicit false

namespace EniForwarding.Text

def quotedChar (c : Char) : List Char :=
  match c with
  | '"' => ['\\', '"']
  | '\\' => ['\\', '\\']
  | '\n' => ['\\', 'n']
  | '\r' => ['\\', 'r']
  | '\t' => ['\\', 't']
  | '\x00' => ['\\', '0']
  | c =>
    if isHidden c then "\\u\x7b".toList ++ Nat.toDigits 16 c.toNat ++ ['\x7d'] else [c]

def quoted (s : String) : String := .ofList (['"'] ++ s.toList.flatMap quotedChar ++ ['"'])

def quotedPair (pair : String × String) : String :=
  "(" ++ quoted pair.1 ++ ", " ++ quoted pair.2 ++ ")"

/-- A list of pairs, in its own order. -/
def quotedPairs (pairs : List (String × String)) : String :=
  "[" ++ ", ".intercalate (pairs.map quotedPair) ++ "]"

end EniForwarding.Text
