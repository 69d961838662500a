/-! Case folding for keyword lookups.

A keyword is an ASCII word that is recognised in either case. Folding follows the
full Unicode case mappings as far as they reach ASCII letters: the Kelvin sign
lower-cases to `k`; dotless i, long s, sharp s and the Latin ligatures upper-case
to ASCII letters. A character whose mapping is not wholly ASCII is left alone,
which no keyword can tell from the full mapping.
-/

set_option autoImplicit false

namespace EniForwarding.Text

/-- The lower-case form of a character, exact wherever it is ASCII. -/
def lowerChar (c : Char) : Char := if c = '\u212a' then 'k' else c.toLower

def lower (s : String) : List Char := s.toList.map lowerChar

def upperChar (c : Char) : List Char :=
  match c with
  | 'ı' => ['I']
  | 'ſ' => ['S']
  | 'ß' => ['S', 'S']
  | 'ﬀ' => ['F', 'F']
  | 'ﬁ' => ['F', 'I']
  | 'ﬂ' => ['F', 'L']
  | 'ﬃ' => ['F', 'F', 'I']
  | 'ﬄ' => ['F', 'F', 'L']
  | 'ﬅ' => ['S', 'T']
  | 'ﬆ' => ['S', 'T']
  | c => [c.toUpper]

def upper (s : String) : List Char := s.toList.flatMap upperChar

end EniForwarding.Text
