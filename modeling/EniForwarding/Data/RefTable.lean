import EniForwarding.Data.SortedMap

/-! Tables whose values count their references.

A counted value says how to read its count, how to take one more reference and how
to give one back. The table passes both on to the value under a key, and reports
a key that is not there and a reference that was never taken.
-/

set_option autoImplicit false

namespace EniForwarding

class Counted (α : Type) where
  refs : α → UInt32
  /-- One more reference; a full count stays full. -/
  take : α → α
  /-- One reference less, unless there is none. -/
  release? : α → Option α

namespace Counted

def up (n : UInt32) : UInt32 := if n = 0xffffffff then n else n + 1

def down? (n : UInt32) : Option UInt32 := if n = 0 then none else some (n - 1)

instance : Counted UInt32 := ⟨id, up, down?⟩

end Counted

inductive RefError where
  | keyNotFound
  | underflow
  deriving DecidableEq, Repr

def RefError.message : RefError → String
  | .keyNotFound => "Key not found"
  | .underflow => "Reference count underflow"

namespace SortedMap

variable {κ α : Type} [Ord κ]

def refs? [Counted α] (m : SortedMap κ α) (k : κ) : Option UInt32 := (m.get? k).map Counted.refs

variable [Std.TransOrd κ]

def takeRef [Counted α] (m : SortedMap κ α) (k : κ) : Except RefError (UInt32 × SortedMap κ α) :=
  match m.get? k with
  | none => .error .keyNotFound
  | some v => .ok (Counted.refs (Counted.take v), m.insert k (Counted.take v))

def releaseRef [Counted α] (m : SortedMap κ α) (k : κ) :
    Except RefError (UInt32 × SortedMap κ α) :=
  match m.get? k with
  | none => .error .keyNotFound
  | some v =>
    match Counted.release? v with
    | none => .error .underflow
    | some v => .ok (Counted.refs v, m.insert k v)

end SortedMap

end EniForwarding
