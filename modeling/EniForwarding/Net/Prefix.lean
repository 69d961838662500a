import EniForwarding.Net.Address
import EniForwarding.Text.Split

/-! Address ranges written as an address and a length.

The length is at most the width of the family. Host bits are kept, so the range
remembers the address it was written with; a bare address is the range of one
host.
-/

set_option autoImplicit false

namespace EniForwarding.Net

structure Prefix where
  address : Address
  length : Nat
  length_le : length ≤ address.width
  deriving DecidableEq, Repr

namespace Prefix

def ofLength? (address : Address) (length : Nat) : Option Prefix :=
  if h : length ≤ address.width then some ⟨address, length, h⟩ else none

def renderPair (address : Address) (length : Nat) : String :=
  address.render ++ "/" ++ Text.renderRadix 10 length

/-- The range of an address and a length, unless the length exceeds the family's width. -/
def make (address : Address) (length : Nat) : Except Malformed Prefix :=
  match ofLength? address length with
  | some p => .ok p
  | none => .error (.range (renderPair address length))

def host (address : Address) : Prefix := ⟨address, address.width, Nat.le_refl _⟩

def isHost (p : Prefix) : Bool := p.length == p.address.width

def render (p : Prefix) : String := renderPair p.address p.length

def ofText? (s : String) : Option Prefix :=
  match Text.atFirst '/' (Text.trimChars s.toList) with
  | some (address, length) => do
    let address ← Address.ofChars? (Text.trimChars address)
    let length ← Text.uint8? length
    ofLength? address length.toNat
  | none => (Address.ofText? s).map host

def read (s : String) : Except Malformed Prefix :=
  match ofText? s with
  | some p => .ok p
  | none => .error (.range s)

end Prefix

end EniForwarding.Net
