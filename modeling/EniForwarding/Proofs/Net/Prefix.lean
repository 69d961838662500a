import EniForwarding.Net.Prefix
import EniForwarding.Proofs.Net.Address
import EniForwarding.Proofs.Text.Numeral

/-! Reading back a written address range.

A range is written as its address, a slash and its length. No slash stands in a written
address, so the cut is found again, and what is read is the address with its host bits and
the length. A range that is longer than the family is wide is refused wherever it is made,
so every range that there is can be written and read.
-/

set_option autoImplicit false

namespace EniForwarding.Net

namespace Prefix

variable {p : Prefix} {address : Address} {length : Nat}

theorem ofLength?_eq_some_iff : ofLength? address length = some p ↔
    length ≤ address.width ∧ p.address = address ∧ p.length = length := by
  rw [ofLength?]
  split
  next fits =>
    rw [Option.some.injEq]
    constructor
    · rintro rfl
      exact ⟨fits, rfl, rfl⟩
    · rintro ⟨-, rfl, rfl⟩
      rfl
  next beyond => simp [beyond]

theorem make_eq_ok_iff : make address length = .ok p ↔
    length ≤ address.width ∧ p.address = address ∧ p.length = length := by
  rw [← ofLength?_eq_some_iff, make]
  cases ofLength? address length <;> simp

theorem slash_not_mem_render (ip : Address) : '/' ∉ ip.render.toList := by
  intro member
  rcases Address.mem_render member with colon | dot | digit
  · exact absurd colon (by decide)
  · exact absurd dot (by decide)
  · exact absurd digit (by decide)

theorem toList_renderPair : (renderPair address length).toList =
    address.render.toList ++ '/' :: Nat.toDigits 10 length := by
  simp [renderPair, Text.renderRadix]

theorem isBlank_of_mem_pair {c : Char} (member : c ∈ (renderPair address length).toList) :
    Text.isBlank c = false := by
  rw [toList_renderPair, List.mem_append, List.mem_cons] at member
  rcases member with inAddress | rfl | inLength
  · exact Address.isBlank_of_mem_render inAddress
  · rfl
  · have digit : c.isDigit = true := Nat.isDigit_of_mem_toDigits (by decide) (by decide) inLength
    exact Text.isBlank_of_digit (Text.isSome_digit?_of_isDigit digit)

theorem ofText?_pair {s : String} (padded : Text.Padded (renderPair address length).toList s) :
    ofText? s = ofLength? address length := by
  have cut : Text.atFirst '/' (address.render.toList ++ '/' :: Nat.toDigits 10 length) =
      some (address.render.toList, Nat.toDigits 10 length) :=
    Text.atFirst_eq_some_iff.2 ⟨rfl, slash_not_mem_render address⟩
  have solid : Text.trimChars address.render.toList = address.render.toList :=
    Text.trimChars_of_solid fun _ => Address.isBlank_of_mem_render
  have number : Text.unsigned? 10 UInt8.size (Nat.toDigits 10 length) =
      if length < UInt8.size then some length else none :=
    Text.unsigned?_toDigits _ (by decide) (by decide) length
  rw [ofText?, padded.trimChars fun _ => isBlank_of_mem_pair, toList_renderPair, cut]
  simp only [solid, Address.ofChars?_render, Option.bind_eq_bind, Option.bind_some, Text.uint8?,
    number]
  split
  next small => rw [Option.map_some, Option.bind_some, UInt8.toNat_ofNat_of_lt' small]
  next large =>
    -- a length that is no byte is wider than any family
    have beyond : ¬length ≤ address.width := by
      cases address <;> simp only [Address.width, UInt8.size] at large ⊢ <;> omega
    simp [ofLength?, beyond]

theorem ofText?_padded {s : String} (padded : Text.Padded p.render.toList s) : ofText? s = some p := by
  rw [ofText?_pair padded]
  exact ofLength?_eq_some_iff.2 ⟨p.length_le, rfl, rfl⟩

theorem render_injective : Function.Injective render := by
  intro first second same
  have read := ofText?_padded (Text.padded_self first.render)
  rw [same, ofText?_padded (Text.padded_self second.render)] at read
  exact (Option.some.inj read).symm

/-- An address and a length are read as they are made into a range, or refused as they are. -/
theorem read_pair (address : Address) (length : Nat) :
    read (renderPair address length) = make address length := by
  rw [read, make, ofText?_pair (Text.padded_self _)]

end Prefix

/-- Where what is written is read back, writing what was read gives a text that is kept. -/
theorem written_again {α : Type} {read : String → Except Malformed α} {render : α → String}
    (back : ∀ a, read (render a) = .ok a) (s t : String) (written : (read s).map render = .ok t) :
    (read t).map render = .ok t := by
  cases here : read s with
  | error e =>
    rw [here] at written
    cases written
  | ok a =>
    rw [here] at written
    cases written
    rw [back a]
    rfl

/-- What is written of an address or of a range is read back as what it was written of, with
any blanks around it. So no two are written alike, and what is written of what was read is
written so again when it is read. No range is longer than its family is wide, whether it is
made or read. -/
theorem texts_round_trip :
    (∀ (ip : Address) (s : String), Text.Padded ip.render.toList s → Address.read s = .ok ip) ∧
    (∀ (p : Prefix) (s : String), Text.Padded p.render.toList s → Prefix.read s = .ok p) ∧
    (∀ address length p, Prefix.make address length = .ok p ↔
      length ≤ address.width ∧ p.address = address ∧ p.length = length) ∧
    (∀ address length,
      Prefix.read (Prefix.renderPair address length) = Prefix.make address length) ∧
    (∀ p : Prefix, p.length ≤ p.address.width) ∧
    Function.Injective Address.render ∧ Function.Injective Prefix.render ∧
    (∀ s t, (Address.read s).map Address.render = .ok t →
      (Address.read t).map Address.render = .ok t) ∧
    ∀ s t, (Prefix.read s).map Prefix.render = .ok t → (Prefix.read t).map Prefix.render = .ok t := by
  have addresses : ∀ (ip : Address) s, Text.Padded ip.render.toList s → Address.read s = .ok ip :=
    fun ip s padded => by rw [Address.read, Address.ofText?_padded padded]
  have ranges : ∀ (p : Prefix) s, Text.Padded p.render.toList s → Prefix.read s = .ok p :=
    fun p s padded => by rw [Prefix.read, Prefix.ofText?_padded padded]
  exact ⟨addresses, ranges, fun _ _ _ => Prefix.make_eq_ok_iff, Prefix.read_pair,
    Prefix.length_le, Address.render_injective, Prefix.render_injective,
    written_again fun ip => addresses ip _ (Text.padded_self _),
    written_again fun p => ranges p _ (Text.padded_self _)⟩

end EniForwarding.Net
