import EniForwarding.Eni.Key
import EniForwarding.Proofs.Net.Mac

/-! Reading back a written ENI key.

A key is cut at its first separator, whatever character that is: it may be one that stands in
MAC addresses. The VNET in front of the cut does not hold the separator, so no other cut of the
text can be meant, and a text has at most one reading. The written form has a colon, and is
read back where a colon is the separator.
-/

set_option autoImplicit false

namespace EniForwarding.EniKey

/-- The text is the name of the VNET, the separator and a text of the MAC address. The name is
not empty, and the separator does not stand in it. -/
structure WrittenIn (separator : Char) (s : String) (k : EniKey) : Prop where
  named : k.vnet ≠ ""
  apart : separator ∉ k.vnet.toList
  joined : ∃ mac : String, s.toList = k.vnet.toList ++ separator :: mac.toList ∧
    Net.Mac.read mac = .ok k.mac

/-- Why a text is no key: there is nowhere to cut it, no name stands before the first
separator, or no MAC address behind it. -/
inductive Spoilt (separator : Char) (s : String) : Prop
  | uncut (nowhere : separator ∉ s.toList)
  | unnamed {rest : List Char} (cut : s.toList = separator :: rest)
  | unaddressed {name : List Char} (mac : String) (cut : s.toList = name ++ separator :: mac.toList)
      (first : separator ∉ name) (bad : ∀ m, Net.Mac.read mac ≠ .ok m)

variable {separator : Char} {s : String} {k : EniKey} {e : Failure}

theorem ofText?_eq_some_iff : ofText? separator s = some k ↔ WrittenIn separator s k := by
  obtain ⟨vnet, mac⟩ := k
  have valid : ∀ {text m}, Net.Mac.ofText? text = some m ↔ Net.Mac.read text = .ok m :=
    Net.Mac.ofText?_eq_some_iff.trans Net.Mac.read_eq_ok_iff.symm
  simp only [ofText?, Option.bind_eq_bind, Option.bind_eq_some_iff, Prod.exists,
    Text.atFirst_eq_some_iff]
  constructor
  · rintro ⟨name, rest, ⟨cut, first⟩, read⟩
    split at read
    next => cases read
    next named =>
      obtain ⟨_, address, same⟩ := Option.bind_eq_some_iff.1 read
      cases same
      exact ⟨by simpa using named, by simpa using first, .ofList rest, by simpa using cut,
        valid.1 address⟩
  · rintro ⟨named, apart, text, joined, address⟩
    refine ⟨vnet.toList, text.toList, ⟨joined, apart⟩, ?_⟩
    rw [if_neg (by simpa using named), String.ofList_toList, valid.2 address, String.ofList_toList]
    rfl

theorem read_eq_ok_iff : read separator s = .ok k ↔ WrittenIn separator s k := by
  rw [← ofText?_eq_some_iff, read]
  cases ofText? separator s <;> simp

theorem exists_writtenIn_or_spoilt (separator : Char) (s : String) :
    (∃ k, WrittenIn separator s k) ∨ Spoilt separator s := by
  cases cut : Text.atFirst separator s.toList with
  | none => exact .inr (.uncut (Text.atFirst_eq_none_iff.1 cut))
  | some parts =>
    obtain ⟨name, rest⟩ := parts
    obtain ⟨whole, first⟩ := Text.atFirst_eq_some_iff.1 cut
    cases name with
    | nil => exact .inr (.unnamed whole)
    | cons c name =>
      cases address : Net.Mac.read (.ofList rest) with
      | error =>
        refine .inr (.unaddressed (.ofList rest) (by simpa using whole) first fun m valid => ?_)
        cases address.symm.trans valid
      | ok mac =>
        exact .inl ⟨⟨.ofList (c :: name), mac⟩, by simp, by simpa using first, .ofList rest,
          by simpa using whole, address⟩

/-- What spoils a text leaves no reading, since there is one cut only. -/
theorem Spoilt.not_writtenIn (spoilt : Spoilt separator s) (k : EniKey) :
    ¬WrittenIn separator s k := by
  rintro ⟨named, apart, text, joined, address⟩
  have cut := Text.atFirst_eq_some_iff.2 ⟨joined, apart⟩
  cases spoilt with
  | uncut nowhere => exact nowhere (by simp [joined])
  | unnamed cut' =>
    have parts := cut.symm.trans (Text.atFirst_eq_some_iff.2 ⟨cut', List.not_mem_nil⟩)
    simp only [Option.some.injEq, Prod.mk.injEq, String.toList_eq_nil_iff] at parts
    exact named parts.1
  | unaddressed mac cut' first bad =>
    have parts := cut.symm.trans (Text.atFirst_eq_some_iff.2 ⟨cut', first⟩)
    simp only [Option.some.injEq, Prod.mk.injEq, String.toList_inj] at parts
    exact bad _ (parts.2 ▸ address)

theorem read_eq_error_iff : read separator s = .error e ↔ e = .invalidKey s ∧ Spoilt separator s := by
  constructor
  · intro failed
    refine ⟨?_, (exists_writtenIn_or_spoilt separator s).resolve_left ?_⟩
    · rw [read] at failed
      split at failed
      · cases failed
      · exact (Except.error.inj failed).symm
    · rintro ⟨k, written⟩
      cases failed.symm.trans (read_eq_ok_iff.2 written)
  · rintro ⟨rfl, spoilt⟩
    rw [read]
    split
    next k read => exact absurd (ofText?_eq_some_iff.1 read) (spoilt.not_writtenIn k)
    next => rfl

theorem toList_render (k : EniKey) :
    k.render.toList = k.vnet.toList ++ ':' :: k.mac.render.toList := by
  simp [render]

theorem writtenIn_render (named : k.vnet ≠ "") (apart : ':' ∉ k.vnet.toList) :
    WrittenIn ':' k.render k :=
  ⟨named, apart, k.mac.render, k.toList_render, k.mac.read_render⟩

/-- MAC addresses and ENI keys are read back from their written forms. A text is read as the
key that it is written of, for any separator, and a key that was read where the separator is a
colon is read again from its written form. A text is refused, as a whole, if it has no
separator, no name before the first one, or no MAC address behind it. -/
theorem keys_round_trip :
    (∀ m : Net.Mac, Net.Mac.read m.render = .ok m) ∧
    (∀ separator s k, read separator s = .ok k ↔ WrittenIn separator s k) ∧
    (∀ s k, read ':' s = .ok k → read ':' k.render = .ok k) ∧
    (∀ k : EniKey, k.vnet ≠ "" → ':' ∉ k.vnet.toList → read ':' k.render = .ok k) ∧
    ∀ separator s e, read separator s = .error e ↔ e = .invalidKey s ∧ Spoilt separator s := by
  have again : ∀ k : EniKey, k.vnet ≠ "" → ':' ∉ k.vnet.toList → read ':' k.render = .ok k :=
    fun k named apart => read_eq_ok_iff.2 (writtenIn_render named apart)
  refine ⟨Net.Mac.read_render, fun _ _ _ => read_eq_ok_iff, fun s k accepted => ?_, again,
    fun _ _ _ => read_eq_error_iff⟩
  have written := read_eq_ok_iff.1 accepted
  exact again k written.named written.apart

end EniForwarding.EniKey
