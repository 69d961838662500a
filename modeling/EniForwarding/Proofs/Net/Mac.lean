import EniForwarding.Net.Mac
import EniForwarding.Proofs.Text.Numeral
import EniForwarding.Proofs.Text.Pieces

/-! Which texts are MAC addresses.

The written form is six pairs of hexadecimal digits in either case, between colons
throughout or between hyphens throughout. The reader takes all of these. It takes one
form more, because the number in a part may have a sign: a `+` in place of the first
digit of a pair. Nothing else is read, so without a `+` in the text the reader takes the
written form and nothing beside it.
-/

set_option autoImplicit false

namespace EniForwarding.Net

namespace Mac

/-- Two hexadecimal digits, the first of which counts sixteen. -/
def Pair (part : List Char) (b : UInt8) : Prop :=
  ∃ c d high low, part = [c, d] ∧ Text.Digit 16 c high ∧ Text.Digit 16 d low ∧
    b.toNat = 16 * high + low

def Signed (part : List Char) (b : UInt8) : Prop :=
  ∃ d, part = ['+', d] ∧ Text.Digit 16 d b.toNat

/-- What stands for a byte to the reader. -/
def Octet (part : List Char) (b : UInt8) : Prop := Pair part b ∨ Signed part b

/-- Six groups that stand for the bytes, between colons or between hyphens. -/
def SixGroups (group : List Char → UInt8 → Prop) (s : String) (m : Mac) : Prop :=
  ∃ sep groups, (sep = ':' ∨ sep = '-') ∧ s.toList = [sep].intercalate groups ∧
    List.Forall₂ group groups m.bytes

section groups

variable {part : List Char} {b : UInt8} {s : String} {m : Mac}

theorem octet?_eq_some_iff : octet? part = some b ↔ Octet part b := by
  rw [octet?]
  split
  next two =>
    obtain ⟨c, d, rfl⟩ := List.length_eq_two.1 two
    rw [Text.unsigned?_uint8_iff (by decide), Text.Numeral, Text.spells_pair_iff, Octet]
    constructor
    · rintro (⟨high, low, one, two, value⟩ | ⟨digits, plus, spelled⟩)
      · exact .inl ⟨c, d, high, low, rfl, one, two, value⟩
      · cases plus
        exact .inr ⟨d, rfl, Text.spells_singleton_iff.1 spelled⟩
    · rintro (⟨_, _, high, low, same, one, two, value⟩ | ⟨_, same, digit⟩)
      · cases same
        exact .inl ⟨high, low, one, two, value⟩
      · cases same
        exact .inr ⟨[d], rfl, Text.spells_singleton_iff.2 digit⟩
  next other =>
    simp only [reduceCtorEq, false_iff]
    rintro (⟨c, d, high, low, rfl, -⟩ | ⟨d, rfl, -⟩) <;> exact other rfl

theorem ofBytes?_eq_some_iff {bytes : List UInt8} : ofBytes? bytes = some m ↔ bytes = m.bytes := by
  constructor
  · intro made
    unfold ofBytes? at made
    split at made
    · cases made
      rfl
    · cases made
  · rintro rfl
    rfl

theorem Pair.digits (pair : Pair part b) {c : Char} (member : c ∈ part) :
    (Text.digit? 16 c).isSome := by
  obtain ⟨c', d', high, low, rfl, one, two, -⟩ := pair
  rw [← Text.digit?_eq_some_iff (by decide)] at one two
  simp only [List.mem_cons, List.not_mem_nil, or_false] at member
  rcases member with rfl | rfl
  · exact Option.isSome_of_eq_some one
  · exact Option.isSome_of_eq_some two

theorem Octet.plain (octet : Octet part b) : ':' ∉ part ∧ '-' ∉ part := by
  rcases octet with pair | ⟨d, rfl, digit⟩
  · exact ⟨fun member => absurd (pair.digits member) (by decide),
      fun member => absurd (pair.digits member) (by decide)⟩
  · rw [← Text.digit?_eq_some_iff (by decide)] at digit
    constructor <;> rintro (_ | ⟨_, _ | ⟨_, ⟨⟩⟩⟩) <;> cases digit

theorem separator_intercalate {sep : Char} {groups : List (List Char)} (either : sep = ':' ∨ sep = '-')
    (six : groups.length = 6) (plain : ∀ group ∈ groups, ':' ∉ group) :
    separator ([sep].intercalate groups) = sep := by
  rcases either with rfl | rfl
  · exact if_pos (Text.mem_intercalate_iff.2 (.inl ⟨rfl, by omega⟩))
  · refine if_neg fun member => ?_
    rcases Text.mem_intercalate_iff.1 member with ⟨same, -⟩ | ⟨group, among, inside⟩
    · exact absurd same (by decide)
    · exact plain group among inside

theorem ofText?_eq_some_iff : ofText? s = some m ↔ SixGroups Octet s m := by
  have bytewise : ofText? s = some m ↔
      List.Forall₂ Octet (Text.pieces (separator s.toList) s.toList) m.bytes := by
    simp [ofText?, Option.bind_eq_some_iff, ofBytes?_eq_some_iff, Text.mapM_eq_some_iff,
      octet?_eq_some_iff]
  rw [bytewise]
  constructor
  · intro read
    refine ⟨separator s.toList, _, ?_, (Text.intercalate_pieces _ _).symm, read⟩
    unfold separator
    split
    · exact .inl rfl
    · exact .inr rfl
  · rintro ⟨sep, groups, either, text, read⟩
    have six : groups.length = 6 := read.length_eq
    obtain ⟨plain, -⟩ :=
      (List.forall₂_and_left _ _).1 (read.imp fun _ _ octet => ⟨octet.plain, octet⟩)
    have apart : ∀ group ∈ groups, sep ∉ group := by
      intro group among
      rcases either with rfl | rfl
      · exact (plain group among).1
      · exact (plain group among).2
    rw [text, separator_intercalate either six fun group among => (plain group among).1,
      Text.pieces_intercalate (List.ne_nil_of_length_pos (by omega)) apart]
    exact read

theorem read_eq_ok_iff : read s = .ok m ↔ SixGroups Octet s m := by
  rw [← ofText?_eq_some_iff, read]
  cases ofText? s <;> simp

theorem read_eq_error_iff : read s = .error (.mac s) ↔ ∀ m, ¬SixGroups Octet s m := by
  simp only [← ofText?_eq_some_iff, read]
  cases ofText? s <;> simp

theorem pairs_iff : SixGroups Pair s m ↔ SixGroups Octet s m ∧ '+' ∉ s.toList := by
  constructor
  · rintro ⟨sep, groups, either, text, pairs⟩
    refine ⟨⟨sep, groups, either, text, pairs.imp fun _ _ => .inl⟩, fun member => ?_⟩
    obtain ⟨digits, -⟩ := (List.forall₂_and_left _ _).1
      (pairs.imp fun _ _ pair => ⟨fun c => pair.digits (c := c), pair⟩)
    rw [text, Text.mem_intercalate_iff] at member
    rcases member with ⟨same, -⟩ | ⟨group, among, inside⟩
    · rcases either with rfl | rfl <;> exact absurd same (by decide)
    · exact absurd (digits group among '+' inside) (by decide)
  · rintro ⟨⟨sep, groups, either, text, octets⟩, unsigned⟩
    refine ⟨sep, groups, either, text, ?_⟩
    rw [text, Text.mem_intercalate_iff, not_or] at unsigned
    have plain : ∀ group ∈ groups, '+' ∉ group :=
      fun group among inside => unsigned.2 ⟨group, among, inside⟩
    have both := (List.forall₂_and_left _ _).2 ⟨plain, octets⟩
    refine both.imp ?_
    rintro part b ⟨plain, pair | ⟨d, rfl, -⟩⟩
    · exact pair
    · exact absurd List.mem_cons_self plain

theorem pair_hexPair (b : UInt8) : Pair (Text.hexPair b) b := by
  have below := b.toNat_lt
  refine ⟨_, _, b.toNat / 16, b.toNat % 16, rfl, ⟨by omega, .inl rfl⟩, ⟨by omega, .inl rfl⟩, ?_⟩
  omega

theorem sixGroups_render (m : Mac) : SixGroups Pair m.render m := by
  refine ⟨':', m.bytes.map Text.hexPair, .inl rfl, by simp [render], ?_⟩
  rw [List.forall₂_map_left_iff]
  exact List.forall₂_same.2 fun b _ => pair_hexPair b

theorem read_render (m : Mac) : read m.render = .ok m :=
  read_eq_ok_iff.2 (pairs_iff.1 m.sixGroups_render).1

end groups

/-- The reader takes six groups between colons or between hyphens and refuses every other
text with the whole text. Six pairs of digits are what it takes where no sign stands. -/
theorem read_grammar (s : String) :
    (∀ m, read s = .ok m ↔ SixGroups Octet s m) ∧
    (∀ m, SixGroups Pair s m ↔ read s = .ok m ∧ '+' ∉ s.toList) ∧
    (read s = .error (.mac s) ↔ ∀ m, ¬SixGroups Octet s m) := by
  refine ⟨fun m => read_eq_ok_iff, fun m => ?_, read_eq_error_iff⟩
  rw [pairs_iff, read_eq_ok_iff]

/-- A sign in a group is read over, though the text is not six pairs of digits. -/
theorem read_sign : read "+0:11:22:33:44:55" = .ok ⟨0, 0x11, 0x22, 0x33, 0x44, 0x55⟩ ∧
    ∀ m, ¬SixGroups Pair "+0:11:22:33:44:55" m := by
  refine ⟨by decide +kernel, fun m pairs => ?_⟩
  exact (pairs_iff.1 pairs).2 (by decide)

end Mac

end EniForwarding.Net
