import EniForwarding.Eni.Basic
import EniForwarding.Proofs.Loading
import EniForwarding.Proofs.Text.Pieces

/-! Lists of endpoints.

The pieces of a list field between its commas are items, unless they are blank. A list is read
item by item, so the values come in the order of the items and as often as they are written,
and one item that is no number of sixty-four bits spoils the whole field. Then nothing can be
declared with it.
-/

set_option autoImplicit false

namespace EniForwarding

namespace Text

/-- The pieces write the values in their order, and all other pieces are blank. -/
inductive Listing {α : Type} (writes : List Char → α → Prop) : List (List Char) → List α → Prop
  | nil : Listing writes [] []
  | blank {piece : List Char} {parts : List (List Char)} {values : List α}
      (blank : ∀ c ∈ piece, isBlank c = true) (rest : Listing writes parts values) :
      Listing writes (piece :: parts) values
  | item {piece : List Char} {parts : List (List Char)} {value : α} {values : List α}
      (written : writes piece value) (rest : Listing writes parts values) :
      Listing writes (piece :: parts) (value :: values)

section listing

variable {α : Type} {writes writes' : List Char → α → Prop} {parts : List (List Char)}
  {values : List α}

theorem Listing.imp (listing : Listing writes parts values)
    (more : ∀ piece value, writes piece value → writes' piece value) :
    Listing writes' parts values := by
  induction listing with
  | nil => exact .nil
  | blank blank _ ih => exact .blank blank ih
  | item written _ ih => exact .item (more _ _ written) ih

theorem exists_listing_iff : (∃ values, Listing writes parts values) ↔
    ∀ piece ∈ parts, (∀ c ∈ piece, isBlank c = true) ∨ ∃ value, writes piece value := by
  induction parts with
  | nil => exact ⟨fun _ => nofun, fun _ => ⟨[], .nil⟩⟩
  | cons piece parts ih =>
    rw [List.forall_mem_cons, ← ih]
    constructor
    · rintro ⟨_, listing⟩
      cases listing with
      | blank blank rest => exact ⟨.inl blank, _, rest⟩
      | item written rest => exact ⟨.inr ⟨_, written⟩, _, rest⟩
    · rintro ⟨blank | ⟨value, written⟩, values, rest⟩
      · exact ⟨values, .blank blank rest⟩
      · exact ⟨value :: values, .item written rest⟩

/-- Where nothing stands in the pieces but what is written for the values and blanks, no
separator stands in them that stands in neither. -/
theorem Listing.plain {sep : Char} (listing : Listing writes parts values)
    (blank : isBlank sep = false) (other : ∀ piece value, writes piece value → sep ∉ piece) :
    ∀ piece ∈ parts, sep ∉ piece := by
  induction listing with
  | nil => exact nofun
  | blank blanks _ ih =>
    refine List.forall_mem_cons.2 ⟨fun member => ?_, ih⟩
    rw [blanks sep member] at blank
    cases blank
  | item written _ ih => exact List.forall_mem_cons.2 ⟨other _ _ written, ih⟩

end listing

end Text

open Text (Listing)

namespace Fields

variable {fields : Fields} {field raw : String}

section lists

variable {α : Type} {values : List α}

theorem mapM_trimmed_eq_some_iff {read : String → Option α} {parts : List (List Char)} :
    (((parts.map Text.trimChars).filter (!·.isEmpty)).map String.ofList).mapM read = some values ↔
      Listing (fun piece value => Text.trimChars piece ≠ [] ∧
        read (.ofList (Text.trimChars piece)) = some value) parts values := by
  rw [Text.mapM_eq_some_iff]
  induction parts generalizing values with
  | nil =>
    constructor
    · rintro ⟨⟩
      exact .nil
    · rintro ⟨⟩
      exact .nil
  | cons piece parts ih =>
    by_cases nothing : Text.trimChars piece = []
    · rw [List.map_cons, List.filter_cons_of_neg (by simp [nothing]), ih]
      constructor
      · exact .blank (Text.trimChars_eq_nil_iff.1 nothing)
      · intro listing
        cases listing with
        | blank _ rest => exact rest
        | item written => exact absurd nothing written.1
    · rw [List.map_cons, List.filter_cons_of_pos (by simpa using nothing), List.map_cons,
        List.forall₂_cons_left_iff]
      simp only [ih]
      constructor
      · rintro ⟨value, values, read, rest, rfl⟩
        exact .item ⟨nothing, read⟩ rest
      · intro listing
        cases listing with
        | blank blank => exact absurd (Text.trimChars_eq_nil_iff.2 blank) nothing
        | item written rest => exact ⟨_, _, written.2, rest, rfl⟩

variable [FromText α]

theorem mapM_items_eq_some_iff : (items raw).mapM (FromText.ofText? : String → Option α) = some values ↔
    Listing (fun piece value => Text.trimChars piece ≠ [] ∧
      FromText.ofText? (.ofList (Text.trimChars piece)) = some value)
      (Text.pieces ',' raw.toList) values :=
  mapM_trimmed_eq_some_iff

theorem parseList?_eq_ok_iff (first : fields.First field raw) :
    fields.parseList? α field = .ok (some values) ↔
      Listing (fun piece value => Text.trimChars piece ≠ [] ∧
        FromText.ofText? (.ofList (Text.trimChars piece)) = some value)
        (Text.pieces ',' raw.toList) values := by
  simp only [← mapM_items_eq_some_iff, parseList?, get?_eq_some_iff.2 first]
  cases (items raw).mapM (FromText.ofText? : String → Option α) <;> simp

/-- A list is read, or refused with the whole text of the field. -/
theorem parseList?_cases (first : fields.First field raw) :
    (∃ values, fields.parseList? α field = .ok (some values)) ∨
      fields.parseList? α field = .error (.invalidField field raw) := by
  simp only [parseList?, get?_eq_some_iff.2 first]
  cases (items raw).mapM (FromText.ofText? : String → Option α) <;> simp

end lists

def Number (piece : List Char) (id : UInt64) : Prop :=
  Text.Numeral 10 (Text.trimChars piece) id.toNat

/-- The numbers are written one by one between commas, each with any blanks around it, and
there may be pieces of nothing but blanks among them. -/
def Lists (raw : String) (ids : List UInt64) : Prop :=
  ∃ parts, raw.toList = [','].intercalate parts ∧
    Listing (fun piece id => Text.Padded (Nat.toDigits 10 id.toNat) (.ofList piece)) parts ids

/-- Every piece between the commas is blank or, trimmed, a number of sixty-four bits. -/
def Legible (raw : String) : Prop :=
  ∀ piece ∈ Text.pieces ',' raw.toList, (∃ c ∈ piece, Text.isBlank c = false) →
    ∃ n < UInt64.size, Text.Numeral 10 (Text.trimChars piece) n

section numbers

variable {piece : List Char} {id : UInt64} {ids : List UInt64}

theorem number_iff : Number piece id ↔ Text.trimChars piece ≠ [] ∧
    FromText.ofText? (.ofList (Text.trimChars piece)) = some id := by
  have read : FromText.ofText? (.ofList (Text.trimChars piece)) = some id ↔ Number piece id := by
    simp only [FromText.ofText?, String.toList_ofList, Text.uint64?_eq_some_iff, Number]
  rw [read, iff_and_self]
  rintro (⟨something, -⟩ | ⟨digits, plus, -⟩)
  · exact something
  · simp [plus]

theorem exists_number_iff :
    (∃ id, Number piece id) ↔ ∃ n < UInt64.size, Text.Numeral 10 (Text.trimChars piece) n := by
  constructor
  · rintro ⟨id, number⟩
    exact ⟨id.toNat, id.toNat_lt, number⟩
  · rintro ⟨n, below, numeral⟩
    refine ⟨.ofNat n, ?_⟩
    rwa [Number, UInt64.toNat_ofNat_of_lt' below]

theorem parseNumbers?_eq_ok_iff (first : fields.First field raw) :
    fields.parseList? UInt64 field = .ok (some ids) ↔
      Listing Number (Text.pieces ',' raw.toList) ids := by
  simp only [parseList?_eq_ok_iff first, ← number_iff]

theorem exists_parseNumbers?_iff (first : fields.First field raw) :
    (∃ ids : List UInt64, fields.parseList? UInt64 field = .ok (some ids)) ↔ Legible raw := by
  simp only [parseNumbers?_eq_ok_iff first, Text.exists_listing_iff, exists_number_iff, Legible]
  refine forall₂_congr fun piece _ => ?_
  rw [or_iff_not_imp_left]
  simp

theorem number_of_padded (padded : Text.Padded (Nat.toDigits 10 id.toNat) (.ofList piece)) :
    Number piece id := by
  have trimmed := padded.trimChars fun _ member => (Text.solid_of_mem_toDigits member).1
  rw [String.toList_ofList] at trimmed
  rw [Number, trimmed]
  exact .inl (Text.spells_toDigits (by decide) (by decide) id.toNat)

theorem comma_not_mem_of_padded
    (padded : Text.Padded (Nat.toDigits 10 id.toNat) (.ofList piece)) : ',' ∉ piece := by
  obtain ⟨before, after, whole, front, back⟩ := padded
  have solid : Text.isBlank ',' = false := rfl
  rw [String.toList_ofList] at whole
  rw [whole, List.mem_append, List.mem_append, not_or, not_or]
  refine ⟨fun member => ?_, fun member => (Text.solid_of_mem_toDigits member).2 rfl, fun member => ?_⟩
  · cases solid.symm.trans (front _ member)
  · cases solid.symm.trans (back _ member)

theorem listing_of_lists (lists : Lists raw ids) :
    Listing Number (Text.pieces ',' raw.toList) ids := by
  obtain ⟨parts, joined, listing⟩ := lists
  have plain : ∀ piece ∈ parts, ',' ∉ piece :=
    listing.plain rfl fun _ _ => comma_not_mem_of_padded
  have numbers := listing.imp fun _ _ => number_of_padded
  rw [joined]
  cases parts with
  | nil =>
    cases listing
    exact .blank nofun .nil
  | cons piece parts => rwa [Text.pieces_intercalate (List.cons_ne_nil _ _) plain]

end numbers

end Fields

namespace Eni

theorem declare_of_refused {fields : Fields} {e : EntryError} (key : EniKey) (ctx : Context)
    (refused : fields.parseList? UInt64 EniAttributes.endpointsField = .error e) :
    declare key fields ctx = .error (.ofEntryError e) := by
  simp only [declare, EniAttributes.ofFields, refused]
  rfl

/-- A list of numbers is read as it was written, in order and with repetitions, whatever blanks
and blank items stand in it. A list is read if all of its items that are not blank are numbers
of sixty-four bits, and refused with its whole text otherwise; then the ENI is not declared. -/
theorem endpoint_lists_exact :
    (∀ (fields : Fields) (field raw : String) (ids : List UInt64), fields.First field raw →
      Fields.Lists raw ids → fields.parseList? UInt64 field = .ok (some ids)) ∧
    (∀ (fields : Fields) (field raw : String), fields.First field raw →
      ((∃ ids : List UInt64, fields.parseList? UInt64 field = .ok (some ids)) ↔
        Fields.Legible raw)) ∧
    (∀ (fields : Fields) (field raw : String), fields.First field raw → ¬Fields.Legible raw →
      fields.parseList? UInt64 field = .error (.invalidField field raw)) ∧
    ∀ (key : EniKey) (fields : Fields) (ctx : Context) (raw : String),
      fields.First EniAttributes.endpointsField raw → ¬Fields.Legible raw →
        declare key fields ctx = .error (.invalidField EniAttributes.endpointsField raw) := by
  have refused : ∀ (fields : Fields) (field raw : String), fields.First field raw →
      ¬Fields.Legible raw → fields.parseList? UInt64 field = .error (.invalidField field raw) :=
    fun fields field raw first illegible => (Fields.parseList?_cases first).resolve_left fun read =>
      illegible ((Fields.exists_parseNumbers?_iff first).1 read)
  refine ⟨fun fields field raw ids first lists => ?_, fun fields field raw first => ?_, refused,
    fun key fields ctx raw first illegible => ?_⟩
  · exact (Fields.parseNumbers?_eq_ok_iff first).2 (Fields.listing_of_lists lists)
  · exact Fields.exists_parseNumbers?_iff first
  · exact declare_of_refused key ctx (refused fields _ raw first illegible)

end Eni

end EniForwarding
