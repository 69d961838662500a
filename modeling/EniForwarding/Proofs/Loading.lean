import Mathlib.Data.List.Induction
import EniForwarding.Dpu
import EniForwarding.Proofs.Data.SortedMap
import EniForwarding.Proofs.Net.Address
import EniForwarding.Proofs.Text.Numeral

/-! What the DPU table is loaded as.

A row describes a DPU if its key is a number, none of its address fields is spoilt, and it
gives a PA; the description is unique. Rows are taken in one by one, call after call, and
the registry holds for each id what the last of the rows of that id describes. A row that
describes nothing might as well not be there.
-/

set_option autoImplicit false

namespace EniForwarding

namespace Fields

variable {fields : Fields} {field value : String}

/-- The field occurs, and its first occurrence has the value. -/
def First (fields : Fields) (field value : String) : Prop :=
  ∃ before after, fields = before ++ (field, value) :: after ∧ ∀ fv ∈ before, fv.1 ≠ field

theorem get?_eq_some_iff : fields.get? field = some value ↔ fields.First field value := by
  rw [get?, Option.map_eq_some_iff, First]
  constructor
  · rintro ⟨⟨name, _⟩, found, rfl⟩
    obtain ⟨same, before, after, whole, others⟩ := List.find?_eq_some_iff_append.1 found
    obtain rfl : name = field := by simpa using same
    exact ⟨before, after, whole, fun fv among => by simpa using others fv among⟩
  · rintro ⟨before, after, whole, others⟩
    refine ⟨(field, value), List.find?_eq_some_iff_append.2 ⟨by simp, before, after, whole, ?_⟩, rfl⟩
    exact fun fv among => by simpa using others fv among

theorem get?_eq_none_iff : fields.get? field = none ↔ ∀ fv ∈ fields, fv.1 ≠ field := by
  simp [get?]

end Fields

namespace Dpu

/-- What an address field holds: nothing if it is absent or empty, else the address that
is written in it. -/
inductive Holds (row : Fields) (field : String) : Option Net.Address → Prop
  | absent (nowhere : ∀ fv ∈ row, fv.1 ≠ field) : Holds row field none
  | empty (first : row.First field "") : Holds row field none
  | given {value : String} {address : Net.Address} (first : row.First field value)
      (valid : Net.Address.ofText? value = some address) : Holds row field (some address)

def addressFields : List String := [paV4Field, paV6Field, npuV4Field, npuV6Field]

/-- The key of a row, trimmed, is the id in decimal, in any of its spellings. -/
def Names (row : String × Fields) (id : UInt64) : Prop :=
  Text.Numeral 10 (Text.trimChars row.1.toList) id.toNat

/-- The row describes the DPU, member by member. -/
structure Describes (row : String × Fields) (d : Dpu) : Prop where
  id : Names row d.id
  placement : d.placement = .onSwitch ↔ row.2.First typeField Placement.onSwitch.name
  state : ∀ value, d.state = some value ↔ row.2.First stateField value
  paV4 : Holds row.2 paV4Field d.paV4
  paV6 : Holds row.2 paV6Field d.paV6
  npuV4 : Holds row.2 npuV4Field d.npuV4
  npuV6 : Holds row.2 npuV6Field d.npuV6
  pa : d.pa.isSome = true

/-- The row can be used: its key is a number, each of its address fields is absent, empty
or an address, and a PA field is there and not empty. -/
structure WellFormed (row : String × Fields) : Prop where
  key : ∃ id, Names row id
  addresses : ∀ field ∈ addressFields, ∃ address, Holds row.2 field address
  pa : ∃ field ∈ [paV4Field, paV6Field], ∃ value, row.2.First field value ∧ value ≠ ""

section rows

variable {row : String × Fields} {fields : Fields} {field : String} {d : Dpu}
  {address : Option Net.Address}

theorem Holds.read (held : Holds fields field address) : address? fields field = some address := by
  cases held with
  | absent nowhere => simp [address?, Fields.get?_eq_none_iff.2 nowhere, Fields.parse?]
  | empty first => simp [address?, Fields.get?_eq_some_iff.2 first]
  | given first valid =>
    simp [address?, Fields.get?_eq_some_iff.2 first, Net.Address.ne_empty_of_ofText? valid,
      Fields.parse?, FromText.ofText?, Net.Address.ofText?_trim, valid]

theorem address?_eq_some_iff : address? fields field = some address ↔ Holds fields field address := by
  refine ⟨fun read => ?_, Holds.read⟩
  cases there : fields.get? field with
  | none =>
    obtain rfl : none = address := by simpa [address?, there, Fields.parse?] using read
    exact .absent (Fields.get?_eq_none_iff.1 there)
  | some value =>
    have first := Fields.get?_eq_some_iff.1 there
    by_cases empty : value = ""
    · subst empty
      obtain rfl : none = address := by simpa [address?, there] using read
      exact .empty first
    · cases valid : Net.Address.ofText? value with
      | none =>
        simp [address?, there, empty, Fields.parse?, FromText.ofText?, Net.Address.ofText?_trim,
          valid] at read
      | some ip =>
        obtain rfl : some ip = address := by
          simpa [address?, there, empty, Fields.parse?, FromText.ofText?,
            Net.Address.ofText?_trim, valid] using read
        exact .given first valid

theorem ofConfig_eq_iff {placement : Placement} :
    .ofConfig (fields.get? typeField) = placement ↔
      (placement = .onSwitch ↔ fields.First typeField Placement.onSwitch.name) := by
  rw [← Fields.get?_eq_some_iff, Placement.ofConfig, Placement.name]
  split
  next local_ => cases placement <;> simp [local_]
  next other => cases placement <;> simp [other]

theorem ofRow?_eq_some_iff : ofRow? row.1 row.2 = some d ↔ Describes row d := by
  obtain ⟨id, placement, state, paV4, paV6, npuV4, npuV6⟩ := d
  have states : row.2.get? stateField = state ↔
      ∀ value, state = some value ↔ row.2.First stateField value := by
    simp only [← Fields.get?_eq_some_iff]
    exact ⟨fun same value => by rw [same], fun same => Option.ext fun value => (same value).symm⟩
  simp only [ofRow?, Option.bind_eq_bind, Option.bind_eq_some_iff, Text.uint64?_eq_some_iff,
    address?_eq_some_iff]
  constructor
  · rintro ⟨id', named, paV4', held₁, paV6', held₂, npuV4', held₃, npuV6', held₄, made⟩
    split at made
    next pa =>
      cases made
      exact ⟨named, ofConfig_eq_iff.1 rfl, states.1 rfl, held₁, held₂, held₃, held₄, pa⟩
    next => cases made
  · rintro ⟨named, placed, stated, held₁, held₂, held₃, held₄, pa⟩
    refine ⟨id, named, paV4, held₁, paV6, held₂, npuV4, held₃, npuV6, held₄, ?_⟩
    rw [ofConfig_eq_iff.2 placed, states.2 stated, if_pos pa]

theorem Holds.isSome_iff (held : Holds fields field address) :
    address.isSome = true ↔ ∃ value, fields.First field value ∧ value ≠ "" := by
  simp only [← Fields.get?_eq_some_iff]
  cases held with
  | absent nowhere => simp [Fields.get?_eq_none_iff.2 nowhere]
  | empty first => simp [Fields.get?_eq_some_iff.2 first]
  | given first valid =>
    simp [Fields.get?_eq_some_iff.2 first, Net.Address.ne_empty_of_ofText? valid]

theorem pa_isSome_iff (held₁ : Holds row.2 paV4Field d.paV4) (held₂ : Holds row.2 paV6Field d.paV6) :
    d.pa.isSome = true ↔
      ∃ field ∈ [paV4Field, paV6Field], ∃ value, row.2.First field value ∧ value ≠ "" := by
  simp [pa, Option.isSome_or, held₁.isSome_iff, held₂.isSome_iff]

theorem wellFormed_iff : WellFormed row ↔ ∃ d, Describes row d := by
  constructor
  · rintro ⟨⟨id, named⟩, addresses, pa⟩
    obtain ⟨paV4, held₁⟩ := addresses paV4Field (by decide)
    obtain ⟨paV6, held₂⟩ := addresses paV6Field (by decide)
    obtain ⟨npuV4, held₃⟩ := addresses npuV4Field (by decide)
    obtain ⟨npuV6, held₄⟩ := addresses npuV6Field (by decide)
    let d : Dpu := ⟨id, .ofConfig (row.2.get? typeField), row.2.get? stateField,
      paV4, paV6, npuV4, npuV6⟩
    exact ⟨d, named, ofConfig_eq_iff.1 rfl, fun _ => Fields.get?_eq_some_iff, held₁, held₂, held₃,
      held₄, (pa_isSome_iff held₁ held₂).2 pa⟩
  · rintro ⟨d, describes⟩
    refine ⟨⟨d.id, describes.id⟩, ?_, (pa_isSome_iff describes.paV4 describes.paV6).1 describes.pa⟩
    intro field among
    simp only [addressFields, List.mem_cons, List.not_mem_nil, or_false] at among
    rcases among with rfl | rfl | rfl | rfl
    · exact ⟨_, describes.paV4⟩
    · exact ⟨_, describes.paV6⟩
    · exact ⟨_, describes.npuV4⟩
    · exact ⟨_, describes.npuV6⟩

theorem Describes.unique {d' : Dpu} (first : Describes row d) (second : Describes row d') : d = d' := by
  rw [← ofRow?_eq_some_iff] at first second
  exact Option.some.inj (first.symm.trans second)

theorem Names.unique {id id' : UInt64} (first : Names row id) (second : Names row id') : id = id' := by
  rw [Names, ← Text.uint64?_eq_some_iff] at first second
  exact Option.some.inj (first.symm.trans second)

theorem exists_describes_iff {id : UInt64} :
    (∃ d, Describes row d ∧ d.id = id) ↔ WellFormed row ∧ Names row id := by
  rw [wellFormed_iff]
  constructor
  · rintro ⟨d, describes, rfl⟩
    exact ⟨⟨d, describes⟩, describes.id⟩
  · rintro ⟨⟨d, describes⟩, named⟩
    exact ⟨d, describes, describes.id.unique named⟩

theorem isSome_ofRow?_iff : (ofRow? row.1 row.2).isSome = true ↔ WellFormed row := by
  simp only [Option.isSome_iff_exists, ofRow?_eq_some_iff, wellFormed_iff]

instance (row : String × Fields) : Decidable (WellFormed row) :=
  decidable_of_iff _ isSome_ofRow?_iff

end rows

end Dpu

namespace Dpus

def populated (calls : List (List (String × Fields))) : Dpus :=
  calls.foldl (fun dpus rows => (dpus.populate rows).2) ∅

/-- The last of the rows that describe a DPU of this id describes this one. -/
def Latest (rows : List (String × Fields)) (id : UInt64) (d : Dpu) : Prop :=
  ∃ before row after, rows = before ++ row :: after ∧ Dpu.Describes row d ∧ d.id = id ∧
    ∀ later ∈ after, ∀ d', Dpu.Describes later d' → d'.id ≠ id

section registry

variable {rows : List (String × Fields)} {row : String × Fields} {id : UInt64} {d : Dpu}

theorem latest_concat_iff : Latest (rows ++ [row]) id d ↔
    (Dpu.Describes row d ∧ d.id = id) ∨
      ((∀ d', Dpu.Describes row d' → d'.id ≠ id) ∧ Latest rows id d) := by
  constructor
  · rintro ⟨before, row', after, whole, describes, own, nobody⟩
    rcases List.eq_nil_or_concat after with rfl | ⟨after, last, rfl⟩
    · obtain ⟨rfl, rfl⟩ := List.append_singleton_inj.1 whole
      exact .inl ⟨describes, own⟩
    · rw [List.concat_eq_append, ← List.cons_append, ← List.append_assoc] at whole
      obtain ⟨rfl, rfl⟩ := List.append_singleton_inj.1 whole
      exact .inr ⟨nobody row (by simp), before, row', after, rfl, describes, own,
        fun later among => nobody later (by simp [among])⟩
  · rintro (⟨describes, own⟩ | ⟨other, before, row', after, rfl, describes, own, nobody⟩)
    · exact ⟨rows, row, [], rfl, describes, own, nofun⟩
    · refine ⟨before, row', after ++ [row], by simp, describes, own, fun later among => ?_⟩
      rcases List.mem_append.1 among with inner | last
      · exact nobody later inner
      · rwa [List.mem_singleton.1 last]

theorem register_of_describes (dpus : Dpus) (describes : Dpu.Describes row d) :
    dpus.register row = dpus.insert d.id d := by
  rw [register, Dpu.ofRow?_eq_some_iff.2 describes]

theorem register_of_not_wellFormed (dpus : Dpus) (bad : ¬Dpu.WellFormed row) :
    dpus.register row = dpus := by
  rw [← Dpu.isSome_ofRow?_iff, Option.not_isSome_iff_eq_none] at bad
  rw [register, bad]

theorem get?_register {dpus : Dpus} : (dpus.register row).get? id = some d ↔
    (Dpu.Describes row d ∧ d.id = id) ∨
      ((∀ d', Dpu.Describes row d' → d'.id ≠ id) ∧ dpus.get? id = some d) := by
  by_cases good : Dpu.WellFormed row
  · obtain ⟨own, describes⟩ := Dpu.wellFormed_iff.1 good
    have only : ∀ {other}, Dpu.Describes row other → other = own := fun other => other.unique describes
    rw [register_of_describes dpus describes, SortedMap.get?_insert_ite]
    split
    next here =>
      constructor
      · intro same
        cases same
        exact .inl ⟨describes, here.symm⟩
      · rintro (⟨described, -⟩ | ⟨nobody, -⟩)
        · rw [only described]
        · exact absurd here.symm (nobody own describes)
    next elsewhere =>
      have nobody : ∀ d', Dpu.Describes row d' → d'.id ≠ id :=
        fun d' described same => elsewhere (by rw [← same, only described])
      constructor
      · exact fun there => .inr ⟨nobody, there⟩
      · rintro (⟨described, same⟩ | ⟨-, there⟩)
        · exact absurd same (nobody d described)
        · exact there
  · have nobody : ∀ d', ¬Dpu.Describes row d' := fun d' describes =>
      good (Dpu.wellFormed_iff.2 ⟨d', describes⟩)
    rw [register_of_not_wellFormed dpus good]
    simp [nobody]

theorem get?_foldl_register : (rows.foldl register ∅).get? id = some d ↔ Latest rows id d := by
  induction rows using List.reverseRecOn with
  | nil =>
    have absent : (∅ : Dpus).get? id = none := rfl
    simp [Latest, absent]
  | append_singleton rows row ih =>
    rw [List.foldl_append, List.foldl_cons, List.foldl_nil, get?_register, latest_concat_iff, ih]

theorem exists_latest_iff :
    (∃ d, Latest rows id d) ↔ ∃ row ∈ rows, Dpu.WellFormed row ∧ Dpu.Names row id := by
  simp only [← Dpu.exists_describes_iff]
  constructor
  · rintro ⟨d, before, row, after, rfl, describes, own, -⟩
    exact ⟨row, by simp, d, describes, own⟩
  · rintro ⟨row, among, d, describes, own⟩
    induction rows using List.reverseRecOn with
    | nil => cases among
    | append_singleton rows last ih =>
      simp only [latest_concat_iff]
      by_cases here : ∃ d', Dpu.Describes last d' ∧ d'.id = id
      · obtain ⟨d', describes', own'⟩ := here
        exact ⟨d', .inl ⟨describes', own'⟩⟩
      · rcases List.mem_append.1 among with earlier | now
        · obtain ⟨d', latest⟩ := ih earlier
          exact ⟨d', .inr ⟨fun d'' other own' => here ⟨d'', other, own'⟩, latest⟩⟩
        · rw [List.mem_singleton] at now
          exact absurd ⟨d, now ▸ describes, own⟩ here

theorem get?_populated {calls : List (List (String × Fields))} :
    (populated calls).get? id = some d ↔ Latest calls.flatten id d := by
  have whole : populated calls = calls.flatten.foldl register ∅ := by
    simp only [populated, populate, List.foldl_flatten]
  rw [whole, get?_foldl_register]

theorem populate_count (dpus : Dpus) (rows : List (String × Fields)) :
    (dpus.populate rows).1 = rows.countP fun row => decide (Dpu.WellFormed row) := by
  refine List.countP_congr fun row _ => ?_
  rw [decide_eq_true_eq, Dpu.isSome_ofRow?_iff]

theorem populate_bad (dpus : Dpus) (before after : List (String × Fields))
    (bad : ¬Dpu.WellFormed row) :
    (dpus.populate (before ++ row :: after)).2 = (dpus.populate (before ++ after)).2 := by
  simp only [populate, List.foldl_append, List.foldl_cons, register_of_not_wellFormed _ bad]

end registry

/-- Whatever is loaded call after call, the registry holds for each id the last DPU that
was described under it, and no id beside these. All of them have a PA. A call counts the
rows that can be used, and is as if the others were not there. -/
theorem populated_registers (calls : List (List (String × Fields))) :
    (∀ id d, (populated calls).get? id = some d ↔ Latest calls.flatten id d) ∧
    (∀ id, (populated calls).contains id = true ↔
      ∃ row ∈ calls.flatten, Dpu.WellFormed row ∧ Dpu.Names row id) ∧
    (∀ id d, (populated calls).get? id = some d → d.pa.isSome = true) ∧
    (∀ rows, ((populated calls).populate rows).1 =
      rows.countP fun row => decide (Dpu.WellFormed row)) ∧
    ∀ before row after, ¬Dpu.WellFormed row →
      ((populated calls).populate (before ++ row :: after)).2 =
        ((populated calls).populate (before ++ after)).2 := by
  refine ⟨fun id d => get?_populated, fun id => ?_, fun id d there => ?_,
    populate_count _, fun before row after => populate_bad _ before after⟩
  · rw [SortedMap.contains, Option.isSome_iff_exists, ← exists_latest_iff]
    exact exists_congr fun d => get?_populated
  · obtain ⟨_, _, _, -, describes, -⟩ := get?_populated.1 there
    exact describes.pa

end Dpus

end EniForwarding
