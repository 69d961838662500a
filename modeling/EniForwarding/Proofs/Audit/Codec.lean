import EniForwarding.Audit.Codec
import EniForwarding.Proofs.Json.Dynamic
import EniForwarding.Proofs.Text.Pieces
import EniForwarding.Proofs.Time.Instant

/-! Audit records are read as they were shipped.

The text of a record leaves out the members that are absent, so it is taken as a row of slots
some of which are empty. Names of slots are not repeated, so each slot is found again, empty or
not, whatever the others hold.
-/

set_option autoImplicit false

namespace EniForwarding.Audit

theorem Category.ofName?_name (category : Category) : ofName? category.name = some category := by
  cases category <;> rfl

/-- The outcome is read by the word in the record, which is not the word for people. -/
theorem Outcome.ofCode?_code (outcome : Outcome) : ofCode? outcome.code = some outcome := by
  cases outcome <;> rfl

/-! ### Slots -/

section slots

variable {slots : List (String × Option Json)}

def written (slots : List (String × Option Json)) : List (String × Json) :=
  slots.flatMap fun slot => member? slot.1 slot.2

theorem named_member? (name other : String) (value : Option Json) :
    Json.named (member? name value) other = if name = other then value.toList else [] := by
  cases value with
  | none => simp [member?, Json.named]
  | some value => by_cases same : name = other <;> simp [member?, Json.named, same]

theorem named_written_of_absent {name : String} (absent : name ∉ slots.map Prod.fst) :
    Json.named (written slots) name = [] := by
  induction slots with
  | nil => rfl
  | cons slot slots ih =>
    obtain ⟨other, value⟩ := slot
    simp only [List.map_cons, List.mem_cons, not_or] at absent
    rw [written, List.flatMap_cons, Json.named_append, named_member?, if_neg (Ne.symm absent.1),
      List.nil_append]
    exact ih absent.2

theorem named_written (apart : (slots.map Prod.fst).Nodup) {slot : String × Option Json}
    (member : slot ∈ slots) : Json.named (written slots) slot.1 = slot.2.toList := by
  induction slots with
  | nil => cases member
  | cons first slots ih =>
    rw [List.map_cons, List.nodup_cons] at apart
    rw [written, List.flatMap_cons, Json.named_append, named_member?]
    rcases List.mem_cons.1 member with rfl | later
    -- behind its own slot a name does not come again
    · rw [if_pos rfl, ← written, named_written_of_absent apart.1, List.append_nil]
    · have other : first.1 ≠ slot.1 := fun same =>
        apart.1 (same ▸ List.mem_map_of_mem later)
      rw [if_neg other, List.nil_append]
      exact ih apart.2 later

theorem record?_written (apart : (slots.map Prod.fst).Nodup) :
    (Json.object (written slots)).record? (slots.map Prod.fst) = some (slots.map Prod.snd) := by
  have each : ∀ slot ∈ slots, Json.single? (written slots) slot.1 = some slot.2 := by
    intro slot member
    rw [Json.single?, named_written apart member]
    cases slot.2 <;> rfl
  rw [Json.record?, Text.mapM_eq_some_iff, List.forall₂_map_left_iff, List.forall₂_map_right_iff]
  exact List.forall₂_same.2 each

theorem readable_written (readable : ∀ slot ∈ slots, ∀ j ∈ slot.2, j.Readable) :
    (Json.object (written slots)).Readable := by
  apply Json.readableMembers_of_forall
  intro member among
  obtain ⟨slot, inside, given⟩ := List.mem_flatMap.1 among
  obtain ⟨j, there, rfl⟩ : ∃ j ∈ slot.2, (slot.1, j) = member := by
    simpa [member?] using given
  exact readable slot inside j there

end slots

namespace Stamped

def slots (s : Stamped) : List (String × Option Json) :=
  [("timestamp", some (.string s.time.render)), ("category", some (.string s.record.category.name)),
    ("source", some (.string s.record.source)), ("action", some (.string s.record.action)),
    ("outcome", some (.string s.record.outcome.code)),
    ("object_id", s.record.objectId.map .string), ("object_type", s.record.objectType.map .string),
    ("details", s.record.details), ("error", s.record.error.map .string)]

theorem toJson_eq_written (s : Stamped) : s.toJson = .object (written s.slots) := by
  simp [toJson, Record.members, written, slots, member?]

theorem record?_toJson (s : Stamped) : s.toJson.record? memberNames = some (s.slots.map Prod.snd) := by
  have apart : (s.slots.map Prod.fst).Nodup := by
    -- the slots are named like the members of the record, in the same order
    change memberNames.Nodup
    decide
  rw [toJson_eq_written]
  exact record?_written apart

/-- What a record needs in order to be read again: a time that can be written, and no details
or such as a reader keeps. A null would be read as no details at all, and the record itself is
one container around its details. -/
structure Shippable (s : Stamped) : Prop where
  time : s.time.Proper
  details : ∀ details ∈ s.record.details,
    details ≠ .null ∧ details.Held ∧ details.depth < Json.nestingLimit

variable {s : Stamped}

theorem nullable_details (fit : s.Shippable) :
    Json.nullable (Json.dynamic? 1) s.record.details = some s.record.details := by
  cases given : s.record.details with
  | none => rfl
  | some details =>
    obtain ⟨solid, held, shallow⟩ := fit.details details given
    exact Json.nullable_some solid (held.dynamic (by omega))

theorem ofJson?_toJson (fit : s.Shippable) : ofJson? s.toJson = some s := by
  have clock : Json.required time? (some (.string s.time.render)) = some s.time := by
    rw [Json.required, time?, Json.string?, Option.bind_some, Time.Instant.ofText?_render fit.time]
  have category := (Json.Mirrors.word Category.ofName?_name).required s.record.category
  have outcome := (Json.Mirrors.word Outcome.ofCode?_code).required s.record.outcome
  have text := Json.Mirrors.string.nullable fun s => by simp
  simp only [ofJson?, record?_toJson, slots, List.map_cons, List.map_nil, clock, category, outcome,
    Json.Mirrors.string.required, text, nullable_details fit, Option.bind_eq_bind,
    Option.bind_some]
  rfl

theorem readable_toJson (fit : s.Shippable) : s.toJson.Readable := by
  rw [toJson_eq_written]
  apply readable_written
  have details : ∀ j ∈ s.record.details, j.Readable := fun j member =>
    (fit.details j member).2.1.readable
  simpa [slots, Json.Readable] using details

/-- A record is read as it was shipped: with the same time, the same members present and the
same values in them, so that it would be shipped again as the same text. This holds of any
category and outcome and of any strings, however the record was built. The year may be any that
can be written, of which 0 to 9999 are a part, and details may be nested more than a hundred
deep. -/
theorem read_as_shipped (s : Stamped) (fit : s.Shippable) :
    ofText? s.render = some s ∧ (ofText? s.render).map render = some s.render := by
  have parsed : Json.parse? s.render = some s.toJson :=
    Json.parse?_write Json.Layout.compact_plain (readable_toJson fit)
  have read : ofText? s.render = some s := by
    rw [ofText?, parsed, Option.bind_some, ofJson?_toJson fit]
  exact ⟨read, by rw [read, Option.map_some]⟩

def refusal : SortedMap String Json where
  toList := [("priority", .int 9996), ("redirect", .array [.string "10.0.0.1", .null])]
  ascending := by decide

def refusedRule : Stamped where
  time := ⟨1767225599, 250000000⟩
  record := (((Record.begun .resourceCreate "DashEniFwdOrch" "install_rule").withObjectId
    "Vnet1000_AABBCCDDEEFF").withDetails (.object refusal.toList)).withError "full\n\u2028"

theorem refusedRule_read : refusedRule.Shippable ∧ ofText? refusedRule.render = some refusedRule ∧
    (ofText? refusedRule.render).map render = some refusedRule.render := by
  have members : ∀ member ∈ refusal.toList, member.2.Held := by
    have items : (Json.array [.string "10.0.0.1", .null]).Held :=
      .array (by simp [Json.Held.string, Json.Held.null])
    simp [refusal, items, Json.Held.integer, Int64.minValue]
  have fit : refusedRule.Shippable :=
    { time := { year := by decide, nanos := by decide, leap := by decide }
      details := by
        intro details given
        cases given
        exact ⟨by simp, .object members, by decide⟩ }
  exact ⟨fit, read_as_shipped refusedRule fit⟩

end Stamped

end EniForwarding.Audit
