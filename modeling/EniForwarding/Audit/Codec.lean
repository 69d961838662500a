import EniForwarding.Audit.Record
import EniForwarding.Json.Decode
import EniForwarding.Json.Dynamic
import EniForwarding.Json.Parser
import EniForwarding.Json.Printer
import EniForwarding.Time.Instant

/-! Audit records as JSON texts.

A record is shipped with the time it was made. Members that are absent are left out
of the text; reading takes a null for an absent member, and ignores members it does
not know.
-/

set_option autoImplicit false

namespace EniForwarding.Audit

/-- A record and the time it was made. -/
structure Stamped where
  time : Time.Instant
  record : Record
  deriving BEq, Repr

def member? (name : String) (value : Option Json) : List (String × Json) :=
  (value.map (name, ·)).toList

def Record.members (r : Record) : List (String × Json) :=
  [("category", .string r.category.name), ("source", .string r.source),
    ("action", .string r.action), ("outcome", .string r.outcome.code)] ++
  member? "object_id" (r.objectId.map .string) ++
  member? "object_type" (r.objectType.map .string) ++
  member? "details" r.details ++
  member? "error" (r.error.map .string)

def Record.toJson (r : Record) : Json := .object r.members

namespace Stamped

def toJson (s : Stamped) : Json :=
  .object (("timestamp", .string s.time.render) :: s.record.members)

def render (s : Stamped) : String := s.toJson.compact

def memberNames : List String :=
  ["timestamp", "category", "source", "action", "outcome", "object_id", "object_type", "details",
    "error"]

def time? (j : Json) : Option Time.Instant := j.string?.bind Time.Instant.ofText?

/-- An object may leave members out; an array gives every one. -/
def isComplete : Json → Bool
  | .array items => items.length == memberNames.length
  | _ => true

def ofJson? (j : Json) : Option Stamped := do
  if !isComplete j then none
  match ← j.record? memberNames with
  | [time, category, source, action, outcome, objectId, objectType, details, error] =>
    let time ← Json.required time? time
    let category ← Json.required (Json.word? Category.ofName?) category
    let source ← Json.required Json.string? source
    let action ← Json.required Json.string? action
    let outcome ← Json.required (Json.word? Outcome.ofCode?) outcome
    let objectId ← Json.nullable Json.string? objectId
    let objectType ← Json.nullable Json.string? objectType
    let details ← Json.nullable (Json.dynamic? 1) details
    let error ← Json.nullable Json.string? error
    return ⟨time, category, source, action, outcome, objectId, objectType, details, error⟩
  | _ => none

def ofText? (text : String) : Option Stamped := (Json.parse? text).bind ofJson?

end Stamped

end EniForwarding.Audit
