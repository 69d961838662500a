import EniForwarding.Json.Basic

/-! Records of what was done to the switch.

A record says who did what to which object and how it went. It starts in progress;
an outcome or an error is added when it is known, and an error makes it a failure.
Records leave as notices, whose level and message follow from the outcome.
-/

set_option autoImplicit false

namespace EniForwarding.Audit

inductive Category where
  | resourceCreate
  | resourceModify
  | resourceDelete
  | systemLifecycle
  | errorCondition
  deriving DecidableEq, Repr

namespace Category

def all : List Category :=
  [.resourceCreate, .resourceModify, .resourceDelete, .systemLifecycle, .errorCondition]

def name : Category → String
  | .resourceCreate => "RESOURCE_CREATE"
  | .resourceModify => "RESOURCE_MODIFY"
  | .resourceDelete => "RESOURCE_DELETE"
  | .systemLifecycle => "SYSTEM_LIFECYCLE"
  | .errorCondition => "ERROR_CONDITION"

def ofName? (s : String) : Option Category := all.find? (·.name == s)

end Category

inductive Outcome where
  | success
  | failure
  | inProgress
  deriving DecidableEq, Repr

namespace Outcome

def all : List Outcome := [.success, .failure, .inProgress]

def name : Outcome → String
  | .success => "success"
  | .failure => "failure"
  | .inProgress => "in_progress"

/-- The word inside a written record. -/
def code : Outcome → String
  | .success => "success"
  | .failure => "failure"
  | .inProgress => "inprogress"

def ofName? (s : String) : Option Outcome := all.find? (·.name == s)

def ofCode? (s : String) : Option Outcome := all.find? (·.code == s)

end Outcome

structure Record where
  category : Category
  source : String
  action : String
  outcome : Outcome
  objectId : Option String
  objectType : Option String
  details : Option Json
  error : Option String
  deriving BEq, Repr

namespace Record

def begun (category : Category) (source action : String) : Record :=
  ⟨category, source, action, .inProgress, none, none, none, none⟩

def withOutcome (r : Record) (outcome : Outcome) : Record := { r with outcome := outcome }

def withObjectId (r : Record) (id : String) : Record := { r with objectId := some id }

def withObjectType (r : Record) (type : String) : Record := { r with objectType := some type }

def withDetails (r : Record) (details : Json) : Record := { r with details := some details }

/-- An error makes the record one of a failure. -/
def withError (r : Record) (error : String) : Record :=
  { r with error := some error, outcome := .failure }

end Record

inductive Level where
  | debug
  | info
  | warn
  deriving DecidableEq, Repr

def Level.name : Level → String
  | .debug => "DEBUG"
  | .info => "INFO"
  | .warn => "WARN"

namespace Record

def level (r : Record) : Level :=
  match r.outcome with
  | .success => .info
  | .inProgress => .debug
  | .failure => .warn

/-- The line that announces the record; a hyphen stands for no object. -/
def message (r : Record) : String :=
  "AUDIT: " ++ r.category.name ++ " " ++ r.action ++ " " ++ r.objectId.getD "-" ++
    match r.outcome with
    | .success => ""
    | .inProgress => " started"
    | .failure => " failed"

def announcedError? (r : Record) : Option String :=
  match r.outcome with
  | .failure => some (r.error.getD "")
  | _ => none

end Record

end EniForwarding.Audit
