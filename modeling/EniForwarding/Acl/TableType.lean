import EniForwarding.Acl.Vocabulary
import EniForwarding.Entry

/-! Types of rule tables.

A table type says what the rules of a table may match, what they may do and where
the table can be bound. A draft collects these without repetition and becomes a
type once it has a name, a bind point, and something to match or to do.
-/

set_option autoImplicit false

namespace EniForwarding.Acl

structure TableType where
  name : String
  fields : List MatchField
  actions : List ActionKind
  bindPoints : List BindPoint
  deriving DecidableEq, Repr

namespace TableType

def supports (t : TableType) (field : MatchField) : Bool := t.fields.contains field

def performs (t : TableType) (action : ActionKind) : Bool := t.actions.contains action

def toFields (t : TableType) : Fields := [
  ("MATCHES", ",".intercalate (t.fields.map MatchField.name)),
  ("ACTIONS", ",".intercalate (t.actions.map ActionKind.name)),
  ("BIND_POINTS", ",".intercalate (t.bindPoints.map BindPoint.name))]

def summary (t : TableType) : String :=
  "AclTableType(" ++ t.name ++ ", matches=" ++ Text.renderRadix 10 t.fields.length ++
    ", actions=" ++ Text.renderRadix 10 t.actions.length ++
    ", bind_points=" ++ Text.renderRadix 10 t.bindPoints.length ++ ")"

/-- The type of the table that redirects the traffic of ENIs. -/
def redirecting (name : String) : TableType :=
  ⟨name, MatchField.all, [.redirect], [.port, .portChannel]⟩

end TableType

structure Draft where
  name : Option String
  fields : List MatchField
  actions : List ActionKind
  bindPoints : List BindPoint
  deriving DecidableEq, Repr

inductive DraftError where
  | noName
  | noBindPoint
  | noPurpose
  deriving DecidableEq, Repr

def DraftError.message : DraftError → String
  | .noName => "Table type name is required"
  | .noBindPoint => "At least one bind point is required"
  | .noPurpose => "At least one match or action is required"

namespace Draft

def empty : Draft := ⟨none, [], [], []⟩

/-- Append the items that are not there yet, from left to right. -/
def appendNew {α : Type} [DecidableEq α] (present items : List α) : List α :=
  items.foldl (fun acc item => if item ∈ acc then acc else acc ++ [item]) present

def withName (d : Draft) (name : String) : Draft := { d with name := some name }

def withFields (d : Draft) (fields : List MatchField) : Draft :=
  { d with fields := appendNew d.fields fields }

def withActions (d : Draft) (actions : List ActionKind) : Draft :=
  { d with actions := appendNew d.actions actions }

def withBindPoints (d : Draft) (bindPoints : List BindPoint) : Draft :=
  { d with bindPoints := appendNew d.bindPoints bindPoints }

def complete (d : Draft) : Except DraftError TableType :=
  match d.name with
  | none => .error .noName
  | some name =>
    if d.bindPoints.isEmpty then .error .noBindPoint
    else if d.fields.isEmpty && d.actions.isEmpty then .error .noPurpose
    else .ok ⟨name, d.fields, d.actions, d.bindPoints⟩

end Draft

end EniForwarding.Acl
