import EniForwarding.Net.Mac
import EniForwarding.Net.Prefix
import EniForwarding.Status
import EniForwarding.Text.Blank
import EniForwarding.Text.Integer
import EniForwarding.Text.Quoted
import EniForwarding.Text.Split

/-! Table entries: a key, an operation, and fields with text values.

The first occurrence of a field counts. A typed reader trims the value first, and
its refusal carries the value as it was written.
-/

set_option autoImplicit false

namespace EniForwarding

inductive Operation where
  | set
  | del
  deriving DecidableEq, Repr

/-- Field names with their values; the order counts, and a name may recur. -/
abbrev Fields := List (String × String)

structure Entry where
  key : String
  op : Operation
  fields : Fields
  deriving DecidableEq, Repr

inductive EntryError where
  | missingField (field : String)
  | invalidField (field value : String)
  | invalidKey (key : String)
  deriving DecidableEq, Repr

def EntryError.message : EntryError → String
  | .missingField field => "Missing field: " ++ field
  | .invalidField field value => "Invalid value for " ++ field ++ ": " ++ value
  | .invalidKey key => "Invalid key: " ++ key

/-- An entry that cannot be read is not worth a second attempt. -/
def EntryError.status (_ : EntryError) : Status := .invalidEntry

class FromText (α : Type) where
  ofText? : String → Option α

instance : FromText UInt8 := ⟨fun s => Text.uint8? s.toList⟩

instance : FromText UInt32 := ⟨fun s => Text.uint32? s.toList⟩

instance : FromText UInt64 := ⟨fun s => Text.uint64? s.toList⟩

/-- An integer of sixty-four bits with a sign. -/
instance : FromText Int := ⟨fun s => Text.signed? (UInt64.size / 2) s.toList⟩

instance : FromText Bool :=
  ⟨fun s => if s = "true" then some true else if s = "false" then some false else none⟩

instance : FromText String := ⟨some⟩

instance : FromText Net.Address := ⟨Net.Address.ofText?⟩

instance : FromText Net.Prefix := ⟨Net.Prefix.ofText?⟩

instance : FromText Net.Mac := ⟨Net.Mac.ofText?⟩

namespace Fields

def get? (fields : Fields) (field : String) : Option String :=
  (fields.find? (·.1 == field)).map Prod.snd

def has (fields : Fields) (field : String) : Bool := fields.any (·.1 == field)

def parse? (α : Type) [FromText α] (fields : Fields) (field : String) :
    Except EntryError (Option α) :=
  match fields.get? field with
  | none => .ok none
  | some raw =>
    match FromText.ofText? (Text.trim raw) with
    | some value => .ok (some value)
    | none => .error (.invalidField field raw)

def require (α : Type) [FromText α] (fields : Fields) (field : String) : Except EntryError α := do
  match ← fields.parse? α field with
  | some value => return value
  | none => throw (.missingField field)

/-- The items of a comma separated list, trimmed, without the empty ones. -/
def items (raw : String) : List String :=
  ((Text.pieces ',' raw.toList).map Text.trimChars).filter (!·.isEmpty) |>.map .ofList

/-- A list field; one item that cannot be read spoils the whole field. -/
def parseList? (α : Type) [FromText α] (fields : Fields) (field : String) :
    Except EntryError (Option (List α)) :=
  match fields.get? field with
  | none => .ok none
  | some raw =>
    match (items raw).mapM FromText.ofText? with
    | some values => .ok (some values)
    | none => .error (.invalidField field raw)

/-- Give a field its value: in place of its first occurrence, else at the end. -/
def put (field value : String) : Fields → Fields
  | [] => [(field, value)]
  | (name, old) :: rest =>
    if name = field then (name, value) :: rest else (name, old) :: put field value rest

/-- Write the newer fields over the older, from left to right. -/
def merge (older newer : Fields) : Fields := newer.foldl (fun acc fv => put fv.1 fv.2 acc) older

end Fields

namespace Entry

def isSet (e : Entry) : Bool := e.op == .set

def isDel (e : Entry) : Bool := e.op == .del

def describe (e : Entry) : String :=
  e.key ++ ": " ++ (if e.isSet then "SET" else "DEL") ++ " " ++ Text.quotedPairs e.fields

end Entry

end EniForwarding
