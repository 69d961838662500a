import EniForwarding.Inventory
import EniForwarding.Json.Decode
import EniForwarding.Json.Dynamic
import EniForwarding.Json.Parser
import EniForwarding.Switch

/-! Snapshots: an inventory and what happens in it, as a JSON file.

Every member of a snapshot may be left out. An occurrence names its kind beside its
own members.
-/

set_option autoImplicit false

namespace EniForwarding

structure RouterInterface where
  ip : Net.Address
  name : String
  deriving DecidableEq, Repr

/-- Something that happens after the inventory was taken. -/
inductive Occurrence where
  | eniSet (key : String) (fields : FieldMap)
  | eniDel (key : String)
  | neighborAdd (ip : Net.Address)
  | neighborDel (ip : Net.Address)
  deriving DecidableEq

structure Snapshot where
  dpus : SortedMap String FieldMap
  vips : List String
  ports : List Net.Port
  vnets : SortedMap String Vnet
  interfaces : List RouterInterface
  neighbors : List Net.Address
  occurrences : List Occurrence
  deriving DecidableEq

/-- Why a snapshot cannot be loaded: there is no text, or it is not that of a snapshot. -/
inductive LoadError where
  | io
  | json
  deriving DecidableEq, Repr

namespace Snapshot

/-! ### Reading -/

def fieldMap? (j : Json) : Option FieldMap := j.map? Json.string?

def address? (j : Json) : Option Net.Address := j.string?.bind Net.Address.ofText?

def vnet? (j : Json) : Option Vnet := do
  match ← j.record? ["vni", "tunnel"] with
  | [vni, tunnel] =>
    let vni ← Json.nullable (Json.nat? UInt32.size) vni
    let tunnel ← Json.nullable Json.string? tunnel
    return ⟨vni.map UInt32.ofNat, tunnel⟩
  | _ => none

def port? (j : Json) : Option Net.Port := do
  match ← j.record? ["name", "type", "role", "members"] with
  | [name, kind, role, members] =>
    let name ← Json.required Json.string? name
    let kind ← Json.required (Json.word? Net.PortKind.ofName?) kind
    let role ← Json.orElse default (Json.word? Net.PortRole.ofName?) role
    let members ← Json.orElse [] (Json.list? Json.string?) members
    return ⟨name, kind, role, members⟩
  | _ => none

def interface? (j : Json) : Option RouterInterface := do
  match ← j.record? ["ip", "alias"] with
  | [ip, name] =>
    let ip ← Json.required address? ip
    let name ← Json.required Json.string? name
    return ⟨ip, name⟩
  | _ => none

def occurrenceOf? (kind : String) (body : Json) : Option Occurrence := do
  match kind with
  | "eni_set" =>
    match ← body.record? ["key", "fields"] with
    | [key, fields] =>
      return .eniSet (← Json.required Json.string? key) (← Json.required fieldMap? fields)
    | _ => none
  | "eni_del" =>
    match ← body.record? ["key"] with
    | [key] => return .eniDel (← Json.required Json.string? key)
    | _ => none
  | "neighbor_add" =>
    match ← body.record? ["ip"] with
    | [ip] => return .neighborAdd (← Json.required address? ip)
    | _ => none
  | "neighbor_del" =>
    match ← body.record? ["ip"] with
    | [ip] => return .neighborDel (← Json.required address? ip)
    | _ => none
  | _ => none

/-- An object with a kind, or an array that begins with it. All of it is read before
the kind is known, so what is not used must be readable too. -/
def occurrence? (j : Json) : Option Occurrence := do
  let _ ← j.dynamic? 2
  match j with
  | .object members =>
    let kind ← Json.required Json.string? (← Json.single? members "kind")
    occurrenceOf? kind (.object (members.filter (·.1 != "kind")))
  | .array (kind :: rest) => occurrenceOf? (← kind.string?) (.array rest)
  | _ => none

def memberNames : List String :=
  ["dpus", "vips", "ports", "vnets", "router_interfaces", "neighbors", "events"]

def ofJson? (j : Json) : Option Snapshot := do
  match ← j.record? memberNames with
  | [dpus, vips, ports, vnets, interfaces, neighbors, occurrences] =>
    let dpus ← Json.orElse ∅ (Json.map? fieldMap?) dpus
    let vips ← Json.orElse [] (Json.list? Json.string?) vips
    let ports ← Json.orElse [] (Json.list? port?) ports
    let vnets ← Json.orElse ∅ (Json.map? vnet?) vnets
    let interfaces ← Json.orElse [] (Json.list? interface?) interfaces
    let neighbors ← Json.orElse [] (Json.list? address?) neighbors
    let occurrences ← Json.orElse [] (Json.list? occurrence?) occurrences
    return ⟨dpus, vips, ports, vnets, interfaces, neighbors, occurrences⟩
  | _ => none

def ofText? (text : String) : Option Snapshot := (Json.parse? text).bind ofJson?

/-- The snapshot in a file, given its bytes if there is one. -/
def load (file : Option ByteArray) : Except LoadError Snapshot :=
  match file.bind String.fromUTF8? with
  | none => .error .io
  | some text =>
    match ofText? text with
    | some snapshot => .ok snapshot
    | none => .error .json

/-! ### Writing -/

def vnetJson (v : Vnet) : Json :=
  .object [("vni", (v.vni.map fun n => Json.nat n.toNat).getD .null),
    ("tunnel", .ofString? v.tunnel)]

def portJson (p : Net.Port) : Json :=
  .object ([("name", .string p.name), ("type", .string p.kind.name),
    ("role", .string p.role.name)] ++
    if p.members.isEmpty then [] else [("members", .strings p.members)])

def interfaceJson (i : RouterInterface) : Json :=
  .object [("ip", .string i.ip.render), ("alias", .string i.name)]

def occurrenceJson : Occurrence → Json
  | .eniSet key fields =>
    .object [("kind", .string "eni_set"), ("key", .string key), ("fields", .ofStringMap fields)]
  | .eniDel key => .object [("kind", .string "eni_del"), ("key", .string key)]
  | .neighborAdd ip => .object [("kind", .string "neighbor_add"), ("ip", .string ip.render)]
  | .neighborDel ip => .object [("kind", .string "neighbor_del"), ("ip", .string ip.render)]

def mapJson {α : Type} (write : α → Json) (m : SortedMap String α) : Json :=
  .object (m.toList.map fun (name, value) => (name, write value))

def toJson (s : Snapshot) : Json := .object [
  ("dpus", mapJson Json.ofStringMap s.dpus),
  ("vips", .strings s.vips),
  ("ports", .array (s.ports.map portJson)),
  ("vnets", mapJson vnetJson s.vnets),
  ("router_interfaces", .array (s.interfaces.map interfaceJson)),
  ("neighbors", .strings (s.neighbors.map Net.Address.render)),
  ("events", .array (s.occurrences.map occurrenceJson))]

/-! ### Use -/

def inventory (s : Snapshot) : Inventory where
  dpus := s.dpus
  vips := s.vips
  ports := s.ports
  vnets := s.vnets
  interfaces := .ofList (s.interfaces.map fun i => (i.ip, i.name))
  neighbors := .ofMembers s.neighbors

end Snapshot

end EniForwarding
