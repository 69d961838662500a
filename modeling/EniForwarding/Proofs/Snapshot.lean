import EniForwarding.Proofs.Json.Dynamic
import EniForwarding.Proofs.Net.Address
import EniForwarding.Snapshot

/-! Snapshot files are read as they were written.

For every part of a snapshot there is a reader and a writer, and they mirror each other: what a
record gives for the names of its members is listed (`given`), and each member mirrors. The
members of a record that may be left out are written, except the members of a port that is no
group; there the reader falls back to the empty list, which is the value that was left out. An
occurrence is read as a value of any shape before its kind is known, so it must also pass as
one: it nests no more than three containers deep, and holds no numbers.
-/

set_option autoImplicit false

namespace EniForwarding

namespace Net

theorem PortKind.ofName?_name (kind : PortKind) : ofName? kind.name = some kind := by
  cases kind <;> rfl

theorem PortRole.ofName?_name (role : PortRole) : ofName? role.name = some role := by
  cases role <;> rfl

end Net

namespace Snapshot

open Json (Mirrors)

/-! ### The parts of an inventory -/

theorem fieldMap_mirrors : Mirrors fieldMap? Json.ofStringMap := Mirrors.string.map

theorem strings_mirrors : Mirrors (Json.list? Json.string?) Json.strings := Mirrors.string.list

theorem address_mirrors : Mirrors address? fun ip => .string ip.render where
  readable _ := trivial
  read_write ip := Net.Address.ofText?_render ip

theorem vnet_mirrors : Mirrors vnet? vnetJson where
  readable v := by
    obtain ⟨vni, tunnel⟩ := v
    cases vni <;> cases tunnel <;> exact ⟨trivial, trivial, trivial⟩
  read_write v := by
    obtain ⟨vni, tunnel⟩ := v
    have given : (vnetJson ⟨vni, tunnel⟩).record? ["vni", "tunnel"] =
        some [some ((vni.map fun n => Json.nat n.toNat).getD .null), some (.ofString? tunnel)] := rfl
    have number : Json.nullable (Json.nat? UInt32.size)
        (some ((vni.map fun n => Json.nat n.toNat).getD .null)) = some (vni.map UInt32.toNat) := by
      cases vni with
      | none => rfl
      | some n => exact congrArg (Option.map some) (Json.nat?_nat n.toNat_lt)
    have name : Json.nullable Json.string? (some (.ofString? tunnel)) = some tunnel := by
      cases tunnel <;> rfl
    simp only [vnet?, given, number, name, Option.bind_eq_bind, Option.bind_some]
    cases vni with
    | none => rfl
    | some n => simp

theorem port_mirrors : Mirrors port? portJson where
  readable p := by
    obtain ⟨name, kind, role, members⟩ := p
    cases members with
    | nil => exact ⟨trivial, trivial, trivial, trivial⟩
    | cons => exact ⟨trivial, trivial, trivial, strings_mirrors.readable _, trivial⟩
  read_write p := by
    obtain ⟨name, kind, role, members⟩ := p
    have given : (portJson ⟨name, kind, role, members⟩).record? ["name", "type", "role", "members"] =
        some [some (.string name), some (.string kind.name), some (.string role.name),
          if members.isEmpty then none else some (.strings members)] := by
      cases members <;> rfl
    have group : Json.orElse [] (Json.list? Json.string?)
        (if members.isEmpty then none else some (.strings members)) = some members := by
      cases members with
      | nil => rfl
      | cons member members => exact strings_mirrors.orElse [] (member :: members)
    simp only [port?, given, group, Option.bind_eq_bind, Option.bind_some, Mirrors.string.required,
      (Mirrors.word Net.PortKind.ofName?_name).required,
      (Mirrors.word Net.PortRole.ofName?_name).orElse]
    rfl

theorem interface_mirrors : Mirrors interface? interfaceJson where
  readable _ := ⟨trivial, trivial, trivial⟩
  read_write i := by
    have given : (interfaceJson i).record? ["ip", "alias"] =
        some [some (.string i.ip.render), some (.string i.name)] := rfl
    simp only [interface?, given, Option.bind_eq_bind, Option.bind_some, address_mirrors.required,
      Mirrors.string.required]
    rfl

/-! ### Occurrences -/

theorem occurrence_dynamic (o : Occurrence) : ((occurrenceJson o).dynamic? 2).isSome = true := by
  cases o with
  | eniSet key fields =>
    have shallow : 2 + (occurrenceJson (.eniSet key fields)).depth ≤ Json.nestingLimit := by
      simp [occurrenceJson, Json.depth, Json.depthMembers, Json.depthMember,
        Json.depth_ofStringMap, Json.nestingLimit]
    rw [Json.dynamic?, if_pos shallow]
    simp [occurrenceJson, Json.canonical?, Json.canonicalMembers?, Json.canonicalMember?,
      (Json.held_ofStringMap fields).canonical]
  | eniDel | neighborAdd | neighborDel => rfl

/-- An object that begins with its kind is the occurrence of that kind with the other members. -/
theorem occurrence?_object {kind : String} {members : List (String × Json)}
    (general : ((Json.object (("kind", .string kind) :: members)).dynamic? 2).isSome = true)
    (others : ∀ member ∈ members, member.1 ≠ "kind") :
    occurrence? (.object (("kind", .string kind) :: members)) =
      occurrenceOf? kind (.object members) := by
  obtain ⟨j, general⟩ := Option.isSome_iff_exists.1 general
  have named : Json.named (("kind", .string kind) :: members) "kind" = [.string kind] := by
    simpa [Json.named] using fun name value member => others (name, value) member
  have body : (("kind", Json.string kind) :: members).filter (·.1 != "kind") = members := by
    simpa using others
  simp only [occurrence?, general, Json.single?, named, body, Option.bind_eq_bind, Option.bind_some,
    Mirrors.string.required]

theorem occurrence_mirrors : Mirrors occurrence? occurrenceJson where
  readable o := by
    cases o with
    | eniSet key fields => exact ⟨trivial, trivial, fieldMap_mirrors.readable fields, trivial⟩
    | eniDel | neighborAdd | neighborDel => exact ⟨trivial, trivial, trivial⟩
  read_write o := by
    have general := occurrence_dynamic o
    cases o with
    | eniSet key fields =>
      have given : (Json.object [("key", .string key), ("fields", .ofStringMap fields)]).record?
          ["key", "fields"] = some [some (.string key), some (.ofStringMap fields)] := rfl
      rw [occurrenceJson, occurrence?_object general (by simp)]
      simp only [occurrenceOf?, given, Option.bind_eq_bind, Option.bind_some,
        Mirrors.string.required, fieldMap_mirrors.required]
      rfl
    | eniDel key =>
      have given : (Json.object [("key", .string key)]).record? ["key"] =
          some [some (.string key)] := rfl
      rw [occurrenceJson, occurrence?_object general (by simp)]
      simp only [occurrenceOf?, given, Option.bind_eq_bind, Option.bind_some,
        Mirrors.string.required]
      rfl
    | neighborAdd ip | neighborDel ip =>
      have given : (Json.object [("ip", .string ip.render)]).record? ["ip"] =
          some [some (.string ip.render)] := rfl
      rw [occurrenceJson, occurrence?_object general (by simp)]
      simp only [occurrenceOf?, given, Option.bind_eq_bind, Option.bind_some,
        address_mirrors.required]
      rfl

/-! ### The whole -/

theorem addresses_mirrors :
    Mirrors (Json.list? address?) fun ips => .strings (ips.map Net.Address.render) := by
  have written : (fun ips : List Net.Address => Json.strings (ips.map Net.Address.render)) =
      fun ips => .array (ips.map fun ip => .string ip.render) := by
    funext ips
    rw [Json.strings, List.map_map]
    rfl
  rw [written]
  exact address_mirrors.list

theorem dpus_mirrors : Mirrors (Json.map? fieldMap?) (mapJson Json.ofStringMap) :=
  fieldMap_mirrors.map

theorem vnets_mirrors : Mirrors (Json.map? vnet?) (mapJson vnetJson) := vnet_mirrors.map

theorem snapshot_mirrors : Mirrors ofJson? toJson where
  readable s := ⟨dpus_mirrors.readable s.dpus, strings_mirrors.readable s.vips,
    port_mirrors.list.readable s.ports, vnets_mirrors.readable s.vnets,
    interface_mirrors.list.readable s.interfaces, addresses_mirrors.readable s.neighbors,
    occurrence_mirrors.list.readable s.occurrences, trivial⟩
  read_write s := by
    have given : s.toJson.record? memberNames = some [some (mapJson Json.ofStringMap s.dpus),
        some (.strings s.vips), some (.array (s.ports.map portJson)),
        some (mapJson vnetJson s.vnets), some (.array (s.interfaces.map interfaceJson)),
        some (.strings (s.neighbors.map Net.Address.render)),
        some (.array (s.occurrences.map occurrenceJson))] := rfl
    simp only [ofJson?, given, Option.bind_eq_bind, Option.bind_some, dpus_mirrors.orElse,
      strings_mirrors.orElse, port_mirrors.list.orElse, vnets_mirrors.orElse,
      interface_mirrors.list.orElse, addresses_mirrors.orElse, occurrence_mirrors.list.orElse]
    rfl

theorem fromUTF8?_toUTF8 (text : String) : String.fromUTF8? text.toUTF8 = some text :=
  dif_pos text.isValidUTF8

theorem load_write {layout : Json.Layout} (plain : layout.Plain) (s : Snapshot) :
    load (some (String.ofList (s.toJson.write layout 0)).toUTF8) = .ok s := by
  have parsed := Json.parse?_write plain (snapshot_mirrors.readable s)
  have read := snapshot_mirrors.read_write s
  simp only [load, Option.bind_some, fromUTF8?_toUTF8, ofText?, parsed, read]

/-- A snapshot that is written to a file, on one line or over several, is loaded again. -/
theorem load_written (s : Snapshot) :
    load (some s.toJson.compact.toUTF8) = .ok s ∧ load (some s.toJson.pretty.toUTF8) = .ok s :=
  ⟨load_write Json.Layout.compact_plain s, load_write Json.Layout.pretty_plain s⟩

end Snapshot

end EniForwarding
