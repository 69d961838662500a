import EniForwarding.Json.Decode
import EniForwarding.Proofs.Data.SortedMap
import EniForwarding.Proofs.Json.RoundTrip

/-! Readers and writers that undo each other.

A writer of the values of a type and a reader of them mirror each other where what is written
is read back as the value it was written from. Lists and maps of values that mirror are mirrored
as well. For a map this says that its entries, put back one by one in the order in which they
were listed, make the same map again.
-/

set_option autoImplicit false

namespace EniForwarding.Json

/-- What is written can be read, and is read as what it was written from. -/
structure Mirrors {α : Type} (read : Json → Option α) (write : α → Json) : Prop where
  readable : ∀ a, (write a).Readable
  read_write : ∀ a, read (write a) = some a

theorem readableItems_of_forall {items : List Json} (readable : ∀ item ∈ items, item.Readable) :
    ReadableItems items := by
  induction items with
  | nil => trivial
  | cons item items ih =>
    exact ⟨readable item List.mem_cons_self,
      ih fun later member => readable later (List.mem_cons_of_mem _ member)⟩

theorem readableMembers_of_forall {members : List (String × Json)}
    (readable : ∀ member ∈ members, member.2.Readable) : ReadableMembers members := by
  induction members with
  | nil => trivial
  | cons member members ih =>
    obtain ⟨name, value⟩ := member
    exact ⟨readable (name, value) List.mem_cons_self,
      ih fun later among => readable later (List.mem_cons_of_mem _ among)⟩

theorem nat?_nat {bound n : Nat} (below : n < bound) : nat? bound (.nat n) = some n :=
  if_pos below

theorem named_append (first second : List (String × Json)) (name : String) :
    named (first ++ second) name = named first name ++ named second name := by
  simp [named]

/-- A member that is there and not null is read like one that has to be there. -/
theorem nullable_some {α : Type} {read : Json → Option α} {j : Json} {a : α} (solid : j ≠ .null)
    (given : read j = some a) : nullable read (some j) = some (some a) := by
  cases j with
  | null => exact absurd rfl solid
  | _ => exact congrArg (Option.map some) given

namespace Mirrors

theorem string : Mirrors string? .string where
  readable _ := trivial
  read_write _ := rfl

theorem word {α : Type} {ofName? : String → Option α} {name : α → String}
    (known : ∀ a, ofName? (name a) = some a) : Mirrors (word? ofName?) fun a => .string (name a) where
  readable _ := trivial
  read_write := known

variable {α : Type} {read : Json → Option α} {write : α → Json}

theorem list (mirrors : Mirrors read write) :
    Mirrors (list? read) fun as => .array (as.map write) where
  readable as := by
    apply readableItems_of_forall
    intro item member
    obtain ⟨a, -, rfl⟩ := List.mem_map.1 member
    exact mirrors.readable a
  read_write as := by
    rw [list?]
    induction as with
    | nil => rfl
    | cons a as ih => simp [mirrors.read_write, ih]

theorem map (mirrors : Mirrors read write) :
    Mirrors (map? read) fun m => .object (m.toList.map fun (name, value) => (name, write value)) where
  readable m := by
    apply readableMembers_of_forall
    intro member among
    obtain ⟨entry, -, rfl⟩ := List.mem_map.1 among
    exact mirrors.readable entry.2
  read_write m := by
    have each : ∀ entries : List (String × α),
        (entries.map fun (name, value) => (name, write value)).mapM
          (fun member => (read member.2).map (member.1, ·)) = some entries := by
      intro entries
      induction entries with
      | nil => rfl
      | cons entry entries ih => simp [mirrors.read_write, ih]
    rw [map?, each, Option.map_some, SortedMap.ofList_toList]

theorem required (mirrors : Mirrors read write) (a : α) :
    Json.required read (some (write a)) = some a :=
  mirrors.read_write a

theorem orElse (mirrors : Mirrors read write) (fallback a : α) :
    Json.orElse fallback read (some (write a)) = some a :=
  mirrors.read_write a

/-- A member is absent where it was, if none is written as null. -/
theorem nullable (mirrors : Mirrors read write) (solid : ∀ a, write a ≠ .null) (o : Option α) :
    Json.nullable read (o.map write) = some o := by
  cases o with
  | none => rfl
  | some a => exact nullable_some (solid a) (mirrors.read_write a)

end Mirrors

end EniForwarding.Json
