/-! Finite maps kept in ascending order of their keys.

A map is its list of entries, with a proof that the keys ascend strictly; so no
key occurs twice, and every traversal meets the entries in key order. What a write
does is told by what is read after it (`get?_insert`, `get?_erase`).
-/

set_option autoImplicit false

namespace EniForwarding

/-- A finite map listed by strictly ascending keys. -/
structure SortedMap (κ α : Type) [Ord κ] where
  toList : List (κ × α)
  ascending : toList.Pairwise fun a b => compare a.1 b.1 = .lt
  deriving DecidableEq

abbrev SortedSet (κ : Type) [Ord κ] := SortedMap κ Unit

namespace SortedMap

variable {κ α β : Type} [Ord κ]

def empty : SortedMap κ α := ⟨[], .nil⟩

instance : EmptyCollection (SortedMap κ α) := ⟨empty⟩

instance : Inhabited (SortedMap κ α) := ⟨empty⟩

def keys (m : SortedMap κ α) : List κ := m.toList.map Prod.fst

def values (m : SortedMap κ α) : List α := m.toList.map Prod.snd

def size (m : SortedMap κ α) : Nat := m.toList.length

def isEmpty (m : SortedMap κ α) : Bool := m.toList.isEmpty

def get? (m : SortedMap κ α) (k : κ) : Option α :=
  (m.toList.find? fun e => compare k e.1 == .eq).map Prod.snd

def contains (m : SortedMap κ α) (k : κ) : Bool := (m.get? k).isSome

def filter (m : SortedMap κ α) (keep : κ → α → Bool) : SortedMap κ α :=
  ⟨m.toList.filter fun e => keep e.1 e.2, m.ascending.filter _⟩

def erase (m : SortedMap κ α) (k : κ) : SortedMap κ α :=
  m.filter fun k' _ => compare k k' != .eq

def map (m : SortedMap κ α) (f : α → β) : SortedMap κ β :=
  ⟨m.toList.map fun e => (e.1, f e.2), List.pairwise_map.2 m.ascending⟩

theorem get?_map (m : SortedMap κ α) (f : α → β) (k : κ) : (m.map f).get? k = (m.get? k).map f := by
  simp [get?, map, List.find?_map, Function.comp_def]

/-- Place an entry in an ascending list, over the entry of the same key if there is one. -/
def place (k : κ) (v : α) : List (κ × α) → List (κ × α)
  | [] => [(k, v)]
  | e :: rest =>
    match compare k e.1 with
    | .lt => (k, v) :: e :: rest
    | .eq => (k, v) :: rest
    | .gt => e :: place k v rest

theorem mem_place {k : κ} {v : α} {l : List (κ × α)} {e : κ × α} (h : e ∈ place k v l) :
    e = (k, v) ∨ e ∈ l := by
  induction l with
  | nil => simpa [place] using h
  | cons head rest ih =>
    rw [place] at h
    split at h
    · simpa using h
    · rcases List.mem_cons.1 h with same | later
      · exact .inl same
      · exact .inr (List.mem_cons_of_mem _ later)
    · rcases List.mem_cons.1 h with same | later
      · exact .inr (same ▸ List.mem_cons_self)
      · exact (ih later).imp id (List.mem_cons_of_mem _)

variable [Std.TransOrd κ]

theorem place_ascending (k : κ) (v : α) {l : List (κ × α)}
    (h : l.Pairwise fun a b => compare a.1 b.1 = .lt) :
    (place k v l).Pairwise fun a b => compare a.1 b.1 = .lt := by
  induction l with
  | nil => simp [place]
  | cons head rest ih =>
    obtain ⟨before, tail⟩ := List.pairwise_cons.1 h
    rw [place]
    split
    next less =>
      refine List.pairwise_cons.2 ⟨fun e later => ?_, h⟩
      rcases List.mem_cons.1 later with same | later
      · exact same ▸ less
      · exact Std.TransCmp.lt_trans less (before e later)
    next same =>
      exact List.pairwise_cons.2
        ⟨fun e later => Std.TransCmp.lt_of_eq_of_lt same (before e later), tail⟩
    next greater =>
      refine List.pairwise_cons.2 ⟨fun e later => ?_, ih tail⟩
      rcases mem_place later with same | later
      · exact same ▸ Std.OrientedCmp.lt_of_gt greater
      · exact before e later

def insert (m : SortedMap κ α) (k : κ) (v : α) : SortedMap κ α :=
  ⟨place k v m.toList, place_ascending k v m.ascending⟩

theorem find?_place (k k' : κ) (v : α) (l : List (κ × α)) :
    ((place k v l).find? fun e => compare k' e.1 == .eq).map Prod.snd =
      if compare k' k = .eq then some v
      else (l.find? fun e => compare k' e.1 == .eq).map Prod.snd := by
  induction l with
  | nil => by_cases here : compare k' k = .eq <;> simp [place, here]
  | cons head rest ih =>
    rw [place]
    split
    next =>
      by_cases here : compare k' k = .eq
      · simp [here]
      · simp [here, List.find?_cons, beq_eq_false_iff_ne.2 here]
    next same =>
      rw [List.find?_cons, List.find?_cons, ← Std.TransCmp.congr_right same]
      by_cases here : compare k' k = .eq
      · simp [here]
      · simp [here, beq_eq_false_iff_ne.2 here]
    next greater =>
      rw [List.find?_cons, List.find?_cons]
      by_cases there : compare k' head.1 = .eq
      · have apart : compare k' k ≠ .eq := fun here => by
          rw [← Std.TransCmp.congr_left here, there] at greater
          cases greater
        simp [there, apart]
      · simp only [beq_eq_false_iff_ne.2 there, ih]

theorem get?_insert (m : SortedMap κ α) (k k' : κ) (v : α) :
    (m.insert k v).get? k' = if compare k' k = .eq then some v else m.get? k' :=
  find?_place k k' v m.toList

theorem get?_insert_self (m : SortedMap κ α) (k : κ) (v : α) :
    (m.insert k v).get? k = some v := by
  simp [get?_insert]

theorem get?_erase (m : SortedMap κ α) (k k' : κ) :
    (m.erase k).get? k' = if compare k' k = .eq then none else m.get? k' := by
  rw [get?, erase, filter, List.find?_filter]
  by_cases here : compare k' k = .eq
  · simp [here, ← Std.TransCmp.congr_left here]
  · have kept : (fun e : κ × α => decide ((compare k e.1 != .eq) = true ∧
        (compare k' e.1 == .eq) = true)) = fun e => compare k' e.1 == .eq := by
      funext e
      by_cases there : compare k' e.1 = .eq
      · have apart : compare k e.1 ≠ .eq := fun same =>
          here (Std.TransCmp.eq_trans there (Std.OrientedCmp.eq_symm same))
        simp [there, apart]
      · simp [there]
    rw [kept, if_neg here, get?]

/-- Insert the entries from left to right, so the last entry of a key wins. -/
def ofList (entries : List (κ × α)) : SortedMap κ α :=
  entries.foldl (fun m e => m.insert e.1 e.2) empty

end SortedMap

namespace SortedSet

variable {κ : Type} [Ord κ]

def members (s : SortedSet κ) : List κ := s.keys

variable [Std.TransOrd κ]

def add (s : SortedSet κ) (k : κ) : SortedSet κ := s.insert k ()

def ofMembers (ks : List κ) : SortedSet κ := ks.foldl add ∅

end SortedSet

end EniForwarding
