import EniForwarding.Data.SortedMap

/-! The values of a finite map, as a bag.

A write puts its value into the bag in place of the one that was under the key, and an
erasure takes that one out. The order of the values is of no account here.
-/

set_option autoImplicit false

namespace EniForwarding.SortedMap

variable {κ α : Type} [Ord κ]

abbrev stays (k : κ) (e : κ × α) : Bool := compare k e.1 != .eq

theorem filter_stays {k : κ} {l : List (κ × α)} (apart : ∀ e ∈ l, compare k e.1 ≠ .eq) :
    l.filter (stays k) = l :=
  List.filter_eq_self.2 fun e member => bne_iff_ne.2 (apart e member)

theorem erase_of_absent {m : SortedMap κ α} {k : κ} (absent : m.get? k = none) : m.erase k = m := by
  have apart : ∀ e ∈ m.toList, compare k e.1 ≠ .eq := by simpa [get?] using absent
  have kept : m.toList.filter (fun e => compare k e.1 != .eq) = m.toList := filter_stays apart
  simp only [erase, filter, kept]

/-- A map is told by its entries. -/
theorem eq_of_toList {m m' : SortedMap κ α} (same : m.toList = m'.toList) : m = m' := by
  cases m
  cases m'
  cases same
  rfl

variable [Std.TransOrd κ]

theorem place_last {k : κ} {v : α} {l : List (κ × α)} (above : ∀ e ∈ l, compare e.1 k = .lt) :
    place k v l = l ++ [(k, v)] := by
  induction l with
  | nil => rfl
  | cons head rest ih =>
    have greater := Std.OrientedCmp.gt_of_lt (above head List.mem_cons_self)
    simp only [place, greater, List.cons_append]
    rw [ih fun e later => above e (List.mem_cons_of_mem _ later)]

theorem toList_foldl_insert (m : SortedMap κ α) {entries : List (κ × α)}
    (ascending : (m.toList ++ entries).Pairwise fun a b => compare a.1 b.1 = .lt) :
    (entries.foldl (fun m e => m.insert e.1 e.2) m).toList = m.toList ++ entries := by
  induction entries generalizing m with
  | nil => simp
  | cons e entries ih =>
    have above : ∀ e' ∈ m.toList, compare e'.1 e.1 = .lt := fun e' member =>
      (List.pairwise_append.1 ascending).2.2 e' member e List.mem_cons_self
    have placed : (m.insert e.1 e.2).toList = m.toList ++ [e] := place_last above
    rw [List.foldl_cons, ih, placed, List.append_assoc, List.singleton_append]
    rwa [placed, List.append_assoc]

theorem ofList_toList (m : SortedMap κ α) : ofList m.toList = m := by
  apply eq_of_toList
  exact toList_foldl_insert empty m.ascending

theorem place_perm (k : κ) (v : α) {l : List (κ × α)}
    (ascending : l.Pairwise fun a b => compare a.1 b.1 = .lt) :
    (place k v l).Perm ((k, v) :: l.filter (stays k)) := by
  induction l with
  | nil => exact .refl _
  | cons head rest ih =>
    obtain ⟨before, tail⟩ := List.pairwise_cons.1 ascending
    rw [place]
    split
    next less =>
      -- everything in the list stands behind the new entry
      rw [filter_stays]
      intro e member
      rcases List.mem_cons.1 member with same | later
      · simp [same, less]
      · simp [Std.TransCmp.lt_trans less (before e later)]
    next same =>
      rw [List.filter_cons_of_neg (by simp [same]), filter_stays]
      intro e later
      simp [Std.TransCmp.lt_of_eq_of_lt same (before e later)]
    next greater =>
      rw [List.filter_cons_of_pos (by simp [greater])]
      exact ((ih tail).cons head).trans (.swap _ _ _)

theorem perm_of_find? {k : κ} {l : List (κ × α)} {e : κ × α}
    (ascending : l.Pairwise fun a b => compare a.1 b.1 = .lt)
    (found : l.find? (fun e => compare k e.1 == .eq) = some e) :
    l.Perm (e :: l.filter (stays k)) := by
  induction l with
  | nil => cases found
  | cons head rest ih =>
    obtain ⟨before, tail⟩ := List.pairwise_cons.1 ascending
    by_cases here : compare k head.1 = .eq
    · have same : head = e := by simpa [here] using found
      have apart : ∀ e ∈ rest, compare k e.1 ≠ .eq := fun e later => by
        simp [Std.TransCmp.lt_of_eq_of_lt here (before e later)]
      rw [List.filter_cons_of_neg (by simp [here]), filter_stays apart, same]
    · rw [List.find?_cons_of_neg (by simp [here])] at found
      rw [List.filter_cons_of_pos (by simp [here])]
      exact ((ih tail found).cons head).trans (.swap _ _ _)

theorem values_insert_perm (m : SortedMap κ α) (k : κ) (v : α) :
    (m.insert k v).values.Perm (v :: (m.erase k).values) :=
  (place_perm k v m.ascending).map Prod.snd

theorem values_perm_of_get? {m : SortedMap κ α} {k : κ} {v : α} (found : m.get? k = some v) :
    m.values.Perm (v :: (m.erase k).values) := by
  obtain ⟨e, there, rfl⟩ := Option.map_eq_some_iff.1 found
  exact (perm_of_find? m.ascending there).map Prod.snd

theorem values_insert_perm_of_absent {m : SortedMap κ α} {k : κ} (absent : m.get? k = none)
    (v : α) : (m.insert k v).values.Perm (v :: m.values) := by
  have fresh := values_insert_perm m k v
  rwa [erase_of_absent absent] at fresh

theorem size_insert_of_absent {m : SortedMap κ α} {k : κ} (absent : m.get? k = none) (v : α) :
    (m.insert k v).size = m.size + 1 := by
  have counted := (values_insert_perm_of_absent absent v).length_eq
  simpa [values, size] using counted

theorem size_erase_of_present {m : SortedMap κ α} {k : κ} {v : α} (found : m.get? k = some v) :
    (m.erase k).size + 1 = m.size := by
  have counted := (values_perm_of_get? found).length_eq
  simpa [values, size] using counted.symm

/-- A value put in the place of another one adds nothing to the size. -/
theorem size_insert_of_present {m : SortedMap κ α} {k : κ} {old : α} (found : m.get? k = some old)
    (v : α) : (m.insert k v).size = m.size := by
  have counted := (values_insert_perm m k v).length_eq
  have before := (values_perm_of_get? found).length_eq
  rw [List.length_cons] at counted before
  simpa [values, size] using counted.trans before.symm

theorem toList_place_filter (k : κ) (v : α) (l : List (κ × α)) :
    (place k v l).filter (stays k) = l.filter (stays k) := by
  induction l with
  | nil => simp [place, stays]
  | cons head rest ih =>
    rw [place]
    split
    next => simp [stays]
    next same => simp [stays, same]
    next greater => simp [stays, greater, ih]

@[simp]
theorem get?_erase_self (m : SortedMap κ α) (k : κ) : (m.erase k).get? k = none := by
  simp [get?_erase]

theorem erase_insert (m : SortedMap κ α) (k : κ) (v : α) : (m.insert k v).erase k = m.erase k := by
  have same := toList_place_filter k v m.toList
  simp only [erase, filter, insert]
  congr 1

theorem mem_values_of_get? {m : SortedMap κ α} {k : κ} {v : α} (found : m.get? k = some v) :
    v ∈ m.values :=
  (values_perm_of_get? found).mem_iff.2 List.mem_cons_self

theorem find?_of_mem {l : List (κ × α)} {e : κ × α}
    (ascending : l.Pairwise fun a b => compare a.1 b.1 = .lt) (member : e ∈ l) :
    l.find? (fun e' => compare e.1 e'.1 == .eq) = some e := by
  induction l with
  | nil => cases member
  | cons head rest ih =>
    obtain ⟨before, tail⟩ := List.pairwise_cons.1 ascending
    rcases List.mem_cons.1 member with same | later
    · rw [same, List.find?_cons_of_pos (by simp)]
    · have greater := Std.OrientedCmp.gt_of_lt (before e later)
      rw [List.find?_cons_of_neg (by simp [greater]), ih tail later]

theorem exists_get?_of_mem_values {m : SortedMap κ α} {v : α} (member : v ∈ m.values) :
    ∃ k, m.get? k = some v := by
  obtain ⟨e, there, rfl⟩ := List.mem_map.1 member
  exact ⟨e.1, congrArg (Option.map Prod.snd) (find?_of_mem m.ascending there)⟩

theorem keys_nodup (m : SortedMap κ α) : m.keys.Nodup := by
  apply List.pairwise_map.2
  apply m.ascending.imp
  intro a b less same
  simp [same] at less

theorem isEmpty_of_absent {m : SortedMap κ α} (absent : ∀ k, m.get? k = none) :
    m.isEmpty = true := by
  apply List.isEmpty_iff.2
  apply List.eq_nil_iff_forall_not_mem.2
  intro e member
  have found : m.get? e.1 = some e.2 :=
    congrArg (Option.map Prod.snd) (find?_of_mem m.ascending member)
  rw [absent] at found
  cases found

variable [Std.LawfulEqOrd κ]

theorem mem_keys {m : SortedMap κ α} {k : κ} : k ∈ m.keys ↔ m.contains k = true := by
  constructor
  · intro member
    obtain ⟨e, there, rfl⟩ := List.mem_map.1 member
    simp [contains, get?, find?_of_mem m.ascending there]
  · intro found
    obtain ⟨v, found⟩ := Option.isSome_iff_exists.1 found
    obtain ⟨e, there, -⟩ := Option.map_eq_some_iff.1 found
    have same : compare k e.1 = .eq := by simpa using List.find?_some there
    rw [Std.LawfulEqOrd.eq_of_compare same]
    exact List.mem_map_of_mem (List.mem_of_find?_eq_some there)

theorem isEmpty_of_contains {m : SortedMap κ α} {k : κ} (there : m.contains k = true) :
    m.isEmpty = false := by
  cases empty : m.isEmpty with
  | false => rfl
  | true =>
    have member := mem_keys.2 there
    rw [keys, List.isEmpty_iff.1 empty] at member
    cases member

theorem get?_insert_ite (m : SortedMap κ α) (k k' : κ) (v : α) [Decidable (k' = k)] :
    (m.insert k v).get? k' = if k' = k then some v else m.get? k' := by
  rw [get?_insert]
  by_cases same : k' = k
  · simp [same]
  · rw [if_neg same, if_neg]
    exact fun equal => same (Std.LawfulEqOrd.eq_of_compare equal)

theorem get?_insert_ne (m : SortedMap κ α) {k k' : κ} (v : α) (apart : k' ≠ k) :
    (m.insert k v).get? k' = m.get? k' := by
  rw [get?_insert, if_neg]
  exact fun same => apart (Std.LawfulEqOrd.eq_of_compare same)

theorem get?_erase_ne (m : SortedMap κ α) {k k' : κ} (apart : k' ≠ k) :
    (m.erase k).get? k' = m.get? k' := by
  rw [get?_erase, if_neg]
  exact fun same => apart (Std.LawfulEqOrd.eq_of_compare same)

theorem mem_toList {m : SortedMap κ α} {k : κ} {v : α} :
    (k, v) ∈ m.toList ↔ m.get? k = some v := by
  constructor
  · intro member
    exact congrArg (Option.map Prod.snd) (find?_of_mem m.ascending member)
  · intro found
    obtain ⟨e, there, rfl⟩ := Option.map_eq_some_iff.1 found
    have same : compare k e.1 = .eq := by simpa using List.find?_some there
    rw [Std.LawfulEqOrd.eq_of_compare same]
    exact List.mem_of_find?_eq_some there

theorem ext_get? {m m' : SortedMap κ α} (same : ∀ k, m.get? k = m'.get? k) : m = m' := by
  have nodup : ∀ m : SortedMap κ α, m.toList.Nodup := fun m => m.ascending.imp fun less equal => by
    simp [equal] at less
  have perm : m.toList.Perm m'.toList := by
    apply (List.perm_ext_iff_of_nodup (nodup m) (nodup m')).2
    rintro ⟨k, v⟩
    rw [mem_toList, mem_toList, same]
  have antisymm : ∀ a b : κ × α, a ∈ m.toList → b ∈ m'.toList → compare a.1 b.1 = .lt →
      compare b.1 a.1 = .lt → a = b := by
    intro a b _ _ less greater
    rw [Std.OrientedCmp.gt_of_lt greater] at less
    cases less
  exact eq_of_toList (List.Perm.eq_of_pairwise antisymm m.ascending m'.ascending perm)

theorem ext_contains {keys keys' : SortedSet κ} (same : ∀ k, keys.contains k = keys'.contains k) :
    keys = keys' := by
  apply ext_get?
  intro k
  have member := same k
  unfold contains at member
  cases there : keys.get? k <;> cases there' : keys'.get? k
  · rfl
  · simp [there, there'] at member
  · simp [there, there'] at member
  · rfl

theorem insert_insert (m : SortedMap κ α) (k : κ) (v v' : α) :
    (m.insert k v).insert k v' = m.insert k v' := by
  apply ext_get?
  intro k'
  rw [get?_insert, get?_insert, get?_insert]
  split <;> rfl

theorem insert_of_get? {m : SortedMap κ α} {k : κ} {v : α} (found : m.get? k = some v) :
    m.insert k v = m := by
  apply ext_get?
  intro k'
  rw [get?_insert]
  split
  next same => rw [Std.LawfulEqOrd.eq_of_compare same, found]
  next => rfl

theorem get?_filter {m : SortedMap κ α} {keep : κ → α → Bool} {k : κ} {v : α} :
    (m.filter keep).get? k = some v ↔ m.get? k = some v ∧ keep k v = true := by
  rw [← mem_toList, ← mem_toList]
  exact List.mem_filter

theorem contains_add {keys : SortedSet κ} {k k' : κ} :
    (SortedSet.add keys k).contains k' = true ↔ k' = k ∨ keys.contains k' = true := by
  classical
  rw [contains, SortedSet.add, get?_insert_ite]
  by_cases same : k' = k <;> simp [same, contains]

end EniForwarding.SortedMap
