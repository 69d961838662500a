import EniForwarding.Backlog
import EniForwarding.Proofs.Data.SortedMap
import Mathlib.Data.List.Induction

/-! What can be in a backlog.

An entry that waits was put there, put back, or made of two writes, the later of which was
joined to the earlier. So a property that writes keep when they are joined holds of all
entries that wait if it holds of those that came in.

Each entry waits under its own key, so what is taken out can be told apart by key again.
-/

set_option autoImplicit false

namespace EniForwarding

namespace Fields

theorem mem_put {field value : String} {fields : Fields} {fv : String × String}
    (member : fv ∈ put field value fields) : fv = (field, value) ∨ fv ∈ fields := by
  induction fields with
  | nil => exact .inl (List.mem_singleton.1 member)
  | cons first rest ih =>
    unfold put at member
    split at member
    next same =>
      rcases List.mem_cons.1 member with here | later
      · exact .inl (by rw [here, same])
      · exact .inr (List.mem_cons_of_mem _ later)
    next =>
      rcases List.mem_cons.1 member with here | later
      · exact .inr (here ▸ List.mem_cons_self)
      · exact (ih later).imp id (List.mem_cons_of_mem _)

theorem mem_merge {older newer : Fields} {fv : String × String} (member : fv ∈ older.merge newer) :
    fv ∈ older ∨ fv ∈ newer := by
  unfold merge at member
  induction newer generalizing older with
  | nil => exact .inl member
  | cons first rest ih =>
    rcases ih member with put | later
    · rcases mem_put put with here | old
      · exact .inr (here ▸ List.mem_cons_self)
      · exact .inl old
    · exact .inr (List.mem_cons_of_mem _ later)

end Fields

namespace Backlog

variable {b : Backlog} {e : Entry}

theorem mem_entries : e ∈ b.entries ↔ ∃ key queue, b.queues.get? key = some queue ∧ e ∈ queue := by
  unfold entries
  rw [List.mem_flatten]
  constructor
  · rintro ⟨queue, value, member⟩
    obtain ⟨key, found⟩ := SortedMap.exists_get?_of_mem_values value
    exact ⟨key, queue, found, member⟩
  · rintro ⟨key, queue, found, member⟩
    exact ⟨queue, SortedMap.mem_values_of_get? found, member⟩

theorem mem_entries_of_mem_queue {key : String} (member : e ∈ b.queue key) : e ∈ b.entries := by
  unfold queue at member
  cases found : b.queues.get? key with
  | none => simp [found] at member
  | some queue => exact mem_entries.2 ⟨key, queue, found, by simpa [found] using member⟩

theorem mem_of_insert {key : String} {queue : List Entry} {pending : Nat}
    (member : e ∈
      ({ b with queues := b.queues.insert key queue, pending := pending } : Backlog).entries) :
    e ∈ queue ∨ e ∈ b.entries := by
  obtain ⟨other, found, at_other, inside⟩ := mem_entries.1 member
  rw [SortedMap.get?_insert_ite] at at_other
  split at at_other
  · cases at_other
    exact .inl inside
  · exact .inr (mem_entries.2 ⟨other, found, at_other, inside⟩)

theorem isSet_of_not_isDel {entry : Entry} (other : ¬entry.isDel = true) : entry.isSet = true := by
  cases op : entry.op with
  | set => simp [Entry.isSet, op]
  | del => simp [Entry.isDel, op] at other

section closed

variable {P : Entry → Prop}
  (join : ∀ last entry, last.isSet = true → entry.isSet = true → P last → P entry →
    P { last with fields := last.fields.merge entry.fields })

include join

theorem forall_joinWrite {entry : Entry} {queue : List Entry} (written : entry.isSet = true)
    (old : ∀ e ∈ queue, P e) (new : P entry) : ∀ e ∈ joinWrite entry queue, P e := by
  induction queue using joinWrite.induct with
  | case1 => simpa [joinWrite] using new
  | case2 last write =>
    have last_holds := old last List.mem_cons_self
    simpa [joinWrite, write] using join last entry write written last_holds new
  | case3 last other =>
    have last_holds := old last List.mem_cons_self
    simpa [joinWrite, other] using ⟨last_holds, new⟩
  | case4 first rest longer ih =>
    obtain ⟨first_holds, rest_holds⟩ := List.forall_mem_cons.1 old
    rw [joinWrite]
    · exact List.forall_mem_cons.2 ⟨first_holds, ih rest_holds⟩
    · exact longer

theorem forall_push {entry : Entry} (old : ∀ e ∈ b.entries, P e) (new : P entry) :
    ∀ e ∈ (b.push entry).entries, P e := by
  intro e member
  have waiting : ∀ e ∈ b.queue entry.key, P e := fun e inside => old e (mem_entries_of_mem_queue inside)
  unfold push at member
  split at member
  · rcases mem_of_insert member with here | before
    · exact List.mem_singleton.1 here ▸ new
    · exact old e before
  next other =>
    have written := isSet_of_not_isDel other
    rcases mem_of_insert member with here | before
    · exact forall_joinWrite join written waiting new e here
    · exact old e before

theorem forall_add {entries : List Entry} (old : ∀ e ∈ b.entries, P e) (new : ∀ e ∈ entries, P e) :
    ∀ e ∈ (b.add entries).entries, P e := by
  unfold add
  induction entries generalizing b with
  | nil => exact old
  | cons entry rest ih =>
    obtain ⟨first, later⟩ := List.forall_mem_cons.1 new
    exact ih (forall_push join old first) later

end closed

theorem forall_retry {P : Entry → Prop} {entry : Entry} (old : ∀ e ∈ b.entries, P e) (again : P entry) :
    ∀ e ∈ (b.retry entry).entries, P e := by
  intro e member
  rcases mem_of_insert member with here | before
  · rcases List.mem_cons.1 here with rfl | waiting
    · exact again
    · exact old e (mem_entries_of_mem_queue waiting)
  · exact old e before

section queues

@[simp]
theorem queue_clear (b : Backlog) (key : String) : b.clear.queue key = [] := rfl

theorem queue_push (b : Backlog) (entry : Entry) (key : String) :
    (b.push entry).queue key =
      if entry.key == key then if entry.isDel then [entry] else joinWrite entry (b.queue key)
      else b.queue key := by
  unfold queue push
  by_cases same : key = entry.key
  · split <;> simp [same, queue, SortedMap.get?_insert_self]
  · split <;> simp [Ne.symm same, SortedMap.get?_insert_ne _ _ same]

/-- A deletion that comes last under its key is all that waits there. -/
theorem queue_add_of_last {entries : List Entry} {key : String} {e : Entry}
    (last : (entries.filter (·.key == key)).getLast? = some e) (deletion : e.isDel = true) :
    (b.add entries).queue key = [e] := by
  -- from the right: what comes behind the deletion is under other keys
  induction entries using List.reverseRecOn with
  | nil => cases last
  | append_singleton entries entry ih =>
    have step : b.add (entries ++ [entry]) = (b.add entries).push entry := by
      rw [add, List.foldl_append]
      rfl
    rw [step, queue_push]
    by_cases own : entry.key = key
    · obtain rfl : entry = e := by simpa [own] using last
      simp [own, deletion]
    · have last : (entries.filter (·.key == key)).getLast? = some e := by simpa [own] using last
      simp [own, ih last]

theorem queue_retry (b : Backlog) (entry : Entry) (key : String) :
    (b.retry entry).queue key = if entry.key == key then entry :: b.queue key else b.queue key := by
  unfold queue retry
  dsimp only
  rw [SortedMap.get?_insert_ite]
  by_cases same : key = entry.key
  · simp [same, queue]
  · simp [same, Ne.symm same]

/-- What is put back, the last first, stands before what waits, in its own order. -/
theorem queue_retries (b : Backlog) (again : List Entry) (key : String) :
    (again.foldr (fun entry b => b.retry entry) b).queue key =
      again.filter (·.key == key) ++ b.queue key := by
  induction again with
  | nil => rfl
  | cons entry rest ih =>
    rw [List.foldr_cons, queue_retry, ih, List.filter_cons]
    split <;> rfl

theorem pending_retries (b : Backlog) (again : List Entry) :
    (again.foldr (fun entry b => b.retry entry) b).pending = b.pending + again.length := by
  induction again with
  | nil => rfl
  | cons entry rest ih =>
    rw [List.foldr_cons, List.length_cons]
    exact congrArg (· + 1) ih

theorem queue_of_get? {key : String} {queue : List Entry} (found : b.queues.get? key = some queue) :
    b.queue key = queue := by
  rw [Backlog.queue, found, Option.getD_some]

/-- Only keys under which something waits have a queue. -/
def Trim (b : Backlog) : Prop := ∀ key, key ∈ b.queues.keys ↔ b.queue key ≠ []

theorem trim_clear (b : Backlog) : b.clear.Trim := by
  intro key
  exact ⟨fun member => (List.not_mem_nil member).elim, fun waits => absurd rfl waits⟩

theorem Trim.ne_nil (trim : b.Trim) {key : String} {queue : List Entry}
    (found : b.queues.get? key = some queue) : queue ≠ [] := by
  have listed : key ∈ b.queues.keys := SortedMap.mem_keys.2 (Option.isSome_iff_exists.2 ⟨queue, found⟩)
  exact queue_of_get? found ▸ (trim key).1 listed

theorem Trim.insert (trim : b.Trim) {key : String} {queue : List Entry} {pending : Nat}
    (waits : queue ≠ []) :
    Trim { b with queues := b.queues.insert key queue, pending := pending } := by
  intro other
  have before := trim other
  unfold Backlog.queue at *
  rw [SortedMap.mem_keys, SortedMap.contains] at *
  dsimp only
  rw [SortedMap.get?_insert_ite]
  split
  · simp [waits]
  · exact before

theorem Trim.retry (trim : b.Trim) (entry : Entry) : (b.retry entry).Trim :=
  trim.insert (List.cons_ne_nil _ _)

theorem Trim.retries (trim : b.Trim) (again : List Entry) :
    (again.foldr (fun entry b => b.retry entry) b).Trim := by
  induction again with
  | nil => exact trim
  | cons entry rest ih => exact ih.retry entry

theorem entries_eq (b : Backlog) : b.entries = b.queues.keys.flatMap b.queue := by
  have each : b.queues.values = b.queues.keys.map b.queue := by
    unfold SortedMap.values SortedMap.keys
    rw [List.map_map]
    apply List.map_congr_left
    rintro ⟨key, queue⟩ member
    simp [Backlog.queue, SortedMap.mem_toList.1 member]
  rw [entries, each, List.flatMap]

end queues

section filed

/-- Every entry waits under its own key. -/
def Filed (b : Backlog) : Prop := ∀ key, ∀ e ∈ b.queue key, e.key = key

theorem filed_ofTable (table : String) (priority : Int) : (ofTable table priority).Filed :=
  fun _ _ member => by cases member

theorem filed_clear (b : Backlog) : b.clear.Filed := fun _ _ member => by cases member

theorem Filed.insert (filed : b.Filed) {entry : Entry} {queue : List Entry} {pending : Nat}
    (own : ∀ e ∈ queue, e.key = entry.key) :
    Filed { b with queues := b.queues.insert entry.key queue, pending := pending } := by
  intro key e member
  unfold Backlog.queue at member
  rw [SortedMap.get?_insert_ite] at member
  split at member
  next same => exact same ▸ own e member
  next => exact filed key e member

theorem Filed.push (filed : b.Filed) (entry : Entry) : (b.push entry).Filed := by
  unfold Backlog.push
  split
  · exact filed.insert fun e here => by rw [List.mem_singleton.1 here]
  next other =>
    have written := isSet_of_not_isDel other
    -- a write that another is joined to keeps its key
    apply filed.insert
    exact forall_joinWrite (P := fun e => e.key = entry.key) (fun _ _ _ _ last _ => last) written
      (filed entry.key) rfl

theorem Filed.add (filed : b.Filed) (entries : List Entry) : (b.add entries).Filed := by
  unfold Backlog.add
  induction entries generalizing b with
  | nil => exact filed
  | cons entry rest ih => exact ih (filed.push entry)

theorem Filed.retry (filed : b.Filed) (entry : Entry) : (b.retry entry).Filed := by
  apply filed.insert
  exact List.forall_mem_cons.2 ⟨rfl, filed entry.key⟩

theorem Filed.retries (filed : b.Filed) (again : List Entry) :
    (again.foldr (fun entry b => b.retry entry) b).Filed := by
  induction again with
  | nil => exact filed
  | cons entry rest ih => exact ih.retry entry

theorem filter_flatMap_queue (filed : b.Filed) {keys : List String} (nodup : keys.Nodup)
    (key : String) :
    (keys.flatMap b.queue).filter (·.key == key) = if key ∈ keys then b.queue key else [] := by
  induction keys with
  | nil => rfl
  | cons first rest ih =>
    obtain ⟨fresh, nodup⟩ := List.nodup_cons.1 nodup
    rw [List.flatMap_cons, List.filter_append, ih nodup]
    by_cases here : first = key
    · have own : (b.queue first).filter (·.key == key) = b.queue first :=
        List.filter_eq_self.2 fun e member => beq_iff_eq.2 ((filed first e member).trans here)
      have absent : key ∉ rest := here ▸ fresh
      rw [own, if_neg absent, here]
      simp
    · have other : (b.queue first).filter (·.key == key) = [] :=
        List.filter_eq_nil_iff.2 fun e member same =>
          here ((filed first e member).symm.trans (beq_iff_eq.1 same))
      rw [other]
      simp [Ne.symm here]

theorem Filed.filter_entries (filed : b.Filed) (key : String) :
    b.entries.filter (·.key == key) = b.queue key := by
  rw [entries_eq, filter_flatMap_queue filed b.queues.keys_nodup]
  split
  next => rfl
  next absent =>
    have none : b.queues.get? key = none := by
      simpa [SortedMap.mem_keys, SortedMap.contains] using absent
    simp [queue, none]

theorem Filed.entries_pairwise (filed : b.Filed) :
    b.entries.Pairwise fun x y => (compare x.key y.key).isLE = true := by
  rw [entries_eq, List.pairwise_flatMap]
  constructor
  · intro key _
    apply List.pairwise_of_forall_mem_list
    intro x first y second
    rw [filed key x first, filed key y second]
    simp
  · have ascending : b.queues.keys.Pairwise fun key key' => compare key key' = .lt :=
      List.pairwise_map.2 b.queues.ascending
    apply ascending.imp
    intro key key' less x first y second
    rw [filed key x first, filed key' y second, less]
    rfl

end filed

end Backlog

end EniForwarding
