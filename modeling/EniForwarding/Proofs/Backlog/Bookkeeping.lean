import EniForwarding.Proofs.Backlog
import Mathlib.Algebra.GroupWithZero.Nat

/-! The books that a backlog keeps.

Beside its queues a backlog keeps a running count of what waits. An entry that comes in makes the
count one larger, unless it is a write that joins the one before it, or a deletion that takes the
place of a whole queue. Whatever is asked of a backlog, its count stays the number of entries that
can be taken out, each entry waits under its own key, and there is no queue without an entry.
-/

set_option autoImplicit false

namespace EniForwarding.Backlog

inductive Step where
  | add (entries : List Entry)
  | retry (entry : Entry)
  | drain
  | clear

def step (b : Backlog) : Step → Backlog
  | .add entries => b.add entries
  | .retry entry => b.retry entry
  | .drain => b.drain.2
  | .clear => b.clear

def run (b : Backlog) (steps : List Step) : Backlog := steps.foldl step b

/-- What waits is counted, and every queue has an entry and only such as have its key. -/
structure Booked (b : Backlog) : Prop where
  counted : b.pending = b.entries.length
  filed : b.Filed
  trim : b.Trim

variable {b : Backlog}

theorem length_entries_insert (b : Backlog) (key : String) (queue : List Entry) (pending : Nat) :
    ({ b with queues := b.queues.insert key queue, pending := pending } : Backlog).entries.length +
      (b.queue key).length = b.entries.length + queue.length := by
  have placed := (SortedMap.values_insert_perm b.queues key queue).flatten.length_eq
  rw [List.flatten_cons, List.length_append] at placed
  unfold entries Backlog.queue
  cases found : b.queues.get? key with
  | none =>
    rw [SortedMap.erase_of_absent found] at placed
    simp only [Option.getD_none, List.length_nil]
    omega
  | some old =>
    have before := (SortedMap.values_perm_of_get? found).flatten.length_eq
    rw [List.flatten_cons, List.length_append] at before
    simp only [Option.getD_some]
    omega

theorem length_joinWrite (entry : Entry) (queue : List Entry) :
    (joinWrite entry queue).length = queue.length + if endsInWrite queue then 0 else 1 := by
  induction queue using joinWrite.induct with
  | case1 => rfl
  | case2 last write => simp [joinWrite, endsInWrite, write]
  | case3 last other => simp [joinWrite, endsInWrite, other]
  | case4 first rest longer ih =>
    have nonempty : rest ≠ [] := fun empty => longer (by rw [empty])
    have ends : endsInWrite (first :: rest) = endsInWrite rest := by
      simp [endsInWrite, List.getLast?_cons, List.getLast?_eq_some_getLast nonempty]
    rw [joinWrite, List.length_cons, ih, ends, List.length_cons]
    · omega
    · exact longer

theorem joinWrite_ne_nil (entry : Entry) (queue : List Entry) : joinWrite entry queue ≠ [] := by
  unfold joinWrite
  split
  · simp
  · split <;> simp
  · simp

namespace Booked

theorem queue_le (booked : b.Booked) (key : String) : (b.queue key).length ≤ b.pending := by
  rw [booked.counted, ← booked.filed.filter_entries key]
  exact List.length_filter_le _ _

theorem push (booked : b.Booked) (entry : Entry) : (b.push entry).Booked where
  counted := by
    have fewer := booked.queue_le entry.key
    have counted := booked.counted
    unfold Backlog.push
    split
    next =>
      have placed := b.length_entries_insert entry.key [entry]
        (b.pending - (b.queue entry.key).length + 1)
      rw [List.length_singleton] at placed
      dsimp only
      omega
    next =>
      have placed := b.length_entries_insert entry.key (joinWrite entry (b.queue entry.key))
        (if endsInWrite (b.queue entry.key) then b.pending else b.pending + 1)
      rw [length_joinWrite] at placed
      dsimp only
      cases joins : endsInWrite (b.queue entry.key) <;>
        simp only [joins, if_true, if_false, Bool.false_eq_true] at placed ⊢ <;> omega
  filed := booked.filed.push entry
  trim := by
    unfold Backlog.push
    split
    · exact booked.trim.insert (List.cons_ne_nil _ _)
    · exact booked.trim.insert (joinWrite_ne_nil _ _)

theorem add (booked : b.Booked) (entries : List Entry) : (b.add entries).Booked := by
  unfold Backlog.add
  induction entries generalizing b with
  | nil => exact booked
  | cons entry rest ih => exact ih (booked.push entry)

theorem retry (booked : b.Booked) (entry : Entry) : (b.retry entry).Booked where
  counted := by
    have counted := booked.counted
    have placed := b.length_entries_insert entry.key (entry :: b.queue entry.key) (b.pending + 1)
    rw [List.length_cons] at placed
    unfold Backlog.retry
    dsimp only
    omega
  filed := booked.filed.retry entry
  trim := booked.trim.retry entry

theorem retries (booked : b.Booked) (again : List Entry) :
    (again.foldr (fun entry b => b.retry entry) b).Booked := by
  induction again with
  | nil => exact booked
  | cons entry rest ih => exact ih.retry entry

end Booked

theorem booked_clear (b : Backlog) : b.clear.Booked :=
  ⟨rfl, b.filed_clear, b.trim_clear⟩

theorem Booked.step (booked : b.Booked) (step : Step) : (b.step step).Booked := by
  cases step with
  | add entries => exact booked.add entries
  | retry entry => exact booked.retry entry
  | drain | clear => exact b.booked_clear

theorem Booked.run (booked : b.Booked) (steps : List Step) : (b.run steps).Booked := by
  unfold Backlog.run
  induction steps generalizing b with
  | nil => exact booked
  | cons first rest ih => exact ih (booked.step first)

/-- Whatever has been asked of a backlog, it counts what waits in it, and that is what is listed and
what can be taken out. Each queue has an entry and only such as have its key. What is taken out comes
queue by queue, in the order of the keys. And no queue is longer than the count that it is taken off
when a deletion takes its place. -/
theorem bookkeeping_exact (table : String) (priority : Int) (steps : List Step) :
    let b := (ofTable table priority).run steps
    (b.pending = (b.queues.values.map List.length).sum ∧ b.pending = b.listing.length ∧
      b.pending = b.drain.1.length ∧ (b.hasPending = true ↔ b.drain.1 ≠ [])) ∧
    (∀ key queue, b.queues.get? key = some queue → queue ≠ [] ∧ ∀ e ∈ queue, e.key = key) ∧
    (b.drain.1 = b.queues.keys.flatMap b.queue ∧ b.queues.keys.Pairwise (· < ·)) ∧
    ∀ (before : List Entry) (key : String),
      ((b.add before).queue key).length ≤ (b.add before).pending := by
  have booked : ((ofTable table priority).run steps).Booked :=
    Booked.run (ofTable table priority).booked_clear steps
  intro b
  refine ⟨⟨?_, ?_, booked.counted, ?_⟩, fun key queue found => ⟨booked.trim.ne_nil found, ?_⟩,
    ⟨b.entries_eq, ?_⟩, fun before key => (booked.add before).queue_le key⟩
  · rw [booked.counted, entries, List.length_flatten]
  · rw [booked.counted, listing, List.length_map]
  · rw [hasPending, decide_eq_true_iff, booked.counted, List.length_pos_iff]
    rfl
  · exact queue_of_get? found ▸ booked.filed key
  · exact List.pairwise_map.2 (b.queues.ascending.imp compareOfLessAndEq_eq_lt.1)

end EniForwarding.Backlog
