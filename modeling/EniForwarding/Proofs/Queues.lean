import EniForwarding.Proofs.Backlog.Bookkeeping
import EniForwarding.Proofs.Pass

/-! What can wait under one key.

A backlog that entries are put back into may grow without bound. The reconciler only puts back what
a pass has left over of a queue, which is a part of it from some entry to the end, and does so when
nothing else waits. Entries that come in later replace what is there or join its last write. So what
waits under a key is a write, a deletion, or a deletion with a write behind it.
-/

set_option autoImplicit false

namespace EniForwarding

namespace Backlog

/-- A write, a deletion, or a deletion with a write behind it. -/
def Compact (queue : List Entry) : Prop :=
  queue.map Entry.op = [.set] ∨ queue.map Entry.op = [.del] ∨ queue.map Entry.op = [.del, .set]

namespace Compact

variable {queue rest : List Entry}

theorem length_le (compact : Compact queue) : queue.length ≤ 2 := by
  rw [← List.length_map (f := Entry.op)]
  rcases compact with ops | ops | ops <;> simp [ops]

theorem pairwise (compact : Compact queue) :
    queue.Pairwise fun earlier later => earlier.op = .set → later.op ≠ .del := by
  have ordered : (queue.map Entry.op).Pairwise fun earlier later =>
      earlier = Operation.set → later ≠ .del := by
    rcases compact with ops | ops | ops <;> rw [ops] <;> decide
  exact List.pairwise_map.1 ordered

theorem suffix (compact : Compact queue) (part : rest <:+ queue) (waits : rest ≠ []) :
    Compact rest := by
  have ops := part.map Entry.op
  have some_op : rest.map Entry.op ≠ [] := by simpa using waits
  unfold Compact at *
  rcases compact with write | deletion | both
  · rw [write, List.suffix_cons_iff, List.suffix_nil] at ops
    exact .inl (ops.resolve_right some_op)
  · rw [deletion, List.suffix_cons_iff, List.suffix_nil] at ops
    exact .inr (.inl (ops.resolve_right some_op))
  · rw [both, List.suffix_cons_iff, List.suffix_cons_iff, List.suffix_nil] at ops
    rcases ops with all | write | none
    · exact .inr (.inr all)
    · exact .inl write
    · exact absurd none some_op

end Compact

def Bounded (b : Backlog) : Prop := ∀ key, b.queue key ≠ [] → Compact (b.queue key)

variable {b : Backlog}

theorem bounded_clear (b : Backlog) : b.clear.Bounded := fun _ waits => absurd rfl waits

theorem compact_joinWrite {entry : Entry} {queue : List Entry} (written : entry.op = .set)
    (compact : queue ≠ [] → Compact queue) : Compact (joinWrite entry queue) := by
  match queue with
  | [] => exact .inl (by simp [joinWrite, written])
  | [last] =>
    cases op : last.op with
    | set => exact .inl (by simp [joinWrite, Entry.isSet, op])
    | del => exact .inr (.inr (by simp [joinWrite, Entry.isSet, op, written]))
  | [first, last] =>
    have ops : first.op = .del ∧ last.op = .set := by simpa [Compact] using compact (by simp)
    exact .inr (.inr (by simp [joinWrite, Entry.isSet, ops]))
  | _ :: _ :: _ :: _ => exact absurd (compact (by simp)).length_le (by simp)

theorem Bounded.push (bounded : b.Bounded) (entry : Entry) : (b.push entry).Bounded := by
  intro key
  rw [queue_push]
  split
  next =>
    intro _
    cases op : entry.op with
    | del => exact .inr (.inl (by simp [Entry.isDel, op]))
    | set =>
      rw [if_neg (by simp [Entry.isDel, op])]
      exact compact_joinWrite op (bounded key)
  next => exact bounded key

theorem Bounded.add (bounded : b.Bounded) (entries : List Entry) : (b.add entries).Bounded := by
  unfold Backlog.add
  induction entries generalizing b with
  | nil => exact bounded
  | cons entry rest ih => exact ih (bounded.push entry)

end Backlog

/-- What a queue's service leaves over of it is its end. -/
theorem Served.suffix {queue rest : List Entry} {log : List Attended}
    (served : Served queue log rest) : rest <:+ queue := by
  induction served with
  | empty => exact List.suffix_refl _
  | gone _ _ ih => exact ih.trans (List.suffix_cons _ _)
  | stays => exact List.suffix_refl _

namespace Reconciler

theorem booked_doTask (s : Reconciler) : s.doTask.backlog.Booked := by
  rw [doTask_eq]
  exact s.backlog.booked_clear.retries _

theorem bounded_doTask (s : Reconciler) (filed : s.backlog.Filed) (bounded : s.backlog.Bounded) :
    s.doTask.backlog.Bounded := by
  obtain ⟨log, -, -, serves⟩ := s.pass_serves
  intro key waits
  have part : s.doTask.backlog.queue key <:+ s.backlog.queue key :=
    filed.filter_entries key ▸ (serves key).suffix
  have some_waited : s.backlog.queue key ≠ [] :=
    fun none => waits (List.suffix_nil.1 (none ▸ part))
  exact (bounded key some_waited).suffix part waits

/-- However entries come in and fail, what waits under a key of the reconciler is a write, a
deletion, or a deletion with a write behind it. So no more than two entries wait under a key, and no
write waits before a deletion. -/
theorem run_queues_compact (config : Config) (inventory : Inventory) (requests : List Request) :
    let b := ((fresh config inventory).run requests).backlog
    (∀ key queue, b.queues.get? key = some queue →
      Backlog.Compact queue ∧ ∀ e ∈ queue, e.key = key) ∧
    ∀ key, (b.entries.filter (·.key == key)).length ≤ 2 ∧
      (b.entries.filter (·.key == key)).Pairwise fun earlier later =>
        earlier.op = .set → later.op ≠ .del := by
  intro b
  obtain ⟨booked, bounded⟩ : b.Booked ∧ b.Bounded := by
    apply run_backlog (P := fun b => b.Booked ∧ b.Bounded)
    · exact fun b entries holds => ⟨holds.1.add entries, holds.2.add entries⟩
    · exact fun s holds => ⟨s.booked_doTask, s.bounded_doTask holds.1.filed holds.2⟩
    · let start := Backlog.ofTable Config.entryTable 0
      exact ⟨start.booked_clear, start.bounded_clear⟩
  constructor
  · intro key queue found
    obtain rfl : b.queue key = queue := Backlog.queue_of_get? found
    exact ⟨bounded key (booked.trim.ne_nil found), booked.filed key⟩
  · intro key
    rw [booked.filed.filter_entries key]
    by_cases waits : b.queue key = []
    · rw [waits]
      exact ⟨Nat.zero_le 2, .nil⟩
    · exact ⟨(bounded key waits).length_le, (bounded key waits).pairwise⟩

end Reconciler

end EniForwarding
