import EniForwarding.CommandLine
import EniForwarding.Proofs.CallOrder
import EniForwarding.Proofs.Causes
import EniForwarding.Proofs.Pass
import EniForwarding.Proofs.Retry

/-! What keeps entries waiting.

An entry is left over of a pass only if it was tried, or one before it was, and that had a
cause: a call that failed, or a VIP that cannot be read. The switch itself refuses nothing
that the reconciler asks of it, so a call fails only if it is lost or refused out of hand.
When a snapshot is played through no call is, so entries wait in the end only for a VIP; and
without one no rule was ever written.
-/

set_option autoImplicit false

namespace EniForwarding

open Relation

theorem Served.waits_of_left {queue rest : List Entry} {log : List Attended}
    (served : Served queue log rest) (left : rest ≠ []) : ∃ a ∈ log, Attended.waits a := by
  induction served with
  | empty => exact absurd rfl left
  | gone _ _ ih =>
    obtain ⟨a, member, waits⟩ := ih left
    exact ⟨a, List.mem_cons_of_mem _ member, waits⟩
  | @stays entry e _ again => exact ⟨(entry, .error e), List.mem_singleton.2 rfl, e, rfl, again⟩

theorem Failure.isRetryable_of_status {e : Failure} (again : e.status.isRetryable = true) :
    e.isRetryable = true := by
  unfold Failure.status at again
  split at again
  next here => exact here
  next => cases again

namespace Context

/-- In between, a call was made to fail: it failed although the switch would have carried it out,
as the calls before had left the switch. -/
def Obstructed (c c' : Context) : Prop :=
  ∃ call earlier switch, c.Failed c' call earlier ∧
    (History.recalled earlier).perform call = .ok switch

/-- In an orderly history a call that fails is made to fail. -/
theorem Failed.obstructed {c c' : Context} {call : Call} {earlier : History}
    (failed : c.Failed c' call earlier) (orderly : History.Orderly c'.env.trace) :
    c.Obstructed c' := by
  obtain ⟨message, before, after⟩ := failed
  have accepts : (History.recalled earlier).Accepts call := orderly _ after
  exact ⟨call, earlier, _, ⟨message, before, after⟩,
    Switch.perform_of_accepts (History.recalled_calm earlier) accepts⟩

end Context

namespace Reconciler

variable {s t : Reconciler} {log : List Attended}

theorem continues_recordFailure (entry : Entry) (e : Failure) (s : Reconciler) :
    s.ctx.Continues (recordFailure entry e s).ctx :=
  s.ctx.continues_noted _

theorem Attends.cause (attends : Attends s log t) :
    s.ctx.Continues t.ctx ∧ ∀ a ∈ log, a.waits → s.ctx.Cause t.ctx := by
  induction attends with
  | nothing s => exact ⟨refl _, by simp⟩
  | @followed entry s s' t log result _ ih =>
    obtain ⟨on, cause⟩ := ih
    have first := (follow_candid s entry).1
    rw [result] at first
    refine ⟨IsTrans.trans _ _ _ first on, List.forall_mem_cons.2 ⟨?_, ?_⟩⟩
    · rintro ⟨e, failed, _⟩
      cases failed
    · exact fun a member waits => (cause a member waits).before first
  | @failed entry e s s' t log result _ ih =>
    obtain ⟨on, cause⟩ := ih
    have first := follow_candid s entry
    unfold Action.Candid at first
    rw [result] at first
    have recorded := continues_recordFailure entry e s'
    have begun := IsTrans.trans _ _ _ first.1 recorded
    refine ⟨IsTrans.trans _ _ _ begun on, List.forall_mem_cons.2 ⟨?_, ?_⟩⟩
    · rintro ⟨e', same, again⟩
      cases same
      exact ((first.2 e rfl (Failure.isRetryable_of_status again)).after recorded).after on
    · exact fun a member waits => (cause a member waits).before begun

theorem exists_queue_of_pending (waiting : s.pending ≠ []) : ∃ key, s.backlog.queue key ≠ [] := by
  by_contra empty
  have nothing : ∀ key, s.backlog.queue key = [] := fun key => by
    by_contra waits
    exact empty ⟨key, waits⟩
  apply waiting
  unfold pending Backlog.listing
  rw [Backlog.entries_eq, List.map_eq_nil_iff, List.flatMap_eq_nil_iff]
  exact fun key _ => nothing key

theorem hasPending_of_pending (empty : s.doTask.pending = []) :
    s.doTask.backlog.hasPending = false := by
  apply Bool.eq_false_iff.2
  intro some_wait
  obtain ⟨key, left⟩ := (hasPending_doTask s).1 some_wait
  obtain ⟨e, member⟩ := List.exists_mem_of_ne_nil _ left
  have listed : e.describe ∈ s.doTask.pending :=
    List.mem_map_of_mem (Backlog.mem_entries_of_mem_queue member)
  rw [empty] at listed
  cases listed

theorem doTask_continues (s : Reconciler) : s.ctx.Continues s.doTask.ctx := by
  obtain ⟨log, attends, -, -⟩ := pass_serves s
  exact attends.cause.1

/-- If anything waits after a pass, the pass shows a cause. -/
theorem doTask_cause (waiting : s.doTask.pending ≠ []) : s.ctx.Cause s.doTask.ctx := by
  obtain ⟨key, left⟩ := exists_queue_of_pending waiting
  obtain ⟨log, attends, -, served⟩ := pass_serves s
  obtain ⟨a, member, waits⟩ := (served key).waits_of_left left
  exact attends.cause.2 a (List.mem_filter.1 member).1 waits

theorem Lawful.run (lawful : s.Lawful) (requests : List Request) : (s.run requests).Lawful := by
  refine (lawful.advance (run_related Beside.advances ensureInitialized_advances onNeighbor_advances
    requests s ?_ fun deed s _ => act_advances deed s)).1
  exact fun inventory faults acl tunnels _ s => s.surround_advances inventory faults acl tunnels

/-- Nothing stands in the way: no call is lost or refused, and there is a VIP. -/
structure Unhindered (s : Reconciler) : Prop where
  lawful : s.Lawful
  willing : s.ctx.Willing
  vip : ∃ vip, s.ctx.outlook.vip? = .ok vip

section unhindered

variable {key : EniKey} {fields : Fields}

theorem Unhindered.obliging (clear : s.Unhindered) : s.ctx.Obliging :=
  ⟨clear.willing, clear.lawful.coherent.mirrored, clear.vip⟩

theorem Unhindered.go (clear : s.Unhindered) (lawful : t.Lawful)
    (continues : s.ctx.Continues t.ctx) : t.Unhindered :=
  ⟨lawful, continues.willing clear.willing, by rw [continues.vip?]; exact clear.vip⟩

theorem Unhindered.prepare (clear : s.Unhindered) :
    ∃ s', ensureInitialized s = (.ok (), s') ∧ s'.initialized = true ∧ s'.Unhindered := by
  have next : (ensureInitialized s).2.Unhindered :=
    clear.go (clear.lawful.advance (ensureInitialized_advances s)).1 (ensureInitialized_candid s).1
  have ready := ensureInitialized_ready s
  cases initialized : s.initialized with
  | true => exact ⟨s, ensureInitialized_of_ready initialized, initialized, clear⟩
  | false =>
    rcases ensureInitialized_cases initialized with ⟨e, s', failed, -, unwilling⟩ | ⟨s', done, -⟩
    · exact absurd clear.willing unwilling
    · rw [done] at next
      exact ⟨s', done, ready s' done, next⟩

theorem Unhindered.set_lasting (clear : s.Unhindered) {e : Failure}
    (failed : (set key fields s).1 = .error e) : e.isRetryable = false := by
  obtain ⟨s', prepared, ready, clear'⟩ := clear.prepare
  have same : set key fields s = set key fields s' := by rw [run_set, prepared]
  rw [same] at failed
  cases there : s'.enis.get? key with
  | some eni =>
    cases required : orFail (fields.require UInt64 EniAttributes.primaryField) with
    | ok primary =>
      obtain ⟨_, succeeds⟩ :=
        update_succeeds clear'.obliging clear'.lawful.kept ready there required
      cases failed.symm.trans succeeds
    | error e' =>
      have updated : Eni.update fields (eni, s'.ctx) = (.error e', eni, s'.ctx) := by
        rw [Eni.run_update, required]
      obtain ⟨counter, run⟩ := run_set_known ready there updated
      rw [run] at failed
      cases failed
      exact Eni.lasting_of_orFail required
  | none =>
    rw [run_set_new ready there] at failed
    cases declared : Eni.declare key fields s'.ctx with
    | error e' =>
      rw [declared] at failed
      cases failed
      exact Eni.lasting_of_declare s'.ctx declared
    | ok eni =>
      rw [declared] at failed
      obtain ⟨a, -, rfl⟩ := Eni.declare_spec declared
      obtain ⟨_, succeeds⟩ :=
        create_succeeds clear'.obliging key (Eni.ofAttributes_tidy a _ _).sound
      cases failed.symm.trans succeeds

theorem Unhindered.follow (clear : s.Unhindered) (entry : Entry) :
    (Reconciler.follow entry s).2.Unhindered ∧
      ∀ e, (Reconciler.follow entry s).1 = .error e → e.isRetryable = false := by
  have continues := (follow_candid s entry).1
  rw [run_follow] at continues ⊢
  cases read : Deed.ofEntry s.config.separator entry with
  | error e =>
    refine ⟨clear, fun e' failed => ?_⟩
    cases failed
    exact lasting_of_ofEntry read
  | ok deed =>
    rw [read] at continues
    refine ⟨clear.go (clear.lawful.act deed).1 continues, fun e failed => ?_⟩
    cases deed with
    | set key fields => exact clear.set_lasting failed
    | delete key =>
      obtain ⟨_, succeeds⟩ := delete_succeeds clear.obliging key
      cases failed.symm.trans succeeds

theorem Attends.unhindered (attends : Attends s log t) (clear : s.Unhindered) :
    t.Unhindered ∧ ∀ a ∈ log, ¬a.waits := by
  induction attends with
  | nothing s => exact ⟨clear, by simp⟩
  | @followed entry s s' t log result _ ih =>
    have first := (clear.follow entry).1
    rw [result] at first
    obtain ⟨final, settled⟩ := ih first
    refine ⟨final, List.forall_mem_cons.2 ⟨?_, settled⟩⟩
    rintro ⟨e, failed, _⟩
    cases failed
  | @failed entry e s s' t log result _ ih =>
    obtain ⟨first, lasting⟩ := clear.follow entry
    rw [result] at first lasting
    have recorded := first.go (first.lawful.advance (beside_recordFailure entry e s').advances).1
      (continues_recordFailure entry e s')
    obtain ⟨final, settled⟩ := ih recorded
    refine ⟨final, List.forall_mem_cons.2 ⟨?_, settled⟩⟩
    rintro ⟨e', same, again⟩
    cases same
    cases (lasting e rfl).symm.trans (Failure.isRetryable_of_status again)

/-- Where nothing stands in the way, nothing waits after a pass. -/
theorem Unhindered.doTask (clear : s.Unhindered) :
    s.doTask.Unhindered ∧ s.doTask.pending = [] := by
  obtain ⟨log, attends, -, served⟩ := pass_serves s
  have cleared : { s with backlog := s.backlog.clear }.Unhindered :=
    clear.go (clear.lawful.advance (beside_backlog s _).advances).1 (refl _)
  obtain ⟨final, settled⟩ := attends.unhindered cleared
  refine ⟨final.go (final.lawful.advance (beside_backlog _ _).advances).1 (refl _), ?_⟩
  by_contra waiting
  obtain ⟨key, left⟩ := exists_queue_of_pending waiting
  obtain ⟨a, member, waits⟩ := (served key).waits_of_left left
  exact settled a (List.mem_filter.1 member).1 waits

end unhindered

end Reconciler

end EniForwarding
