import EniForwarding.Proofs.Deeds

/-! One pass over the backlog.

A pass takes everything out, and attends to the entries by key. The queue of each key is
served on its own: in its own order, up to the first entry that fails for a reason that may
pass. That entry and all behind it are put back as they were, and nothing else is. What one
key's entries come to has no influence on which entries of another key are attended to.
-/

set_option autoImplicit false

namespace EniForwarding

abbrev Attended := Entry × Except Failure Unit

def Attended.waits (attended : Attended) : Prop :=
  ∃ e, attended.2 = .error e ∧ e.status.isRetryable = true

/-- A queue is served in order until an entry has to wait. What was attended to before that is
gone, and the entry that has to wait is left over with all behind it. -/
inductive Served : List Entry → List Attended → List Entry → Prop where
  | empty : Served [] [] []
  | gone {entry : Entry} {result : Except Failure Unit} {queue rest : List Entry}
      {log : List Attended} (settled : ¬Attended.waits (entry, result)) :
      Served queue log rest → Served (entry :: queue) ((entry, result) :: log) rest
  | stays {entry : Entry} {e : Failure} {queue : List Entry}
      (again : e.status.isRetryable = true) :
      Served (entry :: queue) [(entry, .error e)] (entry :: queue)

namespace Reconciler

/-- The entries of the log are attended to one after the other, with these results. -/
inductive Attends : Reconciler → List Attended → Reconciler → Prop where
  | nothing (s : Reconciler) : Attends s [] s
  | followed {entry : Entry} {s s' t : Reconciler} {log : List Attended}
      (result : follow entry s = (.ok (), s')) :
      Attends s' log t → Attends s ((entry, .ok ()) :: log) t
  | failed {entry : Entry} {e : Failure} {s s' t : Reconciler} {log : List Attended}
      (result : follow entry s = (.error e, s')) :
      Attends (recordFailure entry e s') log t → Attends s ((entry, .error e) :: log) t

abbrev under (key : String) (entries : List Entry) : List Entry := entries.filter (·.key == key)

abbrev logUnder (key : String) (log : List Attended) : List Attended :=
  log.filter (·.1.key == key)

/-- What a pass does with the entries of one key, if something blocks the key or nothing does. -/
structure Passes (blocked : Bool) (queue : List Entry) (log : List Attended) (rest : List Entry) :
    Prop where
  held : blocked = true → log = [] ∧ rest = queue
  served : blocked = false → Served queue log rest

section work

variable {entry : Entry} {entries waiting : List Entry} {log : List Attended}
  {blocked : SortedSet String}

theorem passes_held (blocks : blocked.contains entry.key = true) {key : String}
    (later : Passes (blocked.contains key) (under key entries) (logUnder key log)
      (under key waiting)) :
    Passes (blocked.contains key) (under key (entry :: entries)) (logUnder key log)
      (under key (entry :: waiting)) := by
  unfold under at *
  rw [List.filter_cons, List.filter_cons]
  by_cases own : entry.key = key
  · have blocked : blocked.contains key = true := own ▸ blocks
    obtain ⟨none, all⟩ := later.held blocked
    exact ⟨fun _ => ⟨none, by simp [own, all]⟩, fun free => by simp [blocked] at free⟩
  · simpa [own] using later

theorem passes_gone (free : blocked.contains entry.key = false) {result : Except Failure Unit}
    (settled : ¬Attended.waits (entry, result)) {key : String}
    (later : Passes (blocked.contains key) (under key entries) (logUnder key log)
      (under key waiting)) :
    Passes (blocked.contains key) (under key (entry :: entries))
      (logUnder key ((entry, result) :: log)) (under key waiting) := by
  unfold under logUnder at *
  rw [List.filter_cons, List.filter_cons]
  by_cases own : entry.key = key
  · have free : blocked.contains key = false := own ▸ free
    have served := later.served free
    refine ⟨fun blocks => by simp [free] at blocks, fun _ => ?_⟩
    simpa [own] using served.gone settled
  · simpa [own] using later

/-- The entry that has to wait blocks its own key and no other. -/
theorem passes_stays (free : blocked.contains entry.key = false) {e : Failure}
    (again : e.status.isRetryable = true) {key : String}
    (later : Passes ((SortedSet.add blocked entry.key).contains key) (under key entries)
      (logUnder key log) (under key waiting)) :
    Passes (blocked.contains key) (under key (entry :: entries))
      (logUnder key ((entry, .error e) :: log)) (under key (entry :: waiting)) := by
  unfold under logUnder at *
  rw [List.filter_cons, List.filter_cons, List.filter_cons]
  by_cases own : entry.key = key
  · have free : blocked.contains key = false := own ▸ free
    obtain ⟨none, all⟩ := later.held (SortedMap.contains_add.2 (.inl own.symm))
    refine ⟨fun blocks => by simp [free] at blocks, fun _ => ?_⟩
    simpa [own, none, all] using Served.stays again
  · have same : (SortedSet.add blocked entry.key).contains key = blocked.contains key := by
      rw [Bool.eq_iff_iff, SortedMap.contains_add]
      simp [Ne.symm own]
    rw [same] at later
    simpa [own] using later

end work

theorem work_serves (entries : List Entry) (blocked : SortedSet String) (s : Reconciler) :
    ∃ log, Attends s log (work entries blocked s).2 ∧ (log.map Prod.fst).Sublist entries ∧
      ∀ key, Passes (blocked.contains key) (under key entries) (logUnder key log)
        (under key (work entries blocked s).1) := by
  -- the same case distinctions as in the work itself, with what is blocked so far
  induction entries generalizing blocked s with
  | nil =>
    refine ⟨[], .nothing s, .slnil, fun key => ?_⟩
    exact ⟨fun _ => ⟨rfl, rfl⟩, fun _ => .empty⟩
  | cons entry rest ih =>
    unfold work
    split
    next blocks =>
      obtain ⟨log, attends, sublist, each⟩ := ih blocked s
      exact ⟨log, attends, sublist.cons entry, fun key => passes_held blocks (each key)⟩
    next free =>
      have free : blocked.contains entry.key = false := Bool.eq_false_iff.2 free
      cases outcome : follow entry s with | mk result s' =>
      cases result with
      | ok _ =>
        obtain ⟨log, attends, sublist, each⟩ := ih blocked s'
        have settled : ¬Attended.waits (entry, .ok ()) := by
          rintro ⟨e, failed, -⟩
          cases failed
        exact ⟨(entry, .ok ()) :: log, .followed outcome attends, sublist.cons_cons entry,
          fun key => passes_gone free settled (each key)⟩
      | error e =>
        dsimp only
        split
        next again =>
          obtain ⟨log, attends, sublist, each⟩ :=
            ih (SortedSet.add blocked entry.key) (recordFailure entry e s')
          exact ⟨(entry, .error e) :: log, .failed outcome attends, sublist.cons_cons entry,
            fun key => passes_stays free again (each key)⟩
        next lasting =>
          obtain ⟨log, attends, sublist, each⟩ := ih blocked (recordFailure entry e s')
          have settled : ¬Attended.waits (entry, .error e) := by
            rintro ⟨e', same, again⟩
            cases same
            exact lasting again
          exact ⟨(entry, .error e) :: log, .failed outcome attends, sublist.cons_cons entry,
            fun key => passes_gone free settled (each key)⟩

abbrev pass (s : Reconciler) : List Entry × Reconciler :=
  work s.backlog.entries ∅ { s with backlog := s.backlog.clear }

theorem pass_backlog (s : Reconciler) : s.pass.2.backlog = s.backlog.clear :=
  (work_rests s.backlog.entries ∅ { s with backlog := s.backlog.clear }).1.backlog

theorem doTask_eq (s : Reconciler) :
    s.doTask = { s.pass.2 with
      backlog := s.pass.1.foldr (fun entry b => b.retry entry) s.backlog.clear } := by
  rw [← pass_backlog]
  rfl

theorem queue_doTask (s : Reconciler) (key : String) :
    s.doTask.backlog.queue key = under key s.pass.1 := by
  rw [doTask_eq]
  exact (Backlog.queue_retries _ _ key).trans (List.append_nil _)

theorem hasPending_doTask (s : Reconciler) :
    s.doTask.backlog.hasPending = true ↔ ∃ key, s.doTask.backlog.queue key ≠ [] := by
  have counted : s.doTask.backlog.pending = s.pass.1.length := by
    rw [doTask_eq]
    exact (Backlog.pending_retries _ _).trans (Nat.zero_add _)
  unfold Backlog.hasPending
  simp only [counted, queue_doTask, decide_eq_true_eq, List.length_pos_iff_exists_mem, ne_eq,
    List.filter_eq_nil_iff, not_forall]
  constructor
  · rintro ⟨e, member⟩
    exact ⟨e.key, e, member, by simp⟩
  · rintro ⟨_, e, member, _⟩
    exact ⟨e, member⟩

theorem trim_doTask (s : Reconciler) : s.doTask.backlog.Trim := by
  rw [doTask_eq]
  exact s.backlog.trim_clear.retries _

/-- Only two requests change the backlog. What both of them keep is kept by every run. -/
theorem run_backlog {P : Backlog → Prop} (add : ∀ b entries, P b → P (b.add entries))
    (again : ∀ s : Reconciler, P s.backlog → P s.doTask.backlog) (requests : List Request)
    (s : Reconciler) (start : P s.backlog) : P (s.run requests).backlog := by
  have rests {s s' : Reconciler} (rests : Rests s s') (holds : P s.backlog) : P s'.backlog :=
    rests.backlog ▸ holds
  induction requests generalizing s with
  | nil => exact start
  | cons request rest ih =>
    apply ih
    cases request with
    | enqueue entries => exact add s.backlog entries start
    | doTask => exact again s start
    | set key fields => exact rests (act_rests (.set key fields) s).1 start
    | delete key => exact rests (act_rests (.delete key) s).1 start
    | prepare => exact rests (ensureInitialized_rests s).1 start
    | neighbor update => exact rests (onNeighbor_rests update s).1 start
    | surroundings => exact start

theorem run_filed (requests : List Request) (s : Reconciler) (filed : s.backlog.Filed) :
    (s.run requests).backlog.Filed := by
  refine run_backlog (fun b entries filed => filed.add entries) (fun s _ => ?_) requests s filed
  rw [doTask_eq]
  exact s.backlog.filed_clear.retries _

/-- The queue of each key is served on its own, and what is left over of it waits afterwards. -/
theorem pass_serves (s : Reconciler) :
    ∃ log, Attends { s with backlog := s.backlog.clear } log s.pass.2 ∧
      (log.map Prod.fst).Sublist s.backlog.entries ∧
      ∀ key, Served (under key s.backlog.entries) (logUnder key log)
        (s.doTask.backlog.queue key) := by
  obtain ⟨log, attends, sublist, each⟩ :=
    work_serves s.backlog.entries ∅ { s with backlog := s.backlog.clear }
  refine ⟨log, attends, sublist, fun key => ?_⟩
  rw [queue_doTask]
  exact (each key).served rfl

/-- A pass loses, doubles and reorders nothing. Each key's queue is served on its own, what is
left over of it is what waits under the key afterwards, and the backlog reports just that. -/
theorem doTask_serves_each_key (s : Reconciler) :
    ∃ log,
      Attends { s with backlog := s.backlog.clear } log
        { s.doTask with backlog := s.backlog.clear } ∧
      (log.map Prod.fst).Sublist s.backlog.entries ∧
      (∀ key, Served (under key s.backlog.entries) (logUnder key log)
        (s.doTask.backlog.queue key)) ∧
      (s.backlog.Filed → ∀ key, under key s.backlog.entries = s.backlog.queue key) ∧
      (s.doTask.backlog.hasPending = true ↔ ∃ key, s.doTask.backlog.queue key ≠ []) ∧
      (∀ key, key ∈ s.doTask.backlog.queues.keys ↔ s.doTask.backlog.queue key ≠ []) ∧
      s.doTask.pending =
        (s.doTask.backlog.queues.keys.flatMap s.doTask.backlog.queue).map Entry.describe := by
  obtain ⟨log, attends, sublist, served⟩ := pass_serves s
  refine ⟨log, ?_, sublist, served, fun filed key => filed.filter_entries key,
    hasPending_doTask s, trim_doTask s, ?_⟩
  · -- but for the backlog, the pass leaves what the work leaves
    have left : { s.pass.2 with backlog := s.backlog.clear } = s.pass.2 := by
      rw [← pass_backlog]
    rw [doTask_eq]
    exact left.symm ▸ attends
  · exact congrArg (List.map Entry.describe) s.doTask.backlog.entries_eq

def sampleBacklog : Reconciler :=
  (fresh {} ((Inventory.empty.addDpu 2 "cluster" "10.0.0.2" "20.0.0.2").addVnet "Vnet_1000"
    ⟨some 1234, some "mock_tunnel"⟩)).enqueue
    [⟨"Vnet_1000:aa:bb:cc:dd:ee:ff", .del, []⟩,
      ⟨"Vnet_2000:aa:bb:cc:dd:ee:ff", .set, [("vdpu_ids", "2"), ("primary_vdpu", "2")]⟩,
      ⟨"Vnet_1000:aa:bb:cc:dd:ee:ff", .set, [("vdpu_ids", "2"), ("primary_vdpu", "2")]⟩]

theorem sample_serves_each_key : sampleBacklog.backlog.Filed ∧
    ∃ log, Served (sampleBacklog.backlog.queue "Vnet_1000:aa:bb:cc:dd:ee:ff") log
      (sampleBacklog.doTask.backlog.queue "Vnet_1000:aa:bb:cc:dd:ee:ff") := by
  have filed : sampleBacklog.backlog.Filed :=
    (Backlog.filed_ofTable Config.entryTable 0).add _
  obtain ⟨log, -, -, served, queues, -⟩ := doTask_serves_each_key sampleBacklog
  have here := served "Vnet_1000:aa:bb:cc:dd:ee:ff"
  rw [queues filed] at here
  exact ⟨filed, _, here⟩

end Reconciler

end EniForwarding
