import EniForwarding.Proofs.PassLog
import EniForwarding.Proofs.Telling

/-! Preparing is done once, and before everything else.

Until the table has been written there is nothing but calls on the table and its type, and no
ENI; the call that writes it is followed by none of its kind. So the trace of a run falls into
two parts with that call between them. What preparing has loaded and noted stays from then on.
-/

set_option autoImplicit false

namespace EniForwarding

open Tables

namespace History

/-- Only the table and its type have been tried to be written, and the table in vain. -/
def Preparing (h : History) : Prop :=
  ∀ call refusal, Event.called call refusal ∈ h →
    call.isTable = true ∧ (call.kind = .setTable → refusal ≠ none)

/-- The table of this name has been written, and no table before or after that. -/
def Opened (table : String) (h : History) : Prop :=
  ∃ later fields earlier, h = later ++ .called (.setTable table fields) none :: earlier ∧
    (∀ call refusal, Event.called call refusal ∈ later → call.isTable = false) ∧ Preparing earlier

variable {later earlier : History} {table : String}

theorem Preparing.append (after : Preparing later) (before : Preparing earlier) :
    Preparing (later ++ earlier) :=
  fun call refusal member => (List.mem_append.1 member).elim (after call refusal) (before call refusal)

theorem Opened.append (opened : Opened table earlier)
    (after : ∀ call refusal, Event.called call refusal ∈ later → call.isTable = false) :
    Opened table (later ++ earlier) := by
  obtain ⟨middle, fields, first, rfl, others, preparing⟩ := opened
  refine ⟨later ++ middle, fields, first, (List.append_assoc _ _ _).symm, ?_, preparing⟩
  intro call refusal member
  rcases List.mem_append.1 member with new | old
  · exact after call refusal new
  · exact others call refusal old

theorem Preparing.done_eq (preparing : Preparing earlier) :
    (done earlier).filter (·.kind = .setTable) = [] := by
  rw [List.filter_eq_nil_iff]
  intro call member
  have called := (preparing call none (mem_done.1 member)).2
  simpa using called

theorem Opened.done_eq (opened : Opened table earlier) :
    ∃ fields, (done earlier).filter (·.kind = .setTable) = [.setTable table fields] := by
  obtain ⟨later, fields, first, rfl, others, preparing⟩ := opened
  have none_later : (done later).filter (·.kind = .setTable) = [] := by
    rw [List.filter_eq_nil_iff]
    intro call member
    have other := others call none (mem_done.1 member)
    cases call <;> simp [Call.kind, Call.isTable] at other ⊢
  refine ⟨fields, ?_⟩
  rw [done_append, done, List.filter_append, List.filter_append, preparing.done_eq, none_later]
  rfl

/-- Whatever is not about tables is tried only when the table has been written. -/
theorem Opened.before (opened : Opened table later) {call : Call} {refusal : Option String}
    (suffix : .called call refusal :: earlier <:+ later) (work : call.isTable = false) :
    ∃ fields, Call.setTable table fields ∈ done earlier := by
  obtain ⟨middle, fields, first, rfl, -, preparing⟩ := opened
  obtain ⟨last, same⟩ := suffix
  have not_preparing : Event.called call refusal ∉ first := fun member => by
    simp [(preparing call refusal member).1] at work
  have not_opening : Event.called call refusal ≠ .called (.setTable table fields) none := fun same => by
    cases same
    cases work
  refine ⟨fields, mem_done.2 ?_⟩
  rcases List.append_eq_append_iff.1 same with ⟨later, -, split⟩ | ⟨later, -, split⟩
  · cases later with
    | nil => exact absurd (List.cons.inj split).1 not_opening
    | cons e later =>
      rw [(List.cons.inj split).2]
      simp
  · have member : Event.called call refusal ∈ Event.called (.setTable table fields) none :: first := by
      rw [split]
      simp
    rcases List.mem_cons.1 member with opening | before
    · exact absurd opening not_opening
    · exact absurd before not_preparing

theorem Preparing.of_told (told : Told (fun call => call.isTable = true ∧ call.kind ≠ .setTable) later) :
    Preparing later := by
  intro call refusal member
  obtain ⟨table, other⟩ := told.allowed member
  exact ⟨table, fun same => absurd same other⟩

theorem Preparing.of_refused {fields : Fields} {r : Audit.Record} (message : String) :
    Preparing [.audited r, .called (.setTable table fields) (some message)] := by
  intro call refusal member
  simp only [List.mem_cons, reduceCtorEq, Event.called.injEq, List.not_mem_nil, or_false,
    false_or] at member
  obtain ⟨rfl, rfl⟩ := member
  exact ⟨rfl, fun _ => by simp⟩

end History

namespace Reconciler

/-- Before the table has been written there is nothing but attempts to write it; it is written
once, and everything else comes after that. -/
structure Guarded (s : Reconciler) : Prop where
  closed : s.initialized = false →
    s.enis = ∅ ∧ s.owners = ∅ ∧ s.hosted = ∅ ∧ History.Preparing s.ctx.env.trace
  opened : s.initialized = true → History.Opened s.config.table s.ctx.env.trace

theorem createTable_cases (s : Reconciler) :
    ∃ fields r, (∃ e s' message, createTable s = (.error e, s') ∧ s'.ctx.env.trace =
        [.audited r, .called (.setTable s.config.table fields) (some message)] ++ s.ctx.env.trace) ∨
      ∃ s', createTable s = (.ok (), s') ∧ s'.ctx.env.trace =
        [.audited r, .called (.setTable s.config.table fields) none] ++ s.ctx.env.trace := by
  simp only [createTable, Action.run_bind, Action.run_get]
  generalize named : ((Acl.Table.ofType s.config.table s.config.tableType).withDescription
    Config.tableDescription).withPorts s.ctx.env.inventory.bindPoints.members = table
  have name : table.name = s.config.table := by rw [← named]; rfl
  rw [← name]
  refine ⟨table.toFields, ?_⟩
  rcases s.ctx.call_called (.setTable table.name table.toFields) with ⟨message, run⟩ | ⟨c, run, trace⟩
  · have run : Context.setTable table.name table.toFields s.ctx = _ := run
    simp only [onContext, Context.auditFailure, Action.onFailure, run]
    exact ⟨_, .inl ⟨_, _, message, rfl, rfl⟩⟩
  · have run : Context.setTable table.name table.toFields s.ctx = _ := run
    simp only [onContext, Context.auditFailure, Action.onFailure, run]
    exact ⟨_, .inr ⟨_, rfl, congrArg (List.cons _) trace⟩⟩

/-- What preparing adds to the trace: it tries in vain to write the table, or writes it. -/
theorem ensureInitialized_trace {s : Reconciler} (unready : s.initialized = false) :
    ∃ later : History, (ensureInitialized s).2.ctx.env.trace = later ++ s.ctx.env.trace ∧
      (∀ e, (ensureInitialized s).1 = .error e → later.Preparing) ∧
      ((ensureInitialized s).1 = .ok () → later.Opened s.config.table) := by
  obtain ⟨dpus, run⟩ := ensureInitialized_of_unready unready
  rw [run, Action.run_bind]
  have typed : createType.Attests ctx (fun call => call.isTable = true ∧ call.kind ≠ .setTable)
      (·.isRetryable = true) := createType_attests (fun _ _ => ⟨rfl, nofun⟩) fun _ => id
  obtain ⟨⟨first, trace, told⟩, -⟩ := typed s.load
  have trace : (createType s.load).2.ctx.env.trace = first ++ s.ctx.env.trace := trace
  have config : (createType s.load).2.config = s.config := rfl
  generalize createType s.load = outcome at trace config
  obtain ⟨e | _, s₁⟩ := outcome
  · exact ⟨first, trace, fun _ _ => .of_told told, nofun⟩
  dsimp only at trace config ⊢
  rw [Action.run_bind]
  obtain ⟨fields, r, ⟨e, s₂, message, run, trace'⟩ | ⟨s₂, run, trace'⟩⟩ := createTable_cases s₁
  · rw [run]
    refine ⟨_ ++ first, by rw [trace', trace, List.append_assoc], fun _ _ => ?_, nofun⟩
    exact (History.Preparing.of_refused message).append (.of_told told)
  -- from here on no call is made, and nothing fails
  have watched : (watchLocals dpus).Attests ctx (fun _ => False) fun _ => False :=
    watchLocals_attests dpus
  obtain ⟨⟨last, trace'', told'⟩, succeeds⟩ := watched s₂
  rw [run]
  refine ⟨last ++ [.audited r, .called (.setTable s₁.config.table fields) none] ++ first, ?_,
    fun e failed => (succeeds e failed).elim, fun _ => ?_⟩
  · rw [trace'', trace', trace]
    simp
  · refine ⟨last ++ [.audited r], fields, first, by simp [config], ?_, .of_told told⟩
    intro call refusal member
    have told : Event.called call refusal ∈ last := by simpa using member
    exact (told'.allowed told).elim

theorem ensureInitialized_guarded {s : Reconciler} (guarded : s.Guarded) :
    (ensureInitialized s).2.Guarded := by
  cases ready : s.initialized with
  | true => rwa [ensureInitialized_of_ready ready]
  | false =>
    obtain ⟨enis, owners, hosted, preparing⟩ := guarded.closed ready
    obtain ⟨later, trace, failed, prepared⟩ := ensureInitialized_trace ready
    rcases ensureInitialized_cases ready with ⟨e, s', run, idles, -⟩ | ⟨s', run, -, tables⟩
    · rw [run] at trace failed ⊢
      have same : s'.tables = s.load.tables := idles.tables
      simp only [tables, Tables.mk.injEq] at same
      obtain ⟨-, -, enis', owners', hosted', ready'⟩ := same
      refine ⟨fun _ => ⟨enis'.trans enis, owners'.trans owners, hosted'.trans hosted, ?_⟩, ?_⟩
      · rw [trace]
        exact (failed e rfl).append preparing
      · exact fun initialized => by simp [ready', load, ready] at initialized
    · rw [run] at trace prepared ⊢
      have config : s'.config = s.config := congrArg Tables.config tables
      have ready' : s'.initialized = true := congrArg Tables.initialized tables
      refine ⟨fun unready => by simp [ready'] at unready, fun _ => ?_⟩
      obtain ⟨after, fields, before, rfl, others, preparing'⟩ := prepared rfl
      rw [config, trace, List.append_assoc, List.cons_append]
      exact ⟨after, fields, _, rfl, others, preparing'.append preparing⟩

section guarded

variable {s s' : Reconciler}

theorem Guarded.go (guarded : s.Guarded) (kept : s.Kept) (ready : s.initialized = true)
    (advances : Advances s s') (tells : s.ctx.Tells (·.isTable = false) s'.ctx) :
    s'.Guarded := by
  obtain ⟨-, config, -⟩ := advances.follows kept
  have ready' : s'.initialized = true := ((advances.turns kept).frozen ready).1
  obtain ⟨later, trace, told⟩ := tells
  refine ⟨fun unready => by simp [ready'] at unready, fun _ => ?_⟩
  rw [config, trace]
  exact (guarded.opened ready).append fun call refusal => told.allowed

/-- What the reconciler does keeps its tables in order, and what is guarded guarded. -/
structure Guards (s s' : Reconciler) : Prop where
  advances : Advances s s'
  guards : s.Kept → s.Guarded → s'.Guarded

instance : IsTrans Reconciler Guards := by
  constructor
  intro s s' s'' first second
  refine ⟨IsTrans.trans _ _ _ first.advances second.advances, fun kept guarded => ?_⟩
  exact second.guards (first.advances.follows kept).1 (first.guards kept guarded)

theorem Beside.guards (beside : Beside s s') : Guards s s' := by
  refine ⟨beside.advances, fun _ guarded => ?_⟩
  have trace : ∃ later : History, s'.ctx.env.trace = later ++ s.ctx.env.trace ∧
      ∀ call refusal, Event.called call refusal ∉ later := by
    rcases beside.ctx with same | ⟨r, noted⟩
    · exact ⟨[], by rw [same]; rfl, by simp⟩
    · exact ⟨[.audited r], by rw [noted]; rfl, by simp⟩
  obtain ⟨later, trace, silent⟩ := trace
  constructor
  · rw [beside.initialized, beside.enis, beside.owners, beside.hosted, trace]
    intro unready
    obtain ⟨enis, owners, hosted, preparing⟩ := guarded.closed unready
    refine ⟨enis, owners, hosted, .append (fun call refusal member => ?_) preparing⟩
    exact absurd member (silent call refusal)
  · rw [beside.initialized, beside.config, trace]
    intro ready
    exact (guarded.opened ready).append fun call refusal member => absurd member (silent call refusal)

theorem prepare_guards (s : Reconciler) : Guards s (ensureInitialized s).2 :=
  ⟨ensureInitialized_advances s, fun _ => ensureInitialized_guarded⟩

theorem surround_guards (inventory : Inventory) (faults : Faults) (rejectsAcl rejectsTunnels : Bool)
    (s : Reconciler) : Guards s (s.surround inventory faults rejectsAcl rejectsTunnels) :=
  ⟨surround_advances inventory faults rejectsAcl rejectsTunnels s,
    fun _ guarded => ⟨guarded.closed, guarded.opened⟩⟩

theorem onNeighbor_guards (u : NeighborUpdate) (s : Reconciler) : Guards s (onNeighbor u s).2 := by
  refine ⟨onNeighbor_advances u s, fun kept guarded => ?_⟩
  cases ready : s.initialized with
  | true => exact guarded.go kept ready (onNeighbor_advances u s) (onNeighbor_works u s).1
  | false =>
    -- nobody is known at the address
    obtain ⟨-, owners, -⟩ := guarded.closed ready
    rw [run_onNeighbor, owners]
    exact guarded

theorem act_guards (deed : Deed) (s : Reconciler) : Guards s (deed.act s).2 := by
  refine ⟨act_advances deed s, fun kept guarded => ?_⟩
  cases deed with
  | set key fields =>
    have written : ∀ s' : Reconciler, s'.initialized = true → Guards s' (set key fields s').2 := by
      refine fun s' ready => ⟨set_advances key fields s', fun kept guarded => ?_⟩
      have tells : s'.ctx.Tells (·.isTable = false) (set key fields s').2.ctx := by
        rw [set_eq, Action.run_bind, ensureInitialized_of_ready ready]
        exact (write_attests key fields s').1
      exact guarded.go kept ready (set_advances key fields s') tells
    exact (set_related (prepare_guards s) written).guards kept guarded
  | delete key =>
    cases ready : s.initialized with
    | true => exact guarded.go kept ready (act_advances (.delete key) s) (delete_works key s).1
    | false =>
      obtain ⟨enis, -⟩ := guarded.closed ready
      have absent : s.enis.get? key = none := by rw [enis]; rfl
      show (delete key s).2.Guarded
      rwa [run_delete_unknown absent]

end guarded

theorem Visits.guards {s s' : Reconciler} {requests : List Request} (visits : Visits s requests s') :
    Guards s s' :=
  visits.related Beside.guards prepare_guards onNeighbor_guards surround_guards
    fun deed t _ => act_guards deed t

theorem fresh_guarded (config : Config) (inventory : Inventory) : (fresh config inventory).Guarded :=
  ⟨fun _ => ⟨rfl, rfl, rfl, fun _ _ member => nomatch member⟩, nofun⟩

/-- What is asked of a pass while preparing fails is put off. -/
theorem waits_unprepared {entry : Entry} {s t : Reconciler} {key : EniKey} {e : Failure}
    (attempted : (entry, t) ∈ s.passLog) (write : entry.op = .set)
    (read : EniKey.read t.config.separator entry.key = .ok key)
    (failed : (ensureInitialized t).1 = .error e) :
    entry ∈ s.doTask.backlog.queue entry.key := by
  have again : e.isRetryable = true := (ensureInitialized_attests t).2 e failed
  have asked : Deed.ofEntry t.config.separator entry = .ok (.set key entry.fields) :=
    Deed.ofEntry_eq_set_iff.2 ⟨read, write, rfl⟩
  have followed : (follow entry t).1 = .error e := by
    rw [run_follow, asked]
    show (set key entry.fields t).1 = .error e
    rw [run_set]
    generalize ensureInitialized t = outcome at failed
    obtain ⟨result, t'⟩ := outcome
    cases failed
    rfl
  rw [queue_doTask]
  refine List.mem_filter.2 ⟨waits_of_attempt attempted (failed?_eq_some.2 followed) ?_, by simp⟩
  simp [Failure.status, again, Status.isRetryable]

/-- Preparing is done once and opens the way for everything else. In every state that a run goes
through, even in the middle of a pass, the table has been written once or not at all, as the flag
says; whatever was tried on rules and tunnel next hops came after that; before that there is no
ENI and nobody is noted, and a write that finds preparing fail stays queued; and after that the
registry and the owners stay as they are to the end of the run, the owners being just the DPUs on
the switch under their addresses. -/
theorem initialization_gates (config : Config) (inventory : Inventory) (requests : List Request)
    {s : Reconciler} (visits : Visits (fresh config inventory) requests s) :
    (∃ fields, s.trace.done.filter (·.kind = .setTable) =
        if s.initialized then [.setTable config.table fields] else []) ∧
      (∀ call refusal earlier, .called call refusal :: earlier <:+ s.trace →
        call.isTable = false → ∃ fields, .setTable config.table fields ∈ History.done earlier) ∧
      (s.initialized = false → s.enis = ∅ ∧ s.owners = ∅ ∧ s.hosted = ∅) ∧
      (∀ entry t key e, (entry, t) ∈ s.passLog → entry.op = .set →
        EniKey.read config.separator entry.key = .ok key → (ensureInitialized t).1 = .error e →
          entry ∈ s.doTask.backlog.queue entry.key) ∧
      (s.initialized = true →
        ((fresh config inventory).run requests).initialized = true ∧
        ((fresh config inventory).run requests).ctx.dpus = s.ctx.dpus ∧
        ((fresh config inventory).run requests).owners = s.owners ∧
        ∀ ip, (∀ id, s.owners.get? ip = some id → Local s.ctx.dpus id ip) ∧
          ((s.owners.get? ip).isSome = true ↔ ∃ id, Local s.ctx.dpus id ip)) := by
  have kept : (fresh config inventory).Kept := .fresh config inventory
  have guards := visits.guards
  have guarded := guards.guards kept (fresh_guarded config inventory)
  obtain ⟨kept', configured, -⟩ := guards.advances.follows kept
  have configured : s.config = config := configured
  refine ⟨?_, ?_, ?_, ?_, fun ready => ?_⟩
  · cases ready : s.initialized with
    | false =>
      obtain ⟨-, -, -, preparing⟩ := guarded.closed ready
      exact ⟨[], preparing.done_eq⟩
    | true =>
      obtain ⟨fields, written⟩ := (guarded.opened ready).done_eq
      exact ⟨fields, configured ▸ written⟩
  · intro call refusal earlier suffix work
    cases ready : s.initialized with
    | false =>
      obtain ⟨-, -, -, preparing⟩ := guarded.closed ready
      have table := (preparing call refusal (suffix.mem List.mem_cons_self)).1
      simp [table] at work
    | true => exact configured ▸ (guarded.opened ready).before suffix work
  · intro unready
    obtain ⟨enis, owners, hosted, -⟩ := guarded.closed unready
    exact ⟨enis, owners, hosted⟩
  · intro entry t key e attempted write read failed
    have same : t.config = config := (config_of_passLog attempted).trans configured
    exact waits_unprepared attempted write (same ▸ read) failed
  · have onward : Advances s ((fresh config inventory).run requests) :=
      visits.onward Beside.advances ensureInitialized_advances onNeighbor_advances surround_advances
        fun deed t _ => act_advances deed t
    obtain ⟨ready', dpus, owners⟩ := (onward.turns kept').frozen ready
    have inOrder : s.tables.InOrder :=
      (guards.advances.turns kept).inOrder (fresh_inOrder config inventory)
    refine ⟨ready', dpus, owners, fun ip => ?_⟩
    obtain ⟨owned, noted⟩ := inOrder.owners ready ip
    refine ⟨owned, fun some => ?_, fun ⟨id, here⟩ => noted id here⟩
    obtain ⟨id, known⟩ := Option.isSome_iff_exists.1 some
    exact ⟨id, owned id known⟩

def sampleLate : List Request :=
  [.surroundings sampleInventory .none true false,
    .enqueue [⟨"Vnet_1000:aa:bb:cc:dd:ee:ff", .set, [("vdpu_ids", "2,3"), ("primary_vdpu", "2")]⟩],
    .doTask, .surroundings sampleInventory .none false false, .doTask]

/-- The refused table leaves nothing behind it, and the table is written once all the same. -/
theorem sample_late_gates :
    ((fresh {} sampleInventory).run (sampleLate.take 3)).enis = ∅ ∧
      ((fresh {} sampleInventory).run sampleLate).rules.length = 2 ∧
      ∃ fields, ((fresh {} sampleInventory).run sampleLate).trace.done.filter (·.kind = .setTable) =
        [.setTable "ENI" fields] := by
  obtain ⟨-, -, empty, -⟩ := initialization_gates {} sampleInventory (sampleLate.take 3) (.inl rfl)
  obtain ⟨⟨fields, once⟩, -⟩ := initialization_gates {} sampleInventory sampleLate (.inl rfl)
  have early : ((fresh {} sampleInventory).run (sampleLate.take 3)).initialized = false := by
    decide +kernel
  have late : ((fresh {} sampleInventory).run sampleLate).initialized = true := by decide +kernel
  rw [late] at once
  exact ⟨(empty early).1, by decide +kernel, fields, once⟩

end Reconciler

end EniForwarding
