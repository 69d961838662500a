import EniForwarding.Proofs.Backlog
import EniForwarding.Proofs.Runs

/-! The deeds of a run.

Whether writes and deletions come in one by one or through the backlog, each that can be
read is a deed, which is carried out in some state of the run. What every deed of a run
does to the state it is carried out in, together with what happens beside the deeds, is
what the run does.
-/

set_option autoImplicit false

namespace EniForwarding

/-- A write or a deletion of one ENI. -/
inductive Deed where
  | set (key : EniKey) (fields : Fields)
  | delete (key : EniKey)

namespace Deed

def act : Deed → Reconciler.Step Unit
  | .set key fields => Reconciler.set key fields
  | .delete key => Reconciler.delete key

def key : Deed → EniKey
  | .set key _ => key
  | .delete key => key

def ofEntry (separator : Char) (entry : Entry) : Except Failure Deed :=
  (EniKey.read separator entry.key).map fun key =>
    match entry.op with
    | .set => .set key entry.fields
    | .del => .delete key

theorem key_of_ofEntry {separator : Char} {entry : Entry} {deed : Deed}
    (read : ofEntry separator entry = .ok deed) :
    EniKey.read separator entry.key = .ok deed.key := by
  unfold ofEntry at read
  cases named : EniKey.read separator entry.key with
  | error e =>
    rw [named] at read
    cases read
  | ok key =>
    rw [named] at read
    cases read
    cases entry.op <;> rfl

theorem ofEntry_eq_error_iff {separator : Char} {entry : Entry} {e : Failure} :
    ofEntry separator entry = .error e ↔ EniKey.read separator entry.key = .error e := by
  unfold ofEntry
  cases EniKey.read separator entry.key <;> simp [Except.map]

theorem ofEntry_eq_set_iff {separator : Char} {entry : Entry} {key : EniKey} {fields : Fields} :
    ofEntry separator entry = .ok (.set key fields) ↔
      EniKey.read separator entry.key = .ok key ∧ entry.op = .set ∧ entry.fields = fields := by
  unfold ofEntry
  cases EniKey.read separator entry.key with
  | error e => simp [Except.map]
  | ok named => cases op : entry.op <;> simp [Except.map]

end Deed

namespace Reconciler

/-- To follow an entry is to carry out the deed that it asks for. -/
theorem run_follow (entry : Entry) (s : Reconciler) :
    follow entry s =
      match Deed.ofEntry s.config.separator entry with
      | .error e => (.error e, s)
      | .ok deed => deed.act s := by
  unfold follow Deed.ofEntry
  simp only [Action.run_bind, Action.run_get, Action.run_lift]
  cases EniKey.read s.config.separator entry.key with
  | error e => rfl
  | ok key => cases entry.op <;> simp [Except.map, Deed.act]

def entryDeeds (entry : Entry) (s : Reconciler) : List (Deed × Reconciler) :=
  match Deed.ofEntry s.config.separator entry with
  | .error _ => []
  | .ok deed => [(deed, s)]

def workDeeds : List Entry → SortedSet String → Reconciler → List (Deed × Reconciler)
  | [], _, _ => []
  | entry :: rest, blocked, s =>
    if blocked.contains entry.key then workDeeds rest blocked s
    else
      entryDeeds entry s ++
        match follow entry s with
        | (.ok (), s) => workDeeds rest blocked s
        | (.error e, s) =>
          let s := recordFailure entry e s
          if e.status.isRetryable then workDeeds rest (SortedSet.add blocked entry.key) s
          else workDeeds rest blocked s

def requestDeeds (s : Reconciler) : Request → List (Deed × Reconciler)
  | .set key fields => [(.set key fields, s)]
  | .delete key => [(.delete key, s)]
  | .doTask => workDeeds s.backlog.entries ∅ { s with backlog := s.backlog.clear }
  | _ => []

/-- The deeds of a run, each with the state that it is carried out in. -/
def deeds : Reconciler → List Request → List (Deed × Reconciler)
  | _, [] => []
  | s, request :: rest => s.requestDeeds request ++ deeds (s.handle request) rest

/-- Only the backlog and the counters differ, and what has been noted. -/
structure Beside (s s' : Reconciler) : Prop where
  config : s'.config = s.config
  enis : s'.enis = s.enis
  owners : s'.owners = s.owners
  hosted : s'.hosted = s.hosted
  initialized : s'.initialized = s.initialized
  ctx : s'.ctx = s.ctx ∨ ∃ r, s'.ctx = s.ctx.noted (.audited r)

theorem beside_backlog (s : Reconciler) (backlog : Backlog) : Beside s { s with backlog := backlog } :=
  ⟨rfl, rfl, rfl, rfl, rfl, .inl rfl⟩

theorem beside_recordFailure (entry : Entry) (e : Failure) (s : Reconciler) :
    Beside s (recordFailure entry e s) :=
  ⟨rfl, rfl, rfl, rfl, rfl, .inr ⟨_, rfl⟩⟩

section along

variable {R : List (Deed × Reconciler) → Reconciler → Reconciler → Prop}
  (join : ∀ {ds ds' s s' s''}, R ds s s' → R ds' s' s'' → R (ds ++ ds') s s'')
  (backlog : ∀ (s : Reconciler) (b : Backlog), R [] s { s with backlog := b })
  (recorded : ∀ entry e s, R [] s (recordFailure entry e s))
  (deed : ∀ d s, R [(d, s)] s (d.act s).2)

include backlog deed

theorem follow_along (entry : Entry) (s : Reconciler) :
    R (entryDeeds entry s) s (follow entry s).2 := by
  rw [run_follow, entryDeeds]
  cases Deed.ofEntry s.config.separator entry with
  | error e => exact backlog s s.backlog
  | ok d => exact deed d s

include join recorded

theorem work_along (entries : List Entry) (blocked : SortedSet String) (s : Reconciler) :
    R (workDeeds entries blocked s) s (work entries blocked s).2 := by
  -- the same case distinctions as in the work itself, with what is blocked so far
  induction entries generalizing blocked s with
  | nil => exact backlog s s.backlog
  | cons entry rest ih =>
    unfold workDeeds work
    split
    next => exact ih blocked s
    next =>
      have followed := follow_along backlog deed entry s
      generalize follow entry s = outcome at followed ⊢
      obtain ⟨result, s'⟩ := outcome
      cases result with
      | ok _ => exact join followed (ih blocked s')
      | error e =>
        have noted : R (entryDeeds entry s) s (recordFailure entry e s') := by
          simpa using join followed (recorded entry e s')
        dsimp only
        split
        · exact join noted (ih _ _)
        · exact join noted (ih _ _)

theorem doTask_along (s : Reconciler) :
    R (workDeeds s.backlog.entries ∅ { s with backlog := s.backlog.clear }) s s.doTask := by
  have worked := work_along join backlog recorded deed s.backlog.entries ∅
    { s with backlog := s.backlog.clear }
  -- what waits goes back to the backlog
  have put := join (join (backlog s _) worked) (backlog _ s.doTask.backlog)
  rw [List.nil_append, List.append_nil] at put
  exact put

/-- What a run does is told along its deeds: each deed adds what it does, and all that happens beside
the deeds adds nothing. -/
theorem run_along (prepare : ∀ s : Reconciler, R [] s (ensureInitialized s).2)
    (neighbor : ∀ (u : NeighborUpdate) (s : Reconciler), R [] s (onNeighbor u s).2)
    (requests : List Request) (s : Reconciler)
    (surround : ∀ inventory faults rejectsAcl rejectsTunnels,
      .surroundings inventory faults rejectsAcl rejectsTunnels ∈ requests →
        ∀ s : Reconciler, R [] s (s.surround inventory faults rejectsAcl rejectsTunnels)) :
    R (deeds s requests) s (s.run requests) := by
  induction requests generalizing s with
  | nil => exact backlog s s.backlog
  | cons request rest ih =>
    have later : R (deeds (s.handle request) rest) (s.handle request) (run (s.handle request) rest) :=
      ih _ fun i f a t member => surround i f a t (List.mem_cons_of_mem _ member)
    refine join ?_ later
    cases request with
    | enqueue entries => exact backlog s _
    | doTask => exact doTask_along join backlog recorded deed s
    | set key fields => exact deed (.set key fields) s
    | delete key => exact deed (.delete key) s
    | prepare => exact prepare s
    | neighbor update => exact neighbor update s
    | surroundings inventory faults rejectsAcl rejectsTunnels =>
      exact surround inventory faults rejectsAcl rejectsTunnels List.mem_cons_self s

end along

def RelatedAlong (R : Reconciler → Reconciler → Prop) (ds : List (Deed × Reconciler))
    (s s' : Reconciler) : Prop :=
  (∀ d t, (d, t) ∈ ds → R t (d.act t).2) → R s s'

section related

variable {R : Reconciler → Reconciler → Prop}

theorem related_act (d : Deed) (s : Reconciler) : RelatedAlong R [(d, s)] s (d.act s).2 :=
  fun each => each d s (List.mem_singleton_self _)

theorem RelatedAlong.join [IsTrans Reconciler R] {ds ds' : List (Deed × Reconciler)}
    {s s' s'' : Reconciler} (first : RelatedAlong R ds s s') (second : RelatedAlong R ds' s' s'') :
    RelatedAlong R (ds ++ ds') s s'' := by
  intro each
  have before : R s s' := first fun d t member => each d t (List.mem_append_left _ member)
  have after : R s' s'' := second fun d t member => each d t (List.mem_append_right _ member)
  exact IsTrans.trans _ _ _ before after

variable (beside : ∀ {s s' : Reconciler}, Beside s s' → R s s')

include beside

theorem follow_related (entry : Entry) (s : Reconciler)
    (deed : ∀ d s', (d, s') ∈ entryDeeds entry s → R s' (d.act s').2) : R s (follow entry s).2 :=
  follow_along (fun s b _ => beside (beside_backlog s b)) related_act entry s deed

variable [IsTrans Reconciler R]

theorem work_related (entries : List Entry) (blocked : SortedSet String) (s : Reconciler)
    (deed : ∀ d s', (d, s') ∈ workDeeds entries blocked s → R s' (d.act s').2) :
    R s (work entries blocked s).2 :=
  work_along RelatedAlong.join (fun s b _ => beside (beside_backlog s b))
    (fun entry e s _ => beside (beside_recordFailure entry e s)) related_act entries blocked s deed

/-- What each deed does, what preparing and news about neighbors do, and what a change of the
surroundings does, the run does. -/
theorem run_related (prepare : ∀ s : Reconciler, R s (ensureInitialized s).2)
    (neighbor : ∀ (u : NeighborUpdate) (s : Reconciler), R s (onNeighbor u s).2)
    (requests : List Request) (s : Reconciler)
    (surround : ∀ inventory faults rejectsAcl rejectsTunnels,
      .surroundings inventory faults rejectsAcl rejectsTunnels ∈ requests →
        ∀ s : Reconciler, R s (s.surround inventory faults rejectsAcl rejectsTunnels))
    (deed : ∀ d s', (d, s') ∈ deeds s requests → R s' (d.act s').2) : R s (s.run requests) := by
  have along : RelatedAlong R (deeds s requests) s (s.run requests) := by
    apply run_along RelatedAlong.join (fun s b _ => beside (beside_backlog s b))
      (fun entry e s _ => beside (beside_recordFailure entry e s)) related_act
    · exact fun s _ => prepare s
    · exact fun u s _ => neighbor u s
    · exact fun i f a t member s _ => surround i f a t member s
  exact along deed

end related

/-- The ENI under a key stays as it is, or stays away. -/
def Spared (key : EniKey) (s s' : Reconciler) : Prop := s'.enis.get? key = s.enis.get? key

section spared

variable {key other : EniKey}

instance : Std.Refl (Spared key) := ⟨fun _ => rfl⟩

instance : IsTrans Reconciler (Spared key) := ⟨fun _ _ _ first second => second.trans first⟩

theorem onEni_spared (apart : other ≠ key) (eni : Eni) (x : Eni.Step Unit) (s : Reconciler) :
    (onEni other eni x).Leads (Spared key) s fun _ _ => True :=
  ⟨SortedMap.get?_insert_ne _ _ (Ne.symm apart), fun _ _ => trivial⟩

theorem create_spared (apart : other ≠ key) (eni : Eni) (s : Reconciler) :
    (create other eni).Leads (Spared key) s fun _ _ => True := by
  have kept : ∀ eni (s' : Reconciler), Spared key s' (keep other eni s') :=
    fun eni s' => SortedMap.get?_insert_ne s'.enis eni (Ne.symm apart)
  unfold Action.Leads create
  split
  next => exact ⟨kept _ { s with ctx := _ }, fun _ _ => trivial⟩
  next =>
    split
    next => exact ⟨rfl, fun _ _ => trivial⟩
    next => exact ⟨kept _ { s with ctx := _ }, fun _ _ => trivial⟩

theorem act_spared {deed : Deed} (apart : deed.key ≠ key) (s : Reconciler) :
    deed.act.Leads (Spared key) s fun _ _ => True := by
  cases deed with
  | set other fields =>
    have prepared : ensureInitialized.Leads (Spared key) s fun _ _ => True := by
      refine ⟨?_, fun _ _ => trivial⟩
      rw [Spared, (ensureInitialized_calm s).1.enis]
    refine .bind prepared fun _ s _ => .get_bind ?_
    split
    · exact .bind (onEni_spared apart _ _ s) fun _ _ _ => .modify rfl trivial
    · exact .lift_bind fun eni _ => create_spared apart eni s
  | delete other =>
    refine .get_bind ?_
    split
    · exact .pure trivial
    · refine .bind (onEni_spared apart _ _ s) fun _ _ _ => .modify ?_ trivial
      exact SortedMap.get?_erase_ne _ (Ne.symm apart)

end spared

/-- Nothing differs but what preparing is about: the context, the owners of addresses, and the mark
that all is prepared. -/
def Prepares (s s' : Reconciler) : Prop :=
  ∃ c owners ready, s' = { s with ctx := c, owners := owners, initialized := ready }

instance : Std.Refl Prepares := ⟨fun s => ⟨s.ctx, s.owners, s.initialized, rfl⟩⟩

instance : IsTrans Reconciler Prepares := by
  constructor
  rintro s s' s'' ⟨c, owners, ready, rfl⟩ ⟨c', owners', ready', rfl⟩
  exact ⟨c', owners', ready', rfl⟩

section prepares

theorem onContext_prepares {α : Type} (x : Action Context α) (s : Reconciler) :
    (onContext x).Leads Prepares s fun _ _ => True :=
  ⟨⟨(x s.ctx).2, s.owners, s.initialized, rfl⟩, fun _ _ => trivial⟩

theorem watch_prepares (dpu : Dpu) (s : Reconciler) : (watch dpu).Leads Prepares s fun _ _ => True := by
  unfold watch
  split
  · exact .pure trivial
  next ip _ =>
    refine .modify_bind ⟨s.ctx, s.owners.insert ip dpu.id, s.initialized, rfl⟩ ?_
    exact .bind (onContext_prepares _ _) fun _ _ _ => .pure trivial

theorem watchAll_prepares (dpus : List Dpu) (s : Reconciler) :
    (dpus.forM watch : Step Unit).Leads Prepares s fun _ _ => True := by
  induction dpus generalizing s with
  | nil => exact .pure trivial
  | cons dpu rest ih => exact .bind (watch_prepares dpu s) fun _ s' _ => ih s'

theorem ensureInitialized_prepares (s : Reconciler) : Prepares s (ensureInitialized s).2 := by
  have leads : ensureInitialized.Leads Prepares s fun _ _ => True := by
    refine .get_bind ?_
    split
    · exact .pure trivial
    · refine .bind (onContext_prepares _ s) fun _ s _ => .get_bind ?_
      refine .bind (onContext_prepares _ s) fun _ s _ => ?_
      have created : createTable.Leads Prepares s fun _ _ => True :=
        .get_bind (.bind (onContext_prepares _ s) fun _ s _ => onContext_prepares _ s)
      refine .bind created fun _ s _ => .get_bind (.bind (watchAll_prepares _ s) fun _ s _ => ?_)
      exact .modify_bind ⟨s.ctx, s.owners, true, rfl⟩ (.get_bind (onContext_prepares _ _))
  exact leads.1

end prepares

structure Rests (s s' : Reconciler) : Prop where
  backlog : s'.backlog = s.backlog
  config : s'.config = s.config

instance : Std.Refl Rests := ⟨fun _ => ⟨rfl, rfl⟩⟩

instance : IsTrans Reconciler Rests := by
  constructor
  intro s s' s'' first second
  exact ⟨second.backlog.trans first.backlog, second.config.trans first.config⟩

section rests

theorem onEni_rests (key : EniKey) (eni : Eni) (x : Eni.Step Unit) (s : Reconciler) :
    (onEni key eni x).Leads Rests s fun _ _ => True :=
  ⟨⟨rfl, rfl⟩, fun _ _ => trivial⟩

theorem ensureInitialized_rests (s : Reconciler) :
    ensureInitialized.Leads Rests s fun _ _ => True := by
  obtain ⟨c, owners, ready, same⟩ := ensureInitialized_prepares s
  exact ⟨⟨by rw [same], by rw [same]⟩, fun _ _ => trivial⟩

theorem create_rests (key : EniKey) (eni : Eni) (s : Reconciler) :
    (create key eni).Leads Rests s fun _ _ => True := by
  unfold Action.Leads create
  split
  · exact ⟨⟨rfl, rfl⟩, fun _ _ => trivial⟩
  · split <;> exact ⟨⟨rfl, rfl⟩, fun _ _ => trivial⟩

theorem act_rests (deed : Deed) (s : Reconciler) : deed.act.Leads Rests s fun _ _ => True := by
  cases deed with
  | set key fields =>
    refine .bind (ensureInitialized_rests s) fun _ s _ => .get_bind ?_
    split
    · exact .bind (onEni_rests _ _ _ s) fun _ _ _ => .modify ⟨rfl, rfl⟩ trivial
    · exact .lift_bind fun eni _ => create_rests key eni s
  | delete key =>
    refine .get_bind ?_
    split
    · exact .pure trivial
    · exact .bind (onEni_rests _ _ _ s) fun _ _ _ => .modify ⟨rfl, rfl⟩ trivial

theorem wake_rests (added : Bool) (key : EniKey) (s : Reconciler) :
    (wake added key).Leads Rests s fun _ _ => True := by
  refine .get_bind ?_
  split
  · exact .pure trivial
  · exact onEni_rests _ _ _ s

theorem onNeighbor_rests (u : NeighborUpdate) (s : Reconciler) :
    (onNeighbor u).Leads Rests s fun _ _ => True := by
  refine .get_bind ?_
  split
  · exact .pure trivial
  · exact .modify_bind ⟨rfl, rfl⟩ (.get_bind (.visit (wake_rests u.added) _))

theorem follow_rests (entry : Entry) (s : Reconciler) : Rests s (follow entry s).2 := by
  rw [run_follow]
  split
  · exact refl s
  next deed _ => exact (act_rests deed s).1

theorem work_rests (entries : List Entry) (blocked : SortedSet String) (s : Reconciler) :
    Rests s (work entries blocked s).2 ∧ ∀ e ∈ (work entries blocked s).1, e ∈ entries := by
  induction entries generalizing blocked s with
  | nil => exact ⟨refl s, fun e member => member⟩
  | cons entry rest ih =>
    unfold work
    split
    next =>
      obtain ⟨rests, waiting⟩ := ih blocked s
      refine ⟨rests, fun e member => ?_⟩
      exact (List.mem_cons.1 member).elim (fun here => here ▸ List.mem_cons_self)
        fun later => List.mem_cons_of_mem _ (waiting e later)
    next =>
      have followed := follow_rests entry s
      generalize follow entry s = outcome at followed ⊢
      obtain ⟨e | _, s'⟩ := outcome
      · have recorded : Rests s (recordFailure entry e s') := ⟨followed.backlog, followed.config⟩
        dsimp only
        split
        · obtain ⟨rests, waiting⟩ := ih (SortedSet.add blocked entry.key) (recordFailure entry e s')
          refine ⟨IsTrans.trans _ _ _ recorded rests, fun e member => ?_⟩
          exact (List.mem_cons.1 member).elim (fun here => here ▸ List.mem_cons_self)
            fun later => List.mem_cons_of_mem _ (waiting e later)
        · obtain ⟨rests, waiting⟩ := ih blocked (recordFailure entry e s')
          exact ⟨IsTrans.trans _ _ _ recorded rests,
            fun e member => List.mem_cons_of_mem _ (waiting e member)⟩
      · obtain ⟨rests, waiting⟩ := ih blocked s'
        exact ⟨IsTrans.trans _ _ _ followed rests,
          fun e member => List.mem_cons_of_mem _ (waiting e member)⟩

end rests

section asked

variable {P : Entry → Prop} {Q : Deed → Prop} {separator : Char}

variable (read : ∀ e d, P e → Deed.ofEntry separator e = .ok d → Q d)

include read

end asked

end Reconciler

end EniForwarding
