import EniForwarding.Proofs.Eni

/-! Runs of the reconciler.

A run handles requests one after the other; between two of them the surroundings may
change in any way, and within one of them any call may be lost, since a plan decides
about each call on its own. Whatever a request does, the world goes through steps. The
only step with a condition is that of an ENI being set up, so the number of rules is
taken there: those in the table and those that come in.
-/

set_option autoImplicit false

namespace EniForwarding

open Relation

/-- What can be asked of a reconciler, and what can happen around it. -/
inductive Request where
  | enqueue (entries : List Entry)
  | doTask
  | set (key : EniKey) (fields : Fields)
  | delete (key : EniKey)
  | prepare
  | neighbor (update : NeighborUpdate)
  | surroundings (inventory : Inventory) (faults : Faults) (rejectsAcl rejectsTunnels : Bool)

namespace Reconciler

def fresh (config : Config) (inventory : Inventory) : Reconciler :=
  ofEnvironment config (.ofInventory inventory)

/-- Put other surroundings around the rules and tunnel next hops of the switch. -/
def surround (inventory : Inventory) (faults : Faults) (rejectsAcl rejectsTunnels : Bool)
    (s : Reconciler) : Reconciler :=
  let switch := { s.ctx.env.switch with rejectsAcl := rejectsAcl, rejectsTunnels := rejectsTunnels }
  let env := { s.ctx.env with inventory := inventory, switch := switch, faults := faults }
  { s with ctx := { s.ctx with env := env } }

def handle (s : Reconciler) : Request → Reconciler
  | .enqueue entries => s.enqueue entries
  | .doTask => s.doTask
  | .set key fields => (set key fields s).2
  | .delete key => (delete key s).2
  | .prepare => (ensureInitialized s).2
  | .neighbor update => (onNeighbor update s).2
  | .surroundings inventory faults rejectsAcl rejectsTunnels =>
    s.surround inventory faults rejectsAcl rejectsTunnels

def run (s : Reconciler) (requests : List Request) : Reconciler := requests.foldl handle s

def rules (s : Reconciler) : List Rule := s.enis.values.flatMap Eni.rules

def newcomers (key : EniKey) (fields : Fields) (s : Reconciler) : List Rule :=
  match ensureInitialized s with
  | (.error _, _) => []
  | (.ok (), s) =>
    match s.enis.get? key, Eni.declare key fields s.ctx with
    | none, .ok eni => eni.rules
    | _, _ => []

def setHeadcount (key : EniKey) (fields : Fields) (s : Reconciler) : Nat :=
  (newcomers key fields s).length + s.rules.length

def entryHeadcount (entry : Entry) (s : Reconciler) : Nat :=
  match EniKey.read s.config.separator entry.key, entry.op with
  | .ok key, .set => setHeadcount key entry.fields s
  | _, _ => s.rules.length

def workHeadcounts : List Entry → SortedSet String → Reconciler → List Nat
  | [], _, _ => []
  | entry :: rest, blocked, s =>
    if blocked.contains entry.key then workHeadcounts rest blocked s
    else
      entryHeadcount entry s ::
        match follow entry s with
        | (.ok (), s) => workHeadcounts rest blocked s
        | (.error e, s) =>
          let s := recordFailure entry e s
          if e.status.isRetryable then workHeadcounts rest (SortedSet.add blocked entry.key) s
          else workHeadcounts rest blocked s

def requestHeadcounts (s : Reconciler) : Request → List Nat
  | .set key fields => [setHeadcount key fields s]
  | .doTask => workHeadcounts s.backlog.entries ∅ { s with backlog := s.backlog.clear }
  | _ => []

/-- The number of rules at each point of a run where it may have grown; the rules of an ENI
count from the moment that it is being set up. -/
def headcounts : Reconciler → List Request → List Nat
  | _, [] => []
  | s, request :: rest => s.requestHeadcounts request ++ headcounts (s.handle request) rest

def ownedIn (enis : SortedMap EniKey Eni) : Multiset OwnedRule := enis.values.flatMap Eni.owned

def world (s : Reconciler) : World := ⟨ownedIn s.enis, s.ctx⟩

section owned

variable {enis : SortedMap EniKey Eni} {key : EniKey} {eni : Eni}

theorem ownedIn_of_get? (there : enis.get? key = some eni) :
    ownedIn enis = eni.owned + ownedIn (enis.erase key) := by
  have values := (SortedMap.values_perm_of_get? there).flatMap_right Eni.owned
  rw [ownedIn, Multiset.coe_eq_coe.2 values]
  simp [ownedIn]

theorem ownedIn_insert (enis : SortedMap EniKey Eni) (key : EniKey) (eni : Eni) :
    ownedIn (enis.insert key eni) = eni.owned + ownedIn (enis.erase key) := by
  have values := (SortedMap.values_insert_perm enis key eni).flatMap_right Eni.owned
  rw [ownedIn, Multiset.coe_eq_coe.2 values]
  simp [ownedIn]

theorem card_ownedIn (s : Reconciler) : (ownedIn s.enis).card = s.rules.length := by
  simp [ownedIn, rules, List.length_flatMap, Eni.owned, OwnedRule.all]

end owned

/-- The ENIs are tidy and stand under their own names. -/
structure Kept (s : Reconciler) : Prop where
  tidy : ∀ key eni, s.enis.get? key = some eni →
    eni.attributes.key = key ∧ eni.Tidy s.config.table
  table : s.ctx.table = s.config.table
  base : s.ctx.basePriority = s.config.basePriority
  distinct : s.world.keys.Nodup

theorem Kept.fresh (config : Config) (inventory : Inventory) : (fresh config inventory).Kept where
  tidy := fun key eni there => by cases there
  table := rfl
  base := rfl
  distinct := by simp [Reconciler.fresh, ofEnvironment, world, World.keys, ownedIn]; exact .nil

/-- The tables stay in order, and the world goes through steps. -/
def Follows (fits : Nat → Prop) (s s' : Reconciler) : Prop :=
  s.Kept → s'.Kept ∧ s'.config = s.config ∧ World.Steps fits s.world s'.world

variable {fits : Nat → Prop} {s s' : Reconciler} {key : EniKey} {eni : Eni}

instance : Std.Refl (Follows fits) := ⟨fun _ kept => ⟨kept, rfl, .refl⟩⟩

theorem Follows.trans {s'' : Reconciler} (first : Follows fits s s') (second : Follows fits s' s'') :
    Follows fits s s'' := by
  intro kept
  obtain ⟨kept, config, steps⟩ := first kept
  obtain ⟨kept, config', steps'⟩ := second kept
  exact ⟨kept, config'.trans config, steps.trans steps'⟩

instance : IsTrans Reconciler (Follows fits) := ⟨fun _ _ _ => Follows.trans⟩

theorem Kept.follow (kept : s.Kept) (config : s'.config = s.config)
    (steps : World.Steps fits s.world s'.world)
    (tidy : ∀ key eni, s'.enis.get? key = some eni →
      eni.attributes.key = key ∧ eni.Tidy s.config.table) :
    s'.Kept ∧ s'.config = s.config ∧ World.Steps fits s.world s'.world := by
  refine ⟨⟨?_, ?_, ?_, steps.distinct kept.distinct⟩, config, steps⟩
  · rwa [config]
  · exact (steps.settled.1.trans kept.table).trans (by rw [config])
  · exact (steps.settled.2.trans kept.base).trans (by rw [config])

theorem Kept.insert (kept : s.Kept) (config : s'.config = s.config)
    (enis : s'.enis = s.enis.insert key eni)
    (steps : World.Steps fits s.world ⟨eni.owned + ownedIn (s.enis.erase key), s'.ctx⟩)
    (named : eni.attributes.key = key) (tidy : eni.Tidy s.config.table) :
    s'.Kept ∧ s'.config = s.config ∧ World.Steps fits s.world s'.world := by
  refine kept.follow config ?_ fun other found at_other => ?_
  · have world_eq : s'.world = ⟨eni.owned + ownedIn (s.enis.erase key), s'.ctx⟩ := by
      rw [world, enis, ownedIn_insert]
    exact world_eq ▸ steps
  · rw [enis] at at_other
    by_cases same : other = key
    · rw [same, SortedMap.get?_insert_self] at at_other
      cases at_other
      exact ⟨named.trans same.symm, tidy⟩
    · rw [SortedMap.get?_insert_ne _ _ same] at at_other
      exact kept.tidy other found at_other

/-- Nothing but the context changes, and that quietly, apart from what is no part of the
world. -/
structure Calm (s s' : Reconciler) : Prop where
  enis : s'.enis = s.enis
  config : s'.config = s.config
  quiet : ReflTransGen Context.Quiet s.ctx s'.ctx

instance : Std.Refl Calm := ⟨fun _ => ⟨rfl, rfl, .refl⟩⟩

instance : IsTrans Reconciler Calm := by
  constructor
  intro s s' s'' first second
  exact ⟨second.enis.trans first.enis, second.config.trans first.config,
    first.quiet.trans second.quiet⟩

theorem Calm.follows (calm : Calm s s') : Follows fits s s' := by
  intro kept
  refine kept.follow calm.config ?_ fun key eni there => ?_
  · rw [world, world, calm.enis]
    exact .of_quiet _ calm.quiet
  · exact kept.tidy key eni (calm.enis ▸ there)

section calm

theorem onContext_calm {α : Type} {x : Action Context α} {s : Reconciler}
    {after : α → Context → Prop} (quietly : Context.Quietly x s.ctx after) :
    (onContext x).Leads Calm s fun _ _ => True :=
  ⟨⟨rfl, rfl, quietly.1⟩, fun _ _ => trivial⟩

theorem modify_calm {f : Reconciler → Reconciler} {s : Reconciler} (calm : Calm s (f s)) :
    (Action.modify f).Leads Calm s fun _ _ => True :=
  .modify calm trivial

theorem createTable_calm (s : Reconciler) : createTable.Leads Calm s fun _ _ => True := by
  have written : ∀ name fields, Context.Quietly (Context.setTable name fields) s.ctx fun _ _ => True :=
    fun name fields => Context.quietly_call rfl _ s.ctx
  refine .get_bind (.bind (onContext_calm (Context.quietly_auditFailure (written _ _))) ?_)
  exact fun _ s' _ => onContext_calm (Context.quietly_audit _ s'.ctx)

theorem watch_calm (dpu : Dpu) (s : Reconciler) : (watch dpu).Leads Calm s fun _ _ => True := by
  unfold watch
  split
  · exact .pure trivial
  · refine .bind (modify_calm ⟨rfl, rfl, .refl⟩) fun _ s' _ => ?_
    exact .bind (onContext_calm (Rule.quietly_reach _ s'.ctx)) fun _ _ _ => .pure trivial

theorem watchAll_calm (dpus : List Dpu) (s : Reconciler) :
    (dpus.forM watch : Step Unit).Leads Calm s fun _ _ => True := by
  induction dpus generalizing s with
  | nil => exact .pure trivial
  | cons dpu rest ih => exact .bind (watch_calm dpu s) fun _ s' _ => ih s'

theorem ensureInitialized_calm (s : Reconciler) :
    ensureInitialized.Leads Calm s fun _ _ => True := by
  refine .get_bind ?_
  split
  · exact .pure trivial
  · refine .bind (onContext_calm (Context.quietly_populate s.ctx)) fun dpus s _ => .get_bind ?_
    have written : ∀ name fields,
        Context.Quietly (Context.setTableType name fields) s.ctx fun _ _ => True :=
      fun name fields => Context.quietly_call rfl _ s.ctx
    refine .bind (onContext_calm (written _ _)) fun _ s _ => ?_
    refine .bind (createTable_calm s) fun _ s _ => .get_bind ?_
    refine .bind (watchAll_calm _ s) fun _ s _ => ?_
    refine .bind (modify_calm ⟨rfl, rfl, .refl⟩) fun _ s _ => .get_bind ?_
    exact onContext_calm (Context.quietly_audit _ s.ctx)

end calm

theorem onEni_leads {x : Eni.Step Unit} {after : Unit → Eni × Context → Prop}
    (there : s.enis.get? key = some eni)
    (leads : x.Leads (Eni.Works fits s.config.table) (eni, s.ctx) after) :
    (onEni key eni x).Leads (Follows fits) s fun a s' =>
      ∃ eni', s'.enis = s.enis.insert key eni' ∧ after a (eni', s'.ctx) := by
  have run : onEni key eni x s = ((x (eni, s.ctx)).1,
      { s with enis := s.enis.insert key (x (eni, s.ctx)).2.1, ctx := (x (eni, s.ctx)).2.2 }) := rfl
  unfold Action.Leads at leads ⊢
  rw [run]
  generalize x (eni, s.ctx) = outcome at leads ⊢
  obtain ⟨result, eni', c'⟩ := outcome
  obtain ⟨works, described⟩ := leads
  refine ⟨fun kept => ?_, fun a success => ⟨eni', rfl, described a success⟩⟩
  obtain ⟨named, tidy⟩ := kept.tidy key eni there
  obtain ⟨tidy, lasting, steps⟩ := works tidy
  have keys : eni'.attributes.lasting.key = eni.attributes.lasting.key :=
    congrArg EniAttributes.key lasting
  refine kept.insert rfl rfl ?_ (keys.trans named) tidy
  rw [world, ownedIn_of_get? there]
  exact steps _

theorem exists_eni_of_mem_ownedIn {enis : SortedMap EniKey Eni} {o : OwnedRule}
    (member : o ∈ ownedIn enis) : ∃ key eni, enis.get? key = some eni ∧ o ∈ eni.owned := by
  obtain ⟨eni, there, owns⟩ := List.mem_flatMap.1 (Multiset.mem_coe.1 member)
  obtain ⟨key, found⟩ := SortedMap.exists_get?_of_mem_values there
  exact ⟨key, eni, found, owns⟩

theorem Kept.distinct_add (kept : s.Kept) (absent : s.enis.get? key = none)
    (named : eni.attributes.key = key) (tidy : eni.Tidy s.config.table) :
    (World.keys ⟨eni.owned + ownedIn s.enis, s.ctx⟩).Nodup := by
  have owned_keys : eni.owned.map (·.rule.key) = eni.rules.map Rule.key := by
    simp [Eni.owned, OwnedRule.all, Function.comp_def]
  rw [World.keys, Multiset.map_add, Multiset.nodup_add, Multiset.map_coe, owned_keys]
  refine ⟨tidy.distinct, kept.distinct, Multiset.disjoint_left.2 fun {name} new old => ?_⟩
  obtain ⟨r, member, rfl⟩ := List.mem_map.1 (Multiset.mem_coe.1 new)
  obtain ⟨o, owned, same⟩ := Multiset.mem_map.1 old
  obtain ⟨key', eni', found, owns⟩ := exists_eni_of_mem_ownedIn owned
  obtain ⟨r', member', rfl⟩ := List.mem_map.1 owns
  obtain ⟨named', tidy'⟩ := kept.tidy key' eni' found
  rw [tidy.keys r member, tidy'.keys r' member', named, named'] at same
  rw [(EniKey.ruleKey_injective same).1, absent] at found
  cases found

theorem create_leads {a : EniAttributes} (absent : s.enis.get? key = none) (named : a.key = key)
    (fit : fits ((Eni.ofAttributes a s.ctx.dpus s.ctx.table).rules.length + s.rules.length)) :
    (create key (Eni.ofAttributes a s.ctx.dpus s.ctx.table)).Leads (Follows fits) s
      fun _ _ => True := by
  refine ⟨fun kept => ?_, fun _ _ => trivial⟩
  have tidy : (Eni.ofAttributes a s.ctx.dpus s.ctx.table).Tidy s.config.table := by
    rw [kept.table]
    exact Eni.ofAttributes_tidy a s.ctx.dpus s.config.table
  have untouched := fun o => @Eni.ofAttributes_untouched a s.ctx.dpus s.ctx.table o
  have named' : (Eni.ofAttributes a s.ctx.dpus s.ctx.table).attributes.key = key := named
  generalize Eni.ofAttributes a s.ctx.dpus s.ctx.table = eni at *
  -- the rules enter the world before they are fired, so none is counted too late
  have entered : World.Steps fits s.world ⟨eni.owned + ownedIn s.enis, s.ctx⟩ := by
    refine .single (.enter s.ctx (fun o member => untouched o (Multiset.mem_coe.1 member))
      (kept.distinct_add absent named' tidy) ?_)
    rw [Multiset.card_add, card_ownedIn]
    simpa [Eni.owned, OwnedRule.all] using fit
  have erased : s.enis.erase key = s.enis := SortedMap.erase_of_absent absent
  obtain ⟨fired, -⟩ := Eni.fireAll_leads eni s.ctx
  unfold create
  generalize Eni.fireAll (eni, s.ctx) = outcome at fired ⊢
  obtain ⟨result, eni', c'⟩ := outcome
  obtain ⟨tidy', lasting', steps'⟩ := fired tidy
  have key_of_lasting : ∀ {eni' : Eni}, eni'.attributes.lasting = eni.attributes.lasting →
      eni'.attributes.key = key := fun same =>
    have keys : _ = eni.attributes.lasting.key := congrArg EniAttributes.key same
    keys.trans named'
  cases result with
  | ok _ =>
    refine kept.insert rfl rfl ?_ (key_of_lasting lasting') tidy'
    rw [erased]
    exact entered.trans (steps' _)
  | error e =>
    obtain ⟨destroyed, described⟩ := Eni.destroy_leads eni' c'
    dsimp only
    generalize Eni.destroy (eni', c') = outcome at destroyed described ⊢
    obtain ⟨result, eni'', c''⟩ := outcome
    obtain ⟨tidy'', lasting'', steps''⟩ := destroyed tidy'
    have path := (entered.trans (steps' _)).trans (steps'' (ownedIn s.enis))
    cases result with
    | ok _ =>
      -- the ENI is forgotten together with its rules, of which none are left
      have gone : eni''.rules = [] := described () rfl
      have others : eni''.owned + ownedIn s.enis = ownedIn s.enis := by
        simp [Eni.owned, gone, OwnedRule.all]
      rw [others] at path
      exact kept.follow rfl path kept.tidy
    | error e =>
      refine kept.insert rfl rfl ?_ (key_of_lasting (lasting''.trans lasting')) tidy''
      rw [erased]
      exact path

theorem set_leads (key : EniKey) (fields : Fields) (fit : fits (setHeadcount key fields s)) :
    (set key fields).Leads (Follows fits) s fun _ _ => True := by
  have calm := (ensureInitialized_calm s).1
  -- setting up tables and watches leaves the rules alone
  have first : ensureInitialized.Leads (Follows fits) s fun a s' =>
      ensureInitialized s = (.ok a, s') ∧ s'.enis = s.enis :=
    ⟨calm.follows, fun a success => ⟨Prod.ext success rfl, calm.enis⟩⟩
  refine .bind first ?_
  rintro ⟨⟩ s' ⟨initialized, same⟩
  refine .get_bind ?_
  split
  next eni there =>
    refine .bind (onEni_leads there (Eni.update_leads fields eni s'.ctx)) fun _ s'' _ => ?_
    exact .modify (Calm.follows ⟨rfl, rfl, .refl⟩) trivial
  next absent =>
    refine .lift_bind fun eni declared => ?_
    obtain ⟨a, named, rfl⟩ := Eni.declare_spec declared
    apply create_leads absent named
    rw [same] at absent
    simpa only [setHeadcount, newcomers, initialized, same, absent, declared, rules] using fit

theorem delete_leads (key : EniKey) (s : Reconciler) :
    (delete key).Leads (Follows fits) s fun _ _ => True := by
  refine .get_bind ?_
  split
  next => exact .pure trivial
  next eni there =>
    refine .bind (onEni_leads there (Eni.destroy_leads eni s.ctx)) ?_
    rintro - s' ⟨eni', enis, gone⟩
    refine ⟨fun kept => ?_, fun _ _ => trivial⟩
    -- an ENI without rules can be taken out of the table unnoticed
    have lighter : ownedIn s'.enis = ownedIn (s'.enis.erase key) := by
      rw [enis, ownedIn_insert, SortedMap.erase_insert, Eni.owned, gone]
      simp [OwnedRule.all]
    refine kept.follow rfl ?_ fun other found at_other => ?_
    · rw [world, lighter]
      exact .refl
    · apply kept.tidy other found
      by_cases same : other = key
      · have erased : (s'.enis.erase key).get? other = some found := at_other
        rw [same, SortedMap.get?_erase_self] at erased
        cases erased
      · rwa [← SortedMap.get?_erase_ne _ same]

/-- What news about a neighbor means for one ENI. -/
def wake (added : Bool) (key : EniKey) : Step Unit := do
  match (← Action.get).enis.get? key with
  | none => return ()
  | some eni => onEni key eni (Eni.onNeighbor added)

theorem wake_leads (added : Bool) (key : EniKey) (s : Reconciler) :
    (wake added key).Leads (Follows fits) s fun _ _ => True := by
  refine .get_bind ?_
  split
  · exact .pure trivial
  next eni there =>
    apply (onEni_leads there (Eni.onNeighbor_leads added eni s.ctx)).weaken
    exact fun _ _ _ => trivial

theorem onNeighbor_leads (u : NeighborUpdate) (s : Reconciler) :
    (onNeighbor u).Leads (Follows fits) s fun _ _ => True := by
  refine .get_bind ?_
  split
  · exact .pure trivial
  · refine .modify_bind ?_ (.get_bind (.visit (wake_leads u.added) _))
    exact Calm.follows ⟨rfl, rfl, .refl⟩

theorem recordFailure_calm (entry : Entry) (e : Failure) (s : Reconciler) :
    Calm s (recordFailure entry e s) :=
  ⟨rfl, rfl, .single (.note s.ctx (.audited _) trivial)⟩

theorem follow_leads (entry : Entry) (fit : fits (entryHeadcount entry s)) :
    (follow entry).Leads (Follows fits) s fun _ _ => True := by
  refine .get_bind (.lift_bind fun key read => ?_)
  cases op : entry.op with
  | set =>
    apply set_leads key entry.fields
    simpa only [entryHeadcount, read, op] using fit
  | del => exact delete_leads key s

theorem work_follows (entries : List Entry) (blocked : SortedSet String) (s : Reconciler)
    (fit : ∀ n ∈ workHeadcounts entries blocked s, fits n) :
    Follows fits s (work entries blocked s).2 := by
  -- the same case distinctions as in the work itself, with what is blocked so far
  induction entries generalizing blocked s with
  | nil => exact refl s
  | cons entry rest ih =>
    unfold workHeadcounts at fit
    unfold work
    split at fit
    next waits =>
      simp only [waits, if_true]
      exact ih blocked s fit
    next free =>
      simp only [free]
      obtain ⟨here, later⟩ := List.forall_mem_cons.1 fit
      have followed := (follow_leads entry here).1
      generalize follow entry s = outcome at followed later ⊢
      obtain ⟨result, s'⟩ := outcome
      cases result with
      | ok _ => exact followed.trans (ih blocked s' later)
      | error e =>
        have recorded : Follows fits s (recordFailure entry e s') :=
          followed.trans (recordFailure_calm entry e s').follows
        dsimp only at later ⊢
        by_cases again : e.status.isRetryable = true
        · simp only [again, if_true] at later ⊢
          exact recorded.trans (ih _ _ later)
        · simp only [again] at later ⊢
          exact recorded.trans (ih _ _ later)

theorem handle_follows (request : Request) (s : Reconciler)
    (fit : ∀ n ∈ s.requestHeadcounts request, fits n) : Follows fits s (s.handle request) := by
  cases request with
  | enqueue entries => exact Calm.follows ⟨rfl, rfl, .refl⟩
  | doTask =>
    have cleared : Follows fits s { s with backlog := s.backlog.clear } :=
      Calm.follows ⟨rfl, rfl, .refl⟩
    have worked := work_follows s.backlog.entries ∅ { s with backlog := s.backlog.clear } fit
    -- what waits goes back to the backlog, which is no part of the world
    exact (cleared.trans worked).trans (Calm.follows ⟨rfl, rfl, .refl⟩)
  | set key fields => exact (set_leads key fields (fit _ List.mem_cons_self)).1
  | delete key => exact (delete_leads key s).1
  | prepare => exact (ensureInitialized_calm s).1.follows
  | neighbor update => exact (onNeighbor_leads update s).1
  | surroundings inventory faults rejectsAcl rejectsTunnels =>
    refine Calm.follows ⟨rfl, rfl, .single ?_⟩
    exact .learn s.ctx inventory faults s.ctx.env.aliasLookups rejectsAcl rejectsTunnels s.ctx.dpus
      s.ctx.aliases s.ctx.vip fun _ => id

theorem run_follows (requests : List Request) (s : Reconciler)
    (fit : ∀ n ∈ s.headcounts requests, fits n) : Follows fits s (s.run requests) := by
  induction requests generalizing s with
  | nil => exact refl s
  | cons request rest ih =>
    obtain ⟨here, later⟩ := List.forall_mem_append.1 fit
    exact (handle_follows request s here).trans (ih _ later)

theorem run_reachable (config : Config) (inventory : Inventory) (requests : List Request)
    (fit : ∀ n ∈ (fresh config inventory).headcounts requests, fits n) :
    ((fresh config inventory).run requests).Kept ∧
      ((fresh config inventory).run requests).config = config ∧
      World.Reachable fits ((fresh config inventory).run requests).world := by
  obtain ⟨kept, same, steps⟩ :=
    run_follows requests (fresh config inventory) fit (.fresh config inventory)
  exact ⟨kept, same, inventory, config.table, config.basePriority, steps⟩

/-- The number of rules, over all ENIs in the table, that hold a tunnel next hop. -/
def holders (s : Reconciler) (hop : TunnelHop) : Nat := s.rules.countP (·.hop? = some hop)

theorem coe_rules (s : Reconciler) : (s.rules : Multiset Rule) = s.world.rules.map (·.rule) := by
  simp [rules, world, ownedIn, List.map_flatMap, Eni.owned, OwnedRule.all, Function.comp_def]

theorem holders_world (s : Reconciler) (hop : TunnelHop) : s.world.holders hop = s.holders hop := by
  have counted := Multiset.coe_countP (fun r : Rule => r.hop? = some hop) s.rules
  rw [coe_rules, Multiset.countP_map] at counted
  rw [World.holders, Multiset.countP_eq_card_filter]
  exact counted

/-- One ENI behind a tunnel is declared, and then sent to another DPU. -/
def sampleInventory : Inventory :=
  (((Inventory.empty.addDpu 2 "cluster" "10.0.0.2" "20.0.0.2").addDpu 3 "cluster" "10.0.0.3"
    "20.0.0.3").addVip "10.2.0.1/32").addVnet "Vnet_1000" ⟨some 1234, some "mock_tunnel"⟩

def sampleEni : EniKey := ⟨"Vnet_1000", ⟨0xaa, 0xbb, 0xcc, 0xdd, 0xee, 0xff⟩⟩

def sampleRequests : List Request :=
  [.set sampleEni [("vdpu_ids", "2,3"), ("primary_vdpu", "2")],
    .set sampleEni [("primary_vdpu", "3")]]

theorem sample_few : ∀ n ∈ (fresh {} sampleInventory).headcounts sampleRequests, n < UInt32.size := by
  decide +kernel

end Reconciler

end EniForwarding
