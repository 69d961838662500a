import EniForwarding.Proofs.Deeds
import EniForwarding.Proofs.Tables

/-! What requests come to.

Preparing is done once; after that a write either updates the ENI that is there or sets up
a new one, and a deletion takes down the one that is there. Each is told here by what it
does to the ENI and to the context.
-/

set_option autoImplicit false

namespace EniForwarding

open Relation Tables

namespace Reconciler

/-- The tables stay, and so does what can be looked up. -/
structure Idles (s s' : Reconciler) : Prop where
  tables : s'.tables = s.tables
  steady : s.ctx.Steady s'.ctx

instance : IsTrans Reconciler Idles := by
  constructor
  intro s s' s'' first second
  exact ⟨second.tables.trans first.tables, IsTrans.trans _ _ _ first.steady second.steady⟩

theorem onContext_idles {α : Type} {x : Action Context α} {s : Reconciler}
    {after : α → Context → Prop} (steadily : Context.Steadily x s.ctx after) :
    (onContext x).Leads Idles s fun _ _ => True := by
  refine ⟨⟨?_, steadily.1.toSteady⟩, fun _ _ => trivial⟩
  have dpus : (x s.ctx).2.dpus = s.ctx.dpus := congrArg Outlook.dpus steadily.1.outlook
  show Tables.mk s.config (x s.ctx).2.dpus s.enis s.owners s.hosted s.initialized = s.tables
  rw [dpus]
  rfl

theorem createTable_idles (s : Reconciler) : createTable.Leads Idles s fun _ _ => True := by
  refine .get_bind (.bind (onContext_idles
    (Context.steadily_auditFailure (Context.steadily_call _ _ s.ctx))) ?_)
  exact fun _ s' _ => onContext_idles (Context.steadily_audit _ s'.ctx)

theorem onContext_succeeds {α : Type} {x : Action Context α} {s : Reconciler}
    (succeeds : x.Succeeds s.ctx) : (onContext x).Succeeds s :=
  succeeds

theorem createTable_succeeds {s : Reconciler} (willing : s.ctx.Willing) : createTable.Succeeds s := by
  refine .get_bind (.bind (onContext_succeeds (.onFailure ?_)) fun _ s' _ => ?_)
  · exact Context.call_succeeds willing (.setTable _ _) trivial _
  · exact onContext_succeeds (.modify _ s'.ctx)

theorem run_watch (dpu : Dpu) (s : Reconciler) :
    ∃ c, watch dpu s = (.ok (), { s with owners := noteOwner s.owners dpu, ctx := c }) ∧
      s.ctx.Still c := by
  unfold watch noteOwner
  cases dpu.pa with
  | none => exact ⟨s.ctx, rfl, refl s.ctx⟩
  | some ip =>
    obtain ⟨answer, reached⟩ := Context.reach_succeeds ip s.ctx
    obtain ⟨still, -⟩ := Context.steadily_reach ip s.ctx
    refine ⟨(NextHop.reach ip s.ctx).2, ?_, still⟩
    simp only [Action.run_bind, Action.run_modify, onContext]
    rw [reached]
    rfl

theorem run_watchAll (dpus : List Dpu) (s : Reconciler) :
    ∃ c, (dpus.forM watch : Step Unit) s =
        (.ok (), { s with owners := dpus.foldl noteOwner s.owners, ctx := c }) ∧
      s.ctx.Still c := by
  induction dpus generalizing s with
  | nil => exact ⟨s.ctx, rfl, refl s.ctx⟩
  | cons dpu rest ih =>
    obtain ⟨c, run, still⟩ := run_watch dpu s
    obtain ⟨c', run', still'⟩ := ih { s with owners := noteOwner s.owners dpu, ctx := c }
    refine ⟨c', ?_, IsTrans.trans _ _ _ still still'⟩
    have split : (dpu :: rest).forM watch s = (watch dpu >>= fun _ => rest.forM watch) s := rfl
    rw [split, Action.run_bind, run]
    exact run'

def loaded (s : Reconciler) : Dpus := (Dpus.populate s.ctx.dpus s.ctx.env.inventory.dpuRows).2

def load (s : Reconciler) : Reconciler := { s with ctx := { s.ctx with dpus := s.loaded } }

theorem load_willing {s : Reconciler} (willing : s.ctx.Willing) : s.load.ctx.Willing :=
  ⟨willing.faultless, willing.acl, willing.tunnels⟩

theorem ensureInitialized_of_ready {s : Reconciler} (ready : s.initialized = true) :
    ensureInitialized s = (.ok (), s) := by
  simp only [ensureInitialized, Action.run_bind, Action.run_get, ready, if_true]
  rfl

/-- Preparing loads the DPUs, and watches them if nothing fails; on a willing switch nothing does. -/
theorem ensureInitialized_cases {s : Reconciler} (unready : s.initialized = false) :
    (∃ e s', ensureInitialized s = (.error e, s') ∧ Idles s.load s' ∧ ¬ s.ctx.Willing) ∨
      ∃ s', ensureInitialized s = (.ok (), s') ∧ s.load.ctx.Steady s'.ctx ∧
        s'.tables = { s.load.tables with
          owners := s.loaded.locals.foldl noteOwner s.owners
          initialized := true } := by
  have loads : onContext Context.populate s =
    (.ok (Dpus.populate s.ctx.dpus s.ctx.env.inventory.dpuRows).1, s.load) := rfl
  unfold ensureInitialized
  simp only [Action.run_bind, Action.run_get, unready, Bool.false_eq_true, if_false, loads]
  generalize Acl.TableType.redirecting s.load.config.tableType = type
  have written : (onContext (Context.setTableType type.name type.toFields)).Leads Idles s.load
      fun _ _ => True := onContext_idles (Context.steadily_call _ _ s.load.ctx)
  have taken : s.ctx.Willing →
      (onContext (Context.setTableType type.name type.toFields)).Succeeds s.load := fun willing => onContext_succeeds
      (Context.call_succeeds (load_willing willing) (.setTableType _ _) trivial _)
  unfold Action.Leads at written
  unfold Action.Succeeds at taken
  generalize onContext (Context.setTableType type.name type.toFields) s.load = outcome
    at written taken ⊢
  obtain ⟨e | _, s₁⟩ := outcome
  · exact .inl ⟨e, s₁, rfl, written.1, fun willing => by simpa using taken willing⟩
  have created := createTable_idles s₁
  have taken := createTable_succeeds (s := s₁)
  unfold Action.Leads at created
  unfold Action.Succeeds at taken
  dsimp only
  generalize createTable s₁ = outcome at created taken ⊢
  obtain ⟨e | _, s₂⟩ := outcome
  · exact .inl ⟨e, s₂, rfl, IsTrans.trans _ _ _ written.1 created.1, fun willing => by
      simpa using taken (written.1.steady.willing (load_willing willing))⟩
  have idles : Idles s.load s₂ := IsTrans.trans _ _ _ written.1 created.1
  obtain ⟨c, watched, still⟩ := run_watchAll s₂.ctx.dpus.locals s₂
  dsimp only
  rw [watched]
  have watching : s.load.ctx.Steady c := IsTrans.trans _ _ _ idles.steady still.toSteady
  have dpus : c.dpus = s.loaded := congrArg Outlook.dpus watching.outlook
  refine .inr ⟨_, rfl, ?_, ?_⟩
  · exact IsTrans.trans _ _ _ watching (c.still_noted _).toSteady
  · have before := idles.tables
    simp only [tables, Tables.mk.injEq] at before ⊢
    obtain ⟨config, dpus', enis, owners, hosted, -⟩ := before
    exact ⟨config, dpus, enis, by rw [owners, dpus']; rfl, hosted, trivial⟩

theorem ensureInitialized_ready (s : Reconciler) :
    ∀ s', ensureInitialized s = (.ok (), s') → s'.initialized = true := by
  intro s' prepared
  cases ready : s.initialized with
  | true =>
    rw [ensureInitialized_of_ready ready] at prepared
    cases prepared
    exact ready
  | false =>
    rcases ensureInitialized_cases ready with ⟨e, s'', failed, -⟩ | ⟨s'', done, -, tables⟩
    · cases prepared.symm.trans failed
    · cases prepared.symm.trans done
      exact congrArg Tables.initialized tables

section ready

variable {s : Reconciler} {key : EniKey} {eni eni' : Eni} {fields : Fields} {c : Context}
  {result : Except Failure Unit}

theorem run_set (key : EniKey) (fields : Fields) (s : Reconciler) :
    set key fields s =
      match ensureInitialized s with
      | (.error e, s) => (.error e, s)
      | (.ok (), s) => set key fields s := by
  have ready := ensureInitialized_ready s
  simp only [set, Action.run_bind]
  generalize ensureInitialized s = outcome at ready
  obtain ⟨_ | _, s'⟩ := outcome
  · rfl
  · dsimp only
    rw [ensureInitialized_of_ready (ready s' rfl)]

/-- A write leads where preparing leads, and on from there with the reconciler prepared. -/
theorem set_related {R : Reconciler → Reconciler → Prop} [IsTrans Reconciler R]
    (prepared : R s (ensureInitialized s).2)
    (written : ∀ s' : Reconciler, s'.initialized = true → R s' (set key fields s').2) :
    R s (set key fields s).2 := by
  have ready := ensureInitialized_ready s
  rw [run_set]
  generalize ensureInitialized s = outcome at prepared ready
  obtain ⟨_ | _, s'⟩ := outcome
  · exact prepared
  · exact IsTrans.trans _ _ _ prepared (written s' (ready s' rfl))

theorem run_set_update (ready : s.initialized = true) (there : s.enis.get? key = some eni)
    (updated : Eni.update fields (eni, s.ctx) = (result, eni', c)) :
    set key fields s =
      match result with
      | .error e => (.error e, { s with enis := s.enis.insert key eni', ctx := c })
      | .ok _ => (.ok (), { s with
          enis := s.enis.insert key eni', ctx := c, enisUpdated := s.enisUpdated.bump }) := by
  rw [set, Action.run_bind, ensureInitialized_of_ready ready]
  simp only [Action.run_bind, Action.run_get, there, onEni, updated]
  cases result <;> rfl

theorem run_set_known (ready : s.initialized = true) (there : s.enis.get? key = some eni)
    (updated : Eni.update fields (eni, s.ctx) = (result, eni', c)) :
    ∃ counter, set key fields s =
      (result, { s with enis := s.enis.insert key eni', ctx := c, enisUpdated := counter }) := by
  rw [run_set_update ready there updated]
  cases result with
  | error e => exact ⟨s.enisUpdated, rfl⟩
  | ok _ => exact ⟨s.enisUpdated.bump, rfl⟩

theorem run_set_new (ready : s.initialized = true) (absent : s.enis.get? key = none) :
    set key fields s =
      match Eni.declare key fields s.ctx with
      | .error e => (.error e, s)
      | .ok eni => create key eni s := by
  rw [set, Action.run_bind, ensureInitialized_of_ready ready]
  simp only [Action.run_bind, Action.run_get, absent, Action.run_lift]
  cases Eni.declare key fields s.ctx <;> rfl

/-- A creation comes to one of three ends: the ENI is set up, it is taken down again and forgotten,
or it can be neither set up nor taken down and is kept. -/
theorem create_cases (key : EniKey) (fresh : Eni) (s : Reconciler) :
    (∃ eni c, Eni.fireAll (fresh, s.ctx) = (.ok (), eni, c) ∧
      create key fresh s =
        (.ok (), { keep key eni { s with ctx := c } with enisCreated := s.enisCreated.bump })) ∨
    ∃ e eni c, Eni.fireAll (fresh, s.ctx) = (.error e, eni, c) ∧
      ((∃ undone c', Eni.destroy (eni, c) = (.ok (), undone, c') ∧
          create key fresh s = (.error e, { s with ctx := c' })) ∨
        ∃ e' left c', Eni.destroy (eni, c) = (.error e', left, c') ∧
          create key fresh s = (.error e, keep key left { s with ctx := c' })) := by
  unfold create
  cases fired : Eni.fireAll (fresh, s.ctx) with | mk result rest =>
  obtain ⟨eni, c⟩ := rest
  cases result with
  | ok _ => exact .inl ⟨eni, c, rfl, rfl⟩
  | error e =>
    refine .inr ⟨e, eni, c, rfl, ?_⟩
    dsimp only
    cases destroyed : Eni.destroy (eni, c) with | mk result rest =>
    obtain ⟨eni', c'⟩ := rest
    cases result with
    | ok _ => exact .inl ⟨eni', c', rfl, rfl⟩
    | error e' => exact .inr ⟨e', eni', c', rfl, rfl⟩

theorem run_delete_known (there : s.enis.get? key = some eni)
    (destroyed : Eni.destroy (eni, s.ctx) = (result, eni', c)) :
    delete key s =
      match result with
      | .error e => (.error e, { s with enis := s.enis.insert key eni', ctx := c })
      | .ok _ => (.ok (), forget key { s with ctx := c }) := by
  simp only [delete, Action.run_bind, Action.run_get, there, onEni, destroyed, Action.run_modify]
  cases result with
  | error e => rfl
  | ok _ => simp [forget, SortedMap.erase_insert]

theorem run_delete_unknown (absent : s.enis.get? key = none) : delete key s = (.ok (), s) := by
  simp only [delete, Action.run_bind, Action.run_get, absent]
  rfl

theorem delete_removes (done : (delete key s).1 = .ok ()) :
    (delete key s).2.enis.get? key = none := by
  cases there : s.enis.get? key with
  | none => rwa [run_delete_unknown there]
  | some eni =>
    generalize destroyed : Eni.destroy (eni, s.ctx) = outcome
    obtain ⟨result, eni', c⟩ := outcome
    rw [run_delete_known there destroyed] at done ⊢
    cases result with
    | error e => cases done
    | ok _ => exact SortedMap.get?_erase_self _ _

end ready

theorem run_onNeighbor (u : NeighborUpdate) (s : Reconciler) :
    onNeighbor u s =
      match s.owners.get? u.neighbor.ip with
      | none => (.ok (), s)
      | some dpu => Action.visit (wake u.added) (s.hostedOn dpu)
          { s with neighborUpdates := s.neighborUpdates.bump } := by
  simp only [onNeighbor, Action.run_bind, Action.run_get]
  cases s.owners.get? u.neighbor.ip <;> rfl

theorem run_onNeighbor_owned {s : Reconciler} {u : NeighborUpdate} {dpu : UInt64}
    (owned : s.owners.get? u.neighbor.ip = some dpu) :
    onNeighbor u s = Action.visit (wake u.added) (s.hostedOn dpu)
      { s with neighborUpdates := s.neighborUpdates.bump } := by
  rw [run_onNeighbor]
  simp only [owned]

section wake

variable {s : Reconciler} {key : EniKey} {eni : Eni}

theorem run_wake (added : Bool) (there : s.enis.get? key = some eni) :
    wake added key s =
      if added = true then
        ((Eni.fireAll (eni, s.ctx)).1,
          { s with
            enis := s.enis.insert key (Eni.fireAll (eni, s.ctx)).2.1
            ctx := (Eni.fireAll (eni, s.ctx)).2.2 })
      else (.ok (), s) := by
  simp only [wake, Action.run_bind, Action.run_get, there]
  cases added with
  | true => rfl
  | false =>
    have stays : onEni key eni (Eni.onNeighbor false) s =
      (.ok (), { s with enis := s.enis.insert key eni }) := rfl
    rw [stays, SortedMap.insert_of_get? there]
    rfl

theorem run_wake_unknown (added : Bool) (absent : s.enis.get? key = none) :
    wake added key s = (.ok (), s) := by
  simp only [wake, Action.run_bind, Action.run_get, absent]
  rfl

/-- Nothing is done, or the ENI that is there is fired. -/
theorem wake_cases (added : Bool) (key : EniKey) (s : Reconciler) :
    (wake added key s).2 = s ∨
    ∃ eni, s.enis.get? key = some eni ∧ (wake added key s).2 = { s with
      enis := s.enis.insert key (Eni.fireAll (eni, s.ctx)).2.1
      ctx := (Eni.fireAll (eni, s.ctx)).2.2 } := by
  cases there : s.enis.get? key with
  | none => exact .inl (by rw [run_wake_unknown added there])
  | some eni =>
    rw [run_wake added there]
    cases added with
    | true => exact .inr ⟨eni, rfl, rfl⟩
    | false => exact .inl rfl

end wake

end Reconciler

end EniForwarding
