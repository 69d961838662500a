import EniForwarding.Proofs.Attempts
import EniForwarding.Proofs.Determined
import EniForwarding.Proofs.Eni.Frame
import EniForwarding.Proofs.Visits

/-! What attending to an entry comes to.

A pass follows its entries one after the other, and takes down which of them fail. Where nothing
is refused out of place, the result, what becomes of the ENI that an entry is addressed to and
what is counted can be told from that ENI and from what can be looked up; the other ENIs have
no part in it, and stay.
-/

set_option autoImplicit false

namespace EniForwarding

open Relation Tables

namespace Reconciler

/-- Follow an entry as a pass does, which takes down a failure. -/
def attend (entry : Entry) (s : Reconciler) : Except Failure Unit × Reconciler :=
  match follow entry s with
  | (.ok (), s) => (.ok (), s)
  | (.error e, s) => (.error e, recordFailure entry e s)

section attend

variable {entry : Entry} {s : Reconciler}

theorem work_free {blocked : SortedSet String} (free : blocked.contains entry.key = false)
    (rest : List Entry) : ∃ blocked', (work (entry :: rest) blocked s).2 =
      (work rest blocked' (attend entry s).2).2 ∧
        ∀ key, key ≠ entry.key → blocked'.contains key = blocked.contains key := by
  rw [work, attend, free]
  generalize follow entry s = outcome
  obtain ⟨e | _, s'⟩ := outcome
  · dsimp only
    by_cases again : e.status.isRetryable = true
    · refine ⟨SortedSet.add blocked entry.key, by simp [again], fun key apart => ?_⟩
      rw [Bool.eq_iff_iff, SortedMap.contains_add]
      simp [apart]
    · exact ⟨blocked, by simp [again], fun _ _ => rfl⟩
  · exact ⟨blocked, by simp, fun _ _ => rfl⟩

theorem work_pair {first second : Entry} (apart : second.key ≠ first.key) (s : Reconciler) :
    (work [first, second] ∅ s).2 = (attend second (attend first s).2).2 := by
  have free : (∅ : SortedSet String).contains first.key = false := rfl
  obtain ⟨blocked, worked, others⟩ := @work_free first s ∅ free [second]
  obtain ⟨_, later, -⟩ := @work_free second (attend first s).2 blocked (others second.key apart) []
  rw [worked, later]
  rfl

theorem attend_related {R : Reconciler → Reconciler → Prop} [IsTrans Reconciler R]
    (beside : ∀ {s s' : Reconciler}, Beside s s' → R s s') (followed : R s (follow entry s).2) :
    R s (attend entry s).2 := by
  unfold attend
  generalize follow entry s = outcome at followed
  obtain ⟨e | _, s'⟩ := outcome
  · exact IsTrans.trans _ _ _ followed (beside (beside_recordFailure entry e s'))
  · exact followed

theorem attend_advances (entry : Entry) (s : Reconciler) :
    Advances s (attend entry s).2 :=
  attend_related Beside.advances
    (follow_related Beside.advances entry s fun deed t _ => act_advances deed t)

end attend

/-- All that decides what becomes of an ENI. -/
structure Poised (key : EniKey) (o : Outlook) (config : Config) (known : Option Eni)
    (s : Reconciler) : Prop where
  ready : s.initialized = true
  fair : s.ctx.Fair
  outlook : s.ctx.outlook = o
  table : s.ctx.table = config.table
  config : s.config = config
  eni : s.enis.get? key = known

/-- One ENI becomes this, the others stay, and this is counted. -/
structure Enacts (key : EniKey) (known : Option Eni) (ticks : List Tick) (s s' : Reconciler) :
    Prop where
  steady : s.ctx.Steady s'.ctx
  initialized : s'.initialized = s.initialized
  eni : s'.enis.get? key = known
  others : ∀ other, other ≠ key → s'.enis.get? other = s.enis.get? other
  stats : s'.stats = s.stats.ticked ticks

/-- The result, what becomes of the ENI and what is counted can be told from what decides. -/
def Foreseen (key : EniKey) (o : Outlook) (config : Config) (known : Option Eni) (x : Step Unit) :
    Prop :=
  ∃ result known' ticks, ∀ s, Poised key o config known s →
    (x s).1 = result ∧ Enacts key known' ticks s (x s).2

section enacts

variable {s s' : Reconciler} {key : EniKey} {known : Option Eni} {eni : Eni} {c : Context}
  {ticks : List Tick}

theorem Enacts.nothing (s : Reconciler) (key : EniKey) : Enacts key (s.enis.get? key) [] s s :=
  ⟨refl s.ctx, rfl, rfl, fun _ _ => rfl, rfl⟩

theorem stats_of_does (does_ : s.ctx.Does ticks c) : s.stats.withRules c = s.stats.ticked ticks :=
  does_.counts s.stats

theorem Enacts.put (does_ : s.ctx.Does ticks c) {more : List Tick} (ctx : s'.ctx = c)
    (initialized : s'.initialized = s.initialized) (enis : s'.enis = s.enis.insert key eni)
    (stats : s'.stats = (s.stats.withRules c).ticked more) :
    Enacts key (some eni) (ticks ++ more) s s' where
  steady := ctx ▸ does_.steady
  initialized := initialized
  eni := by rw [enis, SortedMap.get?_insert_self]
  others other apart := by rw [enis, SortedMap.get?_insert_ne _ _ apart]
  stats := by rw [stats, stats_of_does does_, Stats.ticked_append]

end enacts

theorem Foreseen.congr {key : EniKey} {o : Outlook} {config : Config} {known : Option Eni}
    {x y : Step Unit} (same : ∀ s : Reconciler, s.config = config → x s = y s)
    (foreseen : Foreseen key o config known y) : Foreseen key o config known x := by
  obtain ⟨result, known', ticks, comes⟩ := foreseen
  refine ⟨result, known', ticks, fun s poised => ?_⟩
  rw [same s poised.config]
  exact comes s poised

section foreseen

variable (key : EniKey) (o : Outlook) (config : Config) (known : Option Eni)

theorem delete_foreseen : Foreseen key o config known (delete key) := by
  cases known with
  | none =>
    refine ⟨.ok (), none, [], fun s poised => ?_⟩
    rw [run_delete_unknown poised.eni]
    exact ⟨rfl, poised.eni ▸ .nothing s key⟩
  | some eni =>
    obtain ⟨result, eni', ticks, runs⟩ := Eni.destroy_determined eni o
    cases result with
    | error e =>
      refine ⟨.error e, some eni', ticks ++ [], fun s poised => ?_⟩
      obtain ⟨c, run, does_⟩ := runs s.ctx poised.fair poised.outlook
      rw [run_delete_known poised.eni run]
      exact ⟨rfl, .put does_ rfl rfl rfl rfl⟩
    | ok _ =>
      refine ⟨.ok (), none, ticks ++ [.removed], fun s poised => ?_⟩
      obtain ⟨c, run, does_⟩ := runs s.ctx poised.fair poised.outlook
      rw [run_delete_known poised.eni run]
      refine ⟨rfl, does_.steady, rfl, SortedMap.get?_erase_self _ _,
        fun other apart => SortedMap.get?_erase_ne _ apart, ?_⟩
      rw [Stats.ticked_append, ← stats_of_does does_]
      rfl

theorem update_foreseen (fields : Fields) (eni : Eni) :
    Foreseen key o config (some eni) (set key fields) := by
  obtain ⟨result, eni', ticks, runs⟩ := Eni.update_determined eni o fields
  cases result with
  | error e =>
    refine ⟨.error e, some eni', ticks ++ [], fun s poised => ?_⟩
    obtain ⟨c, run, does_⟩ := runs s.ctx poised.fair poised.outlook
    rw [run_set_update poised.ready poised.eni run]
    exact ⟨rfl, .put does_ rfl rfl rfl rfl⟩
  | ok _ =>
    refine ⟨.ok (), some eni', ticks ++ [.updated], fun s poised => ?_⟩
    obtain ⟨c, run, does_⟩ := runs s.ctx poised.fair poised.outlook
    rw [run_set_update poised.ready poised.eni run]
    exact ⟨rfl, .put does_ rfl rfl rfl rfl⟩

/-- A new ENI is set up, or it is taken down again and forgotten, or it is kept as far as it got. -/
theorem create_foreseen (eni : Eni) : Foreseen key o config none (create key eni) := by
  obtain ⟨result, eni', ticks, fires⟩ := Eni.fireAll_determined eni o
  cases result with
  | ok _ =>
    refine ⟨.ok (), some eni', ticks ++ [.created], fun s poised => ?_⟩
    obtain ⟨c, fired, does_⟩ := fires s.ctx poised.fair poised.outlook
    unfold create
    rw [fired]
    exact ⟨rfl, .put does_ rfl rfl rfl rfl⟩
  | error e =>
    obtain ⟨result, eni'', ticks', takes⟩ := Eni.destroy_determined eni' o
    have taken : ∀ s, Poised key o config none s → ∃ c c',
        Eni.fireAll (eni, s.ctx) = (.error e, eni', c) ∧
          Eni.destroy (eni', c) = (result, eni'', c') ∧ s.ctx.Does (ticks ++ ticks') c' := by
      intro s poised
      obtain ⟨c, fired, does_⟩ := fires s.ctx poised.fair poised.outlook
      obtain ⟨c', taken, does'⟩ := takes c (does_.fair poised.fair)
        (does_.steady.outlook.trans poised.outlook)
      exact ⟨c, c', fired, taken, does_.trans does'⟩
    cases result with
    | ok _ =>
      refine ⟨.error e, none, ticks ++ ticks', fun s poised => ?_⟩
      obtain ⟨c, c', fired, taken, does_⟩ := taken s poised
      unfold create
      simp only [fired]
      rw [taken]
      exact ⟨rfl, does_.steady, rfl, poised.eni, fun _ _ => rfl, stats_of_does does_⟩
    | error e' =>
      refine ⟨.error e, some eni'', ticks ++ ticks' ++ [], fun s poised => ?_⟩
      obtain ⟨c, c', fired, taken, does_⟩ := taken s poised
      unfold create
      simp only [fired]
      rw [taken]
      exact ⟨rfl, .put does_ rfl rfl rfl rfl⟩

theorem declare_foreseen (fields : Fields) :
    ∃ declared, ∀ s, Poised key o config known s → Eni.declare key fields s.ctx = declared := by
  refine ⟨(orFail (EniAttributes.ofFields key (o.inventory.vni? key.vnet) fields)).map
    fun a => Eni.ofAttributes a o.dpus config.table, fun s poised => ?_⟩
  rw [← poised.outlook, ← poised.table]
  show Eni.declare key fields s.ctx = (orFail (EniAttributes.ofFields key
    (s.ctx.env.inventory.vni? key.vnet) fields)).map fun a =>
      Eni.ofAttributes a s.ctx.dpus s.ctx.table
  simp only [Eni.declare]
  cases orFail (EniAttributes.ofFields key (s.ctx.env.inventory.vni? key.vnet) fields) <;> rfl

theorem set_foreseen (fields : Fields) : Foreseen key o config known (set key fields) := by
  cases known with
  | some eni => exact update_foreseen key o config fields eni
  | none =>
    obtain ⟨declared, reads⟩ := declare_foreseen key o config none fields
    cases declared with
    | error e =>
      refine ⟨.error e, none, [], fun s poised => ?_⟩
      rw [run_set_new poised.ready poised.eni, reads s poised]
      exact ⟨rfl, poised.eni ▸ .nothing s key⟩
    | ok eni =>
      obtain ⟨result, known', ticks, creates⟩ := create_foreseen key o config eni
      refine ⟨result, known', ticks, fun s poised => ?_⟩
      rw [run_set_new poised.ready poised.eni, reads s poised]
      exact creates s poised

section entry

variable {entry : Entry} (named : EniKey.read config.separator entry.key = .ok key)

include named

theorem follow_foreseen : Foreseen key o config known (follow entry) := by
  cases op : entry.op with
  | set =>
    refine .congr ?_ (set_foreseen key o config known entry.fields)
    rintro s rfl
    rw [run_follow, Deed.ofEntry, named, op]
    rfl
  | del =>
    refine .congr ?_ (delete_foreseen key o config known)
    rintro s rfl
    rw [run_follow, Deed.ofEntry, named, op]
    rfl

/-- What attending to an entry comes to can be told from its ENI and what can be looked up. -/
theorem attend_foreseen : Foreseen key o config known (attend entry) := by
  obtain ⟨result, known', ticks, follows⟩ := follow_foreseen key o config known named
  cases result with
  | ok _ =>
    refine ⟨.ok (), known', ticks, fun s poised => ?_⟩
    have followed := follows s poised
    unfold attend
    generalize follow entry s = outcome at followed
    obtain ⟨_ | _, s'⟩ := outcome
    · cases followed.1
    · exact followed
  | error e =>
    refine ⟨.error e, known', ticks ++ [.error], fun s poised => ?_⟩
    have followed := follows s poised
    unfold attend
    generalize follow entry s = outcome at followed
    obtain ⟨_ | _, s'⟩ := outcome
    · obtain ⟨same, enacts⟩ := followed
      cases same
      refine ⟨rfl, ?_, enacts.initialized, enacts.eni, enacts.others, ?_⟩
      · exact IsTrans.trans _ _ _ enacts.steady (s'.ctx.still_noted _).toSteady
      · rw [Stats.ticked_append, ← enacts.stats]
        rfl
    · cases followed.1

end entry

end foreseen

end Reconciler

end EniForwarding
