import EniForwarding.Proofs.Deeds
import EniForwarding.Proofs.Requests

/-! Every run takes turns.

Each request changes the tables by turns, so after any run the tables are in order.
-/

set_option autoImplicit false

namespace EniForwarding

open Relation Tables

namespace Reconciler

/-- The world goes through steps, and the tables take turns. -/
structure Advances (s s' : Reconciler) : Prop where
  follows : Follows (fun _ => True) s s'
  turns : s.Kept → Turns s.tables s'.tables

instance : Std.Refl Advances := ⟨fun s => ⟨refl s, fun _ => .refl⟩⟩

instance : IsTrans Reconciler Advances := by
  constructor
  intro s s' s'' first second
  refine ⟨first.follows.trans second.follows, fun kept => ?_⟩
  exact (first.turns kept).trans (second.turns (first.follows kept).1)

theorem tables_of_context {s : Reconciler} {c : Context} {enis : SortedMap EniKey Eni}
    (dpus : c.dpus = s.ctx.dpus) :
    ({ s with enis := enis, ctx := c } : Reconciler).tables = { s.tables with enis := enis } := by
  show Tables.mk _ c.dpus _ _ _ _ = _
  rw [dpus]
  rfl

theorem tables_keep {s : Reconciler} {c : Context} {key : EniKey} {eni : Eni}
    (dpus : c.dpus = s.ctx.dpus) :
    (keep key eni { s with ctx := c }).tables = s.tables.keep key eni := by
  show Tables.mk _ c.dpus _ _ (host _ _ (eni.localEndpoint c.dpus)) _ = _
  rw [dpus]
  rfl

section advances

variable {s s' : Reconciler} {key : EniKey} {eni : Eni}

theorem Kept.sound (kept : s.Kept) (there : s.enis.get? key = some eni) : ∀ r ∈ eni.rules, r.Sound :=
  (kept.tidy key eni there).2.sound

theorem Beside.still (beside : Beside s s') :
    s.ctx.Still s'.ctx ∧ s'.ctx.table = s.ctx.table := by
  rcases beside.ctx with same | ⟨r, noted⟩
  · rw [same]
    exact ⟨refl s.ctx, rfl⟩
  · rw [noted]
    exact ⟨s.ctx.still_noted _, rfl⟩

theorem Beside.calm (beside : Beside s s') : Calm s s' := by
  refine ⟨beside.enis, beside.config, ?_⟩
  rcases beside.ctx with same | ⟨r, noted⟩
  · rw [same]
  · rw [noted]
    exact .single (.note s.ctx _ trivial)

theorem Beside.advances (beside : Beside s s') : Advances s s' := by
  refine ⟨beside.calm.follows, fun _ => ?_⟩
  have dpus : s'.ctx.dpus = s.ctx.dpus := beside.still.1.dpus
  have same : s'.tables = s.tables := by
    simp only [tables, beside.config, dpus, beside.enis, beside.owners, beside.hosted,
      beside.initialized]
  rw [same]

theorem ensureInitialized_advances (s : Reconciler) : Advances s (ensureInitialized s).2 := by
  refine ⟨(ensureInitialized_calm s).1.follows, fun _ => ?_⟩
  cases ready : s.initialized with
  | true => rw [ensureInitialized_of_ready ready]
  | false =>
    have load : Turn s.tables s.load.tables := .load s.tables s.ctx.env.inventory.dpuRows ready
    rcases ensureInitialized_cases ready with ⟨e, s', failed, idles, -⟩ | ⟨s', done, -, tables⟩
    · rw [failed, idles.tables]
      exact .single load
    · rw [done, tables]
      exact .tail (.single load) (.watch s.load.tables ready)

theorem wake_advances (added : Bool) (key : EniKey) (s : Reconciler) :
    Advances s (wake added key s).2 := by
  refine ⟨(wake_leads added key s).1, fun kept => ?_⟩
  rcases wake_cases added key s with same | ⟨eni, there, same⟩
  · rw [same]
  · have dpus := (Eni.fireAll_steady eni s.ctx (kept.sound there)).dpus
    rw [same, tables_of_context dpus]
    exact .single (.fire there (kept.sound there) rfl)

/-- News about a neighbor leads where the ENIs are woken one after the other. -/
theorem onNeighbor_of_wake {R : Reconciler → Reconciler → Prop} [Std.Refl R] [IsTrans Reconciler R]
    (counted : ∀ (s : Reconciler) (n : Counter), R s { s with neighborUpdates := n })
    (woken : ∀ added key (s : Reconciler), R s (wake added key s).2) (u : NeighborUpdate)
    (s : Reconciler) : R s (onNeighbor u s).2 := by
  rw [run_onNeighbor]
  split
  · exact refl s
  next dpu owner =>
    have visited : (Action.visit (wake u.added) (s.hostedOn dpu)).Leads R
        { s with neighborUpdates := s.neighborUpdates.bump } fun _ _ => True :=
      .visit (fun key s => ⟨woken u.added key s, fun _ _ => trivial⟩) _
    exact IsTrans.trans _ _ _ (counted s s.neighborUpdates.bump) visited.1

theorem onNeighbor_related {R : Reconciler → Reconciler → Prop} [Std.Refl R] [IsTrans Reconciler R]
    (beside : ∀ {s s' : Reconciler}, Beside s s' → R s s')
    (woken : ∀ added key (s : Reconciler), R s (wake added key s).2) (u : NeighborUpdate)
    (s : Reconciler) : R s (onNeighbor u s).2 :=
  onNeighbor_of_wake (fun _ _ => beside ⟨rfl, rfl, rfl, rfl, rfl, .inl rfl⟩) woken u s

theorem onNeighbor_advances (u : NeighborUpdate) (s : Reconciler) :
    Advances s (onNeighbor u s).2 :=
  onNeighbor_related Beside.advances wake_advances u s

theorem update_turns (kept : s.Kept) (ready : s.initialized = true)
    (there : s.enis.get? key = some eni) (fields : Fields) :
    Turns s.tables (set key fields s).2.tables := by
  generalize updated : Eni.update fields (eni, s.ctx) = outcome
  obtain ⟨result, eni', c⟩ := outcome
  obtain ⟨counter, run⟩ := run_set_known ready there updated
  rw [run]
  have stays : ({ s with enis := s.enis.insert key eni, enisUpdated := counter } : Reconciler).tables =
      s.tables := by
    rw [SortedMap.insert_of_get? there]
    rfl
  rw [Eni.run_update] at updated
  split at updated
  next => cases updated; rw [stays]
  next primary required =>
    split at updated
    next => cases updated; rw [stays]
    next =>
      have sound := kept.sound there
      have steady := Eni.fireAll_steady (eni.withPrimary primary) s.ctx sound
      have dpus := steady.dpus
      have turn : Turn s.tables
          { s.tables with
            enis := s.enis.insert key (Eni.fireAll (eni.withPrimary primary, s.ctx)).2.1 } :=
        .fire there sound rfl
      rw [updated] at dpus turn
      have same : ({ s with enis := s.enis.insert key eni', ctx := c, enisUpdated := counter } :
          Reconciler).tables = { s.tables with enis := s.enis.insert key eni' } :=
        tables_of_context dpus
      rw [same]
      exact .single turn

theorem create_turns (ready : s.initialized = true) (absent : s.enis.get? key = none)
    {a : EniAttributes} (named : a.key = key) :
    Turns s.tables
      (create key (Eni.ofAttributes a s.ctx.dpus s.ctx.table) s).2.tables := by
  have tidy := Eni.ofAttributes_tidy a s.ctx.dpus s.ctx.table
  have dpus := (Eni.fireAll_steady _ s.ctx tidy.sound).dpus
  rcases create_cases key (Eni.ofAttributes a s.ctx.dpus s.ctx.table) s with
    ⟨eni, c, fired, ends⟩ |
      ⟨e, eni, c, fired, ⟨undone, c', taken, ends⟩ | ⟨e', left, c', stuck, ends⟩⟩ <;>
    rw [fired] at dpus <;> rw [ends]
  · show Turns s.tables (keep key eni { s with ctx := c }).tables
    rw [tables_keep dpus]
    exact .single (.declare ready absent named rfl fired)
  · have dpus' := (Eni.destroy_steady eni c).dpus
    rw [taken] at dpus'
    have same : ({ s with ctx := c' } : Reconciler).tables = s.tables :=
      tables_of_context (dpus'.trans dpus)
    rw [same]
  · have dpus' := (Eni.destroy_steady eni c).dpus
    rw [stuck] at dpus'
    rw [tables_keep (dpus'.trans dpus)]
    exact .single (.abide ready absent named rfl fired stuck)

theorem set_advances (key : EniKey) (fields : Fields) (s : Reconciler) :
    Advances s (set key fields s).2 := by
  refine set_related (ensureInitialized_advances s) fun s' ready =>
    ⟨(set_leads key fields trivial).1, fun kept => ?_⟩
  cases there : s'.enis.get? key with
  | some eni => exact update_turns kept ready there fields
  | none =>
    rw [run_set_new ready there]
    split
    next => exact .refl
    next eni declared =>
      obtain ⟨a, named, rfl⟩ := Eni.declare_spec declared
      exact create_turns ready there named

theorem delete_advances (key : EniKey) (s : Reconciler) : Advances s (delete key s).2 := by
  refine ⟨(delete_leads key s).1, fun kept => ?_⟩
  cases there : s.enis.get? key with
  | none =>
    rw [run_delete_unknown there]
  | some eni =>
    have dpus := (Eni.destroy_steady eni s.ctx).dpus
    generalize destroyed : Eni.destroy (eni, s.ctx) = outcome at dpus
    obtain ⟨result, eni', c⟩ := outcome
    rw [run_delete_known there destroyed]
    cases result with
    | ok _ =>
      have same : ({ s with ctx := c } : Reconciler).tables = s.tables := tables_of_context dpus
      have gone : (forget key { s with ctx := c }).tables = s.tables.forget key := by
        rw [← same]
        rfl
      rw [gone]
      exact .single (.remove s.tables key)
    | error e =>
      rw [tables_of_context dpus]
      exact .single (.spoil there destroyed)

theorem act_advances (deed : Deed) (s : Reconciler) : Advances s (deed.act s).2 := by
  cases deed with
  | set key fields => exact set_advances key fields s
  | delete key => exact delete_advances key s

theorem surround_advances (inventory : Inventory) (faults : Faults) (rejectsAcl rejectsTunnels : Bool)
    (s : Reconciler) : Advances s (s.surround inventory faults rejectsAcl rejectsTunnels) :=
  ⟨handle_follows (.surroundings inventory faults rejectsAcl rejectsTunnels) s
    (by simp [requestHeadcounts]), fun _ => .refl⟩

end advances

theorem fresh_inOrder (config : Config) (inventory : Inventory) :
    (fresh config inventory).tables.InOrder where
  unready _ := ⟨fun _ => rfl, fun _ => rfl⟩
  registered := fun _ _ known => by cases known
  owners ready := by cases ready
  hosts dpu key := by
    have nobody : ¬ Hosts ∅ dpu key := fun ⟨_, known, _⟩ => by cases known
    exact ⟨fun hosts => absurd hosts nobody, fun ⟨_, there, _⟩ => by cases there⟩
  enis _ _ there := by cases there

theorem run_advances (requests : List Request) (s : Reconciler) : Advances s (s.run requests) := by
  apply run_related Beside.advances ensureInitialized_advances onNeighbor_advances
  · exact fun inventory faults acl tunnels _ s => s.surround_advances inventory faults acl tunnels
  · exact fun deed s _ => act_advances deed s

theorem run_inOrder (config : Config) (inventory : Inventory) (requests : List Request) :
    ((fresh config inventory).run requests).Kept ∧
      ((fresh config inventory).run requests).tables.InOrder := by
  have advances := run_advances requests (fresh config inventory)
  have kept : (fresh config inventory).Kept := .fresh config inventory
  exact ⟨(advances.follows kept).1, (advances.turns kept).inOrder (fresh_inOrder config inventory)⟩

end Reconciler

end EniForwarding
