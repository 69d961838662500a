import EniForwarding.Proofs.Eni.Firing

/-! What work comes to can be told beforehand.

Where nothing is refused out of place, what becomes of a rule, whether the work succeeds and what
is counted in the statistics can be told from the rule and from what can be looked up. The other
rules have no part in it: they decide only whether a tunnel next hop has to be created or
removed, and either is granted.
-/

set_option autoImplicit false

namespace EniForwarding

open Relation

inductive Tick where
  | created
  | updated
  | removed
  | installed
  | uninstalled
  | neighbor
  | error

namespace Stats

def tick (t : Stats) : Tick → Stats
  | .created => { t with enisCreated := t.enisCreated.bump }
  | .updated => { t with enisUpdated := t.enisUpdated.bump }
  | .removed => { t with enisRemoved := t.enisRemoved.bump }
  | .installed => { t with rulesInstalled := t.rulesInstalled.bump }
  | .uninstalled => { t with rulesUninstalled := t.rulesUninstalled.bump }
  | .neighbor => { t with neighborUpdates := t.neighborUpdates.bump }
  | .error => { t with errors := t.errors.bump }

def ticked (t : Stats) (ticks : List Tick) : Stats := ticks.foldl tick t

/-- In which order they are counted makes no difference, also when a counter is full. -/
instance : RightCommutative tick := ⟨fun _ a b => by cases a <;> cases b <;> rfl⟩

theorem ticked_append (t : Stats) (ticks ticks' : List Tick) :
    t.ticked (ticks ++ ticks') = (t.ticked ticks).ticked ticks' :=
  List.foldl_append

theorem ticked_comm (t : Stats) (ticks ticks' : List Tick) :
    (t.ticked ticks).ticked ticks' = (t.ticked ticks').ticked ticks := by
  rw [← ticked_append, ← ticked_append]
  exact List.perm_append_comm.foldl_eq t

def withRules (t : Stats) (c : Context) : Stats :=
  { t with rulesInstalled := c.rulesInstalled, rulesUninstalled := c.rulesUninstalled }

end Stats

namespace Context

/-- What can be looked up stays, a fair context stays fair, and this is counted. -/
structure Does (ticks : List Tick) (c c' : Context) : Prop where
  steady : c.Steady c'
  mirrored : c.Mirrored → c'.Mirrored
  counts : ∀ t : Stats, t.withRules c' = (t.withRules c).ticked ticks

section does

variable {c c' c'' : Context} {ticks ticks' : List Tick}

theorem Does.nothing (c : Context) : Does [] c c := ⟨refl c, id, fun _ => rfl⟩

theorem Does.trans (first : Does ticks c c') (second : Does ticks' c' c'') :
    Does (ticks ++ ticks') c c'' where
  steady := IsTrans.trans _ _ _ first.steady second.steady
  mirrored := second.mirrored ∘ first.mirrored
  counts t := by rw [second.counts, first.counts, Stats.ticked_append]

theorem Does.fair (does_ : Does ticks c c') (fair : c.Fair) : c'.Fair :=
  ⟨does_.steady.willing fair.willing, does_.mirrored fair.mirrored⟩

theorem Does.of_quiet (steady : c.Steady c') (quiet : ReflTransGen Quiet c c') : Does [] c c' := by
  have same : c'.env.switch.tunnels = c.env.switch.tunnels ∧ c'.tunnels = c.tunnels ∧
      ∀ t : Stats, t.withRules c' = t.withRules c := by
    clear steady
    induction quiet with
    | refl => exact ⟨rfl, rfl, fun _ => rfl⟩
    | tail _ last ih =>
      obtain ⟨-, switch, table, installed, uninstalled⟩ := last.same
      refine ⟨switch.trans ih.1, table.trans ih.2.1, fun t => ?_⟩
      rw [← ih.2.2 t, Stats.withRules, installed, uninstalled]
      rfl
  exact ⟨steady, fun mirrored => mirrored.transfer same.1 fun hop => by rw [same.2.1], same.2.2⟩

end does

section told

variable {c : Context} (fair : c.Fair)

include fair

theorem acquire_does (hop : TunnelHop) :
    ∃ handle c', acquire hop c = (.ok handle, c') ∧ Does [] c c' := by
  cases known : c.tunnels.get? hop with
  | some use =>
    refine ⟨_, _, acquire_known known, .of_eq c rfl rfl rfl, fun mirrored => ?_, fun _ => rfl⟩
    exact mirrored.recount known rfl rfl
  | none =>
    rcases acquire_unknown known with ⟨message, r, refusal⟩ | ⟨switch, done, carried⟩
    · exact absurd refusal (acquire_succeeds fair hop).not_error
    · exact ⟨_, _, carried, .of_accepted c done rfl rfl rfl, fun mirrored => mirrored.founded done,
        fun _ => rfl⟩

theorem release_does (hop : TunnelHop) : ∃ c', release hop c = (.ok (), c') ∧ Does [] c c' := by
  cases known : c.tunnels.get? hop with
  | none =>
    refine ⟨_, release_unknown known, (c.still_noted _).toSteady, fun mirrored => ?_, fun _ => rfl⟩
    exact mirrored.transfer rfl fun _ => rfl
  | some use =>
    by_cases shared : 1 < use.refs
    · refine ⟨_, release_shared known shared, .of_eq c rfl rfl rfl, fun mirrored => ?_, fun _ => rfl⟩
      exact mirrored.recount known rfl rfl
    · rcases release_last known shared with ⟨message, r, refusal⟩ | ⟨switch, done, carried⟩
      · exact absurd refusal (release_succeeds fair hop).not_error
      · exact ⟨_, carried, .of_accepted c done rfl rfl rfl, fun mirrored => mirrored.abandoned done,
          fun _ => rfl⟩

end told

theorem reach_does (ip : Net.Address) (c : Context) :
    ∃ c', NextHop.reach ip c = (.ok (c.outlook.reaches ip), c') ∧ Does [] c c' := by
  obtain ⟨answer, succeeds⟩ := reach_succeeds ip c
  obtain ⟨still, known⟩ := steadily_reach ip c
  refine ⟨(NextHop.reach ip c).2, Prod.ext ?_ rfl, .of_quiet still.toSteady ?_⟩
  · rw [succeeds, known answer succeeds]
  · exact (Rule.quietly_reach ip c).1

theorem findVip_does (c : Context) :
    ∃ c', findVip c = (c.outlook.vip?.mapError fun e => .vipUnavailable e.message, c') ∧
      Does [] c c' := by
  refine ⟨(findVip c).2, Prod.ext ?_ rfl,
    .of_quiet (steadily_findVip c).1.toSteady (quietly_findVip c).1⟩
  rcases c.findVip_cases with ⟨vip, known, run⟩ | ⟨e, known, found, run⟩ | ⟨vip, known, found, run⟩
  · simp only [run, outlook, known, Except.mapError]
  · simp only [run, outlook, known, found, Except.mapError]
  · simp only [run, outlook, known, found, Except.mapError]

end Context

namespace NextHop

variable (h : NextHop)

theorem resolve_does {c : Context} (fair : c.Fair) :
    ∃ c', h.resolve c = (.ok (h.settled c.outlook), c') ∧ c.Does [] c' := by
  rcases h with ⟨ip, resolved⟩ | ⟨ip, vnet, _ | tunnel⟩
  · obtain ⟨c', run, does_⟩ := Context.reach_does ip c
    refine ⟨c', ?_, does_⟩
    simp only [resolve, Action.run_bind, run]
    rfl
  · have asked : (tunnelled ip vnet none).settled c.outlook =
        .tunnelled ip vnet (c.env.inventory.tunnel? vnet) := rfl
    rw [asked]
    simp only [resolve, Action.run_bind, Action.run_get]
    cases c.env.inventory.tunnel? vnet with
    | none => exact ⟨c, rfl, .nothing c⟩
    | some tunnel =>
      obtain ⟨handle, c', run, does_⟩ := Context.acquire_does fair ⟨ip, tunnel⟩
      exact ⟨c', by simp only [Action.run_bind, run]; rfl, does_⟩
  · exact ⟨c, rfl, .nothing c⟩

theorem release_does : ∃ h' : NextHop, ∀ c : Context, c.Fair →
    ∃ c', h.release c = (.ok h', c') ∧ c.Does [] c' := by
  rcases h with ⟨ip, resolved⟩ | ⟨ip, vnet, _ | tunnel⟩
  · exact ⟨_, fun c _ => ⟨c, rfl, .nothing c⟩⟩
  · exact ⟨_, fun c _ => ⟨c, rfl, .nothing c⟩⟩
  · refine ⟨.tunnelled ip vnet none, fun c fair => ?_⟩
    obtain ⟨c', run, does_⟩ := Context.release_does fair ⟨ip, tunnel⟩
    exact ⟨c', by simp only [release, Action.run_bind, run]; rfl, does_⟩

end NextHop

namespace Action

/-- What the action comes to can be told from what it is about and what can be looked up, as long
as nothing is refused out of place. -/
def Determined {ρ α : Type} (x : Action (ρ × Context) α) (r : ρ) (o : Outlook) : Prop :=
  ∃ result r' ticks, ∀ c : Context, c.Fair → c.outlook = o →
    ∃ c', x (r, c) = (result, r', c') ∧ c.Does ticks c'

namespace Determined

variable {ρ α β : Type} {x y : Action (ρ × Context) α} {f : α → Action (ρ × Context) β} {r r' : ρ}
  {o : Outlook}

theorem pure (a : α) (r : ρ) (o : Outlook) : (pure a : Action (ρ × Context) α).Determined r o :=
  ⟨.ok a, r, [], fun c _ _ => ⟨c, rfl, .nothing c⟩⟩

theorem congr (same : ∀ c, c.outlook = o → x (r, c) = y (r, c)) (determined : y.Determined r o) :
    x.Determined r o := by
  obtain ⟨result, r', ticks, runs⟩ := determined
  refine ⟨result, r', ticks, fun c fair here => ?_⟩
  rw [same c here]
  exact runs c fair here

theorem bind (first : x.Determined r o) (second : ∀ a r', (f a).Determined r' o) :
    (x >>= f).Determined r o := by
  obtain ⟨result, r', ticks, runs⟩ := first
  cases result with
  | error e =>
    refine ⟨.error e, r', ticks, fun c fair here => ?_⟩
    obtain ⟨c', run, does_⟩ := runs c fair here
    exact ⟨c', by rw [run_bind, run], does_⟩
  | ok a =>
    obtain ⟨result', r'', ticks', runs'⟩ := second a r'
    refine ⟨result', r'', ticks ++ ticks', fun c fair here => ?_⟩
    obtain ⟨c', run, does_⟩ := runs c fair here
    obtain ⟨c'', run', does'⟩ := runs' c' (does_.fair fair) (does_.steady.outlook.trans here)
    exact ⟨c'', by rw [run_bind, run]; exact run', does_.trans does'⟩

/-- Each item is worked on with what the items before it have left of the context, which makes no
difference. -/
theorem sweep {x : Action (ρ × Context) Unit} (determined : ∀ r, x.Determined r o) (rules : List ρ) :
    (Action.sweep x).Determined rules o := by
  induction rules with
  | nil => exact ⟨.ok (), [], [], fun c _ _ => ⟨c, sweep_nil x c, .nothing c⟩⟩
  | cons r rest ih =>
    obtain ⟨first, r', ticks, runs⟩ := determined r
    obtain ⟨second, rest', ticks', runs'⟩ := ih
    refine ⟨firstFailure first second, r' :: rest', ticks ++ ticks', fun c fair here => ?_⟩
    obtain ⟨c', run, does_⟩ := runs c fair here
    obtain ⟨c'', run', does'⟩ := runs' c' (does_.fair fair) (does_.steady.outlook.trans here)
    exact ⟨c'', sweep_cons run run', does_.trans does'⟩

end Determined

end Action

namespace Rule

open EniForwarding.Action (Determined)

variable (r : Rule) (o : Outlook)

theorem update_determined (f : Rule → Rule) : (update f).Determined r o :=
  ⟨.ok (), f r, [], fun c _ _ => ⟨c, rfl, .nothing c⟩⟩

theorem uninstall_determined (category : Audit.Category) : (uninstall category).Determined r o := by
  refine ⟨.ok (), { r with state := .uninstalled }, [.uninstalled], fun c fair _ => ?_⟩
  rcases uninstall_cases category r c with ⟨message, e, record, lost⟩ | ⟨switch, done, carried⟩
  · have succeeds : (uninstall category).Succeeds (r, c) := uninstall_succeeds category fair.willing
    exact absurd lost succeeds.not_error
  · refine ⟨_, carried, .of_accepted c done rfl rfl rfl, fun mirrored => ?_, fun _ => rfl⟩
    exact mirrored.transfer (Switch.perform_deleteRule done).2 fun _ => rfl

theorem dropNextHop_determined : dropNextHop.Determined r o := by
  cases leads : r.nextHop with
  | none => exact ⟨.ok (), r, [], fun c _ _ => ⟨c, dropNextHop_of_none leads c, .nothing c⟩⟩
  | some hop =>
    obtain ⟨freed, runs⟩ := hop.release_does
    refine ⟨.ok (), { r with nextHop := none }, [], fun c fair _ => ?_⟩
    obtain ⟨c', run, does_⟩ := runs c fair
    exact ⟨c', by rw [run_dropNextHop leads, run], does_⟩

theorem retarget_determined (t : Target) (vnet : String) : (retarget t vnet).Determined r o :=
  .bind (dropNextHop_determined r o) fun _ r => update_determined r o _

theorem findVip_determined : (Action.onSecond Context.findVip).Determined r o := by
  refine ⟨o.vip?.mapError fun e => .vipUnavailable e.message, r, [], fun c _ here => ?_⟩
  obtain ⟨c', run, does_⟩ := c.findVip_does
  refine ⟨c', ?_, does_⟩
  rw [Action.onSecond, run, here]

theorem install_determined (a : EniAttributes) (change : Change) (redirect : String) :
    (install a change redirect).Determined r o := by
  refine .bind (findVip_determined r o) fun vip r => ?_
  refine ⟨.ok (), { r with state := .installed }, [.installed], fun c fair _ => ?_⟩
  have succeeds := Context.setRule_succeeds fair.willing r.key
    (fields r.role a c.basePriority vip redirect)
  rcases c.setRule_cases r.key (fields r.role a c.basePriority vip redirect) with
    ⟨message, e, run⟩ | ⟨switch, done, run⟩
  · exact absurd run succeeds.not_error
  · have does_ : ∀ record,
        c.Does [.installed] ((c.installed r.key _ switch).noted (.audited record)) := fun record =>
      ⟨.of_accepted c done rfl rfl rfl,
        fun mirrored => mirrored.transfer (Switch.perform_setRule done).2 fun _ => rfl, fun _ => rfl⟩
    simp only [Action.run_bind, Action.run_get, Action.onSecond, Context.auditFailure,
      Action.onFailure, run]
    exact ⟨_, rfl, does_ _⟩

theorem settle_determined (a : EniAttributes) (change : Change) : (settle a change).Determined r o := by
  cases leads : r.nextHop with
  | none =>
    refine .congr (fun c _ => ?_) (.pure () r o)
    simp only [settle, Action.run_bind, Action.run_get, leads]
  | some hop =>
    have next : (if (hop.settled o).isResolved then install a change (hop.settled o).target
        else update fun r => { r with state := .pending }).Determined
          { r with nextHop := some (hop.settled o) } o := by
      split
      · exact install_determined _ o a change _
      · exact update_determined _ o _
    obtain ⟨result, r', ticks, runs⟩ := next
    refine ⟨result, r', ticks, fun c fair here => ?_⟩
    obtain ⟨c', run, does_⟩ := hop.resolve_does fair
    obtain ⟨c'', run', does'⟩ := runs c' (does_.fair fair) (does_.steady.outlook.trans here)
    refine ⟨c'', ?_, does_.trans does'⟩
    rw [run_settle a change leads, run, here]
    exact run'

theorem pursue_determined (a : EniAttributes) (t : Target) : (pursue a t).Determined r o := by
  have renews : ∀ change r, (do retarget t a.key.vnet; settle a change : Step Unit).Determined r o :=
    fun change r => .bind (retarget_determined r o t _) fun _ r => settle_determined r o a change
  cases differs : r.change t with
  | none =>
    refine .congr (fun c _ => ?_) (.pure () r o)
    simp only [pursue, Action.run_bind, Action.run_get, differs]
  | refresh =>
    refine .congr (fun c _ => ?_) (settle_determined r o a .refresh)
    simp only [pursue, Action.run_bind, Action.run_get, differs]
  | create =>
    refine .congr (fun c _ => ?_) (renews .create r)
    simp only [pursue, Action.run_bind, Action.run_get, differs]
  | move =>
    by_cases on : r.state = .installed
    · refine .congr (fun c _ => ?_)
        (.bind (uninstall_determined r o .resourceModify) fun _ => renews .move)
      simp only [pursue, Action.run_bind, Action.run_get, differs, on, if_true]
    · refine .congr (fun c _ => ?_) (renews .move r)
      simp only [pursue, Action.run_bind, Action.run_get, differs, on, if_false]

theorem fire_determined (a : EniAttributes) : (fire a).Determined r o := by
  by_cases failed : r.state = .failed
  · refine .congr (fun c _ => ?_) (.pure () r o)
    simp only [fire, Action.run_bind, Action.run_get, failed, if_true]
  cases aimed : target r.role a o.dpus with
  | ok t =>
    refine .congr (fun c here => ?_) (pursue_determined r o a t)
    have dpus : c.dpus = o.dpus := congrArg Outlook.dpus here
    simp only [fire, Action.run_bind, Action.run_get, failed, if_false, dpus, aimed]
  | error e =>
    by_cases waiting : r.state = .pending
    · refine .congr (fun c here => ?_) (update_determined r o fun r => { r with state := .failed })
      have dpus : c.dpus = o.dpus := congrArg Outlook.dpus here
      simp only [fire, Action.run_bind, Action.run_get, failed, if_false, dpus, aimed]
      rw [if_pos waiting]
    · refine .congr (fun c here => ?_) (.pure () r o)
      have dpus : c.dpus = o.dpus := congrArg Outlook.dpus here
      simp only [fire, Action.run_bind, Action.run_get, failed, if_false, dpus, aimed, waiting]

theorem destroy_determined : destroy.Determined r o := by
  by_cases on : r.state = .installed
  · refine .congr (fun c _ => ?_)
      (.bind (uninstall_determined r o .resourceDelete) fun _ r => dropNextHop_determined r o)
    simp only [destroy, Action.run_bind, Action.run_get, on, if_true]
  · refine .congr (fun c _ => ?_) (dropNextHop_determined r o)
    simp only [destroy, Action.run_bind, Action.run_get, on, if_false]

end Rule

namespace Eni

variable (eni : Eni) (o : Outlook)

theorem fireAll_determined : fireAll.Determined eni o := by
  obtain ⟨result, rules, ticks, runs⟩ : (Action.sweep (Rule.fire eni.attributes)).Determined
    eni.rules o := .sweep (fun r => Rule.fire_determined r o eni.attributes) eni.rules
  cases result with
  | ok _ =>
    refine ⟨.ok (), { eni with rules := rules, needsRefire := false }, ticks, fun c fair here => ?_⟩
    obtain ⟨c', run, does_⟩ := runs c fair here
    exact ⟨c', by rw [run_fireAll, run], does_⟩
  | error e =>
    refine ⟨.error e, { eni with rules := rules, needsRefire := true }, ticks, fun c fair here => ?_⟩
    obtain ⟨c', run, does_⟩ := runs c fair here
    exact ⟨c', by rw [run_fireAll, run], does_⟩

theorem destroy_determined : destroy.Determined eni o := by
  obtain ⟨result, rules, ticks, runs⟩ : (Action.sweep Rule.destroy).Determined eni.rules o :=
    .sweep (fun r => Rule.destroy_determined r o) eni.rules
  cases result with
  | ok _ =>
    refine ⟨.ok (), { eni with rules := [] }, ticks, fun c fair here => ?_⟩
    obtain ⟨c', run, does_⟩ := runs c fair here
    exact ⟨c', by rw [run_destroy, run], does_⟩
  | error e =>
    refine ⟨.error e, { eni with rules := rules }, ticks, fun c fair here => ?_⟩
    obtain ⟨c', run, does_⟩ := runs c fair here
    exact ⟨c', by rw [run_destroy, run], does_⟩

theorem update_determined (fields : Fields) : (update fields).Determined eni o := by
  cases required : orFail (fields.require UInt64 EniAttributes.primaryField) with
  | error e =>
    refine ⟨.error e, eni, [], fun c _ _ => ⟨c, ?_, .nothing c⟩⟩
    rw [run_update, required]
  | ok primary =>
    by_cases same : primary = eni.attributes.primary ∧ eni.needsRefire = false
    · refine ⟨.ok (), eni, [], fun c _ _ => ⟨c, ?_, .nothing c⟩⟩
      rw [run_update, required]
      exact if_pos same
    · obtain ⟨result, eni', ticks, runs⟩ := fireAll_determined (eni.withPrimary primary) o
      refine ⟨result, eni', ticks, fun c fair here => ?_⟩
      obtain ⟨c', run, does_⟩ := runs c fair here
      refine ⟨c', ?_, does_⟩
      rw [run_update, required]
      exact (if_neg same).trans run

end Eni

end EniForwarding
