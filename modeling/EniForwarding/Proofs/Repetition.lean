import EniForwarding.Proofs.Rule.Reached
import EniForwarding.Proofs.Settled
import EniForwarding.Proofs.Visits
import EniForwarding.Proofs.WakeUp

/-! Doing again what has been done.

A rule that has got where it aims aims at itself, so firing it again asks at most for its
neighbor. The same goes for all rules of an ENI, and for all ENIs that news about a neighbor
reaches: each of them stays at rest while the others are fired, because firing changes nothing
that can be looked up. A declaration that has been followed is not even worked on again.
-/

set_option autoImplicit false

namespace EniForwarding

open Tables

theorem NextHop.resolve_inert {h : NextHop} {c : Context} (stays : h.settled c.outlook = h) :
    ∃ c', h.resolve c = (.ok h, c') ∧ c.Inert c' := by
  rcases h with ⟨ip, resolved⟩ | ⟨ip, vnet, _ | tunnel⟩
  · obtain ⟨answer, reached⟩ := Context.reach_succeeds ip c
    have told : answer = c.outlook.reaches ip := (Context.steadily_reach ip c).2 answer reached
    have same : answer = resolved := told.trans (by injection stays)
    have run : reach ip c = (.ok resolved, (reach ip c).2) := Prod.ext (by rw [reached, same]) rfl
    have inert := Context.reach_inert ip c
    generalize (reach ip c).2 = c' at run inert
    refine ⟨c', ?_, inert⟩
    simp only [resolve, Action.run_bind, run]
    rfl
  · have nothing : c.env.inventory.tunnel? vnet = none := by injection stays
    refine ⟨c, ?_, refl c⟩
    simp only [resolve, Action.run_bind, Action.run_get, nothing]
    rfl
  · exact ⟨c, rfl, refl c⟩

namespace Rule

variable {a : EniAttributes} {r r' : Rule} {c c' : Context}

theorem waits_of_rest {t : Target} (live : r.state ≠ .failed)
    (aimed : target r.role a c.dpus = .ok t) (rest : r.aim c.outlook a = r)
    (off : r.change t ≠ .none) :
    ∃ hop, r.nextHop = some hop ∧ hop.LeadsTo t ∧ hop.settled c.outlook = hop ∧
      hop.isResolved = false ∧ r.state = .pending := by
  rw [aim_of_target live aimed, if_neg off] at rest
  have onto := (NextHop.settled_leadsTo c.outlook _ t).2 (heading_leadsTo r t a.key.vnet)
  have stays := NextHop.settled_settled c.outlook (r.heading t a.key.vnet)
  generalize (r.heading t a.key.vnet).settled c.outlook = hop at rest onto stays
  have leads : r.nextHop = some hop := by rw [← rest]; rfl
  have state : (if hop.isResolved then RuleState.installed else .pending) = r.state :=
    congrArg Rule.state rest
  cases resolved : hop.isResolved with
  | true =>
    have on : r.state = .installed := by simpa [resolved] using state.symm
    exact absurd (change_eq_none_iff.2 ⟨hop, leads, onto, resolved, on⟩) off
  | false => exact ⟨hop, leads, onto, stays, resolved, by simpa [resolved] using state.symm⟩

theorem fire_of_rest (rest : r.aim c.outlook a = r) :
    ∃ c', fire a (r, c) = (.ok (), r, c') ∧ c.Inert c' := by
  by_cases failed : r.state = .failed
  · exact ⟨c, fire_of_failed a c failed, refl c⟩
  · cases aimed : target r.role a c.dpus with
    | error e =>
      refine ⟨c, ?_, refl c⟩
      rw [aim_of_invalid failed aimed] at rest
      rw [fire_of_invalid failed aimed, rest]
    | ok t =>
      rw [fire_of_target failed aimed]
      by_cases stands : r.change t = .none
      · refine ⟨c, ?_, refl c⟩
        simp only [pursue, Action.run_bind, Action.run_get, stands]
        rfl
      · obtain ⟨hop, leads, onto, stays, unresolved, waiting⟩ :=
          waits_of_rest failed aimed rest stands
        obtain ⟨c', found, inert⟩ := NextHop.resolve_inert stays
        have refresh : r.change t = .refresh := by
          rw [change_eq leads, if_pos onto, if_neg (by simp [unresolved])]
        have same : ({ r with nextHop := some hop, state := .pending } : Rule) = r := by
          rw [← leads, ← waiting]
        refine ⟨c', ?_, inert⟩
        simp only [pursue, Action.run_bind, Action.run_get, refresh]
        rw [run_settle a .refresh leads, found]
        simp only [unresolved]
        exact congrArg (fun r => (Except.ok (), r, c')) same

/-- A rule that was fired with success is at rest, also where other calls fail. -/
theorem rest_of_fire {c₁ : Context} (sound : r.Sound) (fired : fire a (r, c) = (.ok (), r', c'))
    (around : c'.Around c₁) : r'.aim c₁.outlook a = r' := by
  obtain ⟨pursues, final⟩ := (fire_arrives a c sound).of_run fired
  have final : r' = r.aim c.outlook a := final
  have outlook : c'.outlook = c.outlook := pursues.steady.outlook
  rw [aim_eq around.agrees, outlook, final, aim_aim]

end Rule

namespace Eni

variable {eni : Eni} {o o' : Outlook} {c : Context}

theorem settled_settled : (eni.settled o).settled o = eni.settled o := by
  simp only [settled, List.map_map, Function.comp_def, Rule.aim_aim]

theorem settled_eq (agrees : o.Agrees o') : eni.settled o' = eni.settled o := by
  have aims : Rule.aim o' eni.attributes = Rule.aim o eni.attributes :=
    funext (Rule.aim_eq agrees eni.attributes)
  rw [settled, aims, settled]

theorem sweep_of_rest {a : EniAttributes} (rules : List Rule) (c : Context)
    (rest : ∀ r ∈ rules, r.aim c.outlook a = r) :
    ∃ c', Action.sweep (Rule.fire a) (rules, c) = (.ok (), rules, c') ∧ c.Inert c' := by
  induction rules generalizing c with
  | nil => exact ⟨c, Action.sweep_nil _ c, refl c⟩
  | cons r rules ih =>
    obtain ⟨head, tail⟩ := List.forall_mem_cons.1 rest
    obtain ⟨c₁, fired, inert⟩ := Rule.fire_of_rest head
    -- the rules that come later are still at rest
    obtain ⟨c₂, swept, inert'⟩ := ih c₁ (by rwa [inert.outlook])
    exact ⟨c₂, Action.sweep_cons fired swept, IsTrans.trans _ _ _ inert inert'⟩

theorem fireAll_of_rest (rest : eni.settled c.outlook = eni) :
    ∃ c', fireAll (eni, c) = (.ok (), eni, c') ∧ c.Inert c' := by
  have rules : eni.rules.map (Rule.aim c.outlook eni.attributes) = eni.rules.map id := by
    rw [List.map_id]
    exact congrArg Eni.rules rest
  have calm : eni.needsRefire = false := (congrArg needsRefire rest).symm
  obtain ⟨c', swept, inert⟩ := sweep_of_rest eni.rules c (List.map_inj_left.1 rules)
  refine ⟨c', ?_, inert⟩
  rw [run_fireAll, swept, ← calm]

end Eni

namespace Reconciler

/-- The tables stay, and no call is made. -/
structure Unmoved (s s' : Reconciler) : Prop where
  tables : s'.tables = s.tables
  ctx : s.ctx.Inert s'.ctx

/-- The same reconciler in other surroundings, where the same can be looked up but for the VIP. -/
def Around (s s' : Reconciler) : Prop := ∃ c, s.ctx.Around c ∧ s' = { s with ctx := c }

/-- All rules of the ENI under a key have got where they aim. -/
def RestsAt (key : EniKey) (s : Reconciler) : Prop :=
  ∀ eni, s.enis.get? key = some eni → eni.settled s.ctx.outlook = eni

section news

variable {s s' : Reconciler} {key other : EniKey}

theorem wake_of_rest (rest : s.RestsAt key) :
    ∃ c', wake true key s = (.ok (), { s with ctx := c' }) ∧ s.ctx.Inert c' := by
  cases there : s.enis.get? key with
  | none => exact ⟨s.ctx, run_wake_unknown true there, refl s.ctx⟩
  | some eni =>
    obtain ⟨c', fired, inert⟩ := Eni.fireAll_of_rest (rest eni there)
    refine ⟨c', ?_, inert⟩
    rw [run_wake true there, if_pos rfl, fired, SortedMap.insert_of_get? there]

theorem visit_of_rest (keys : List EniKey) (s : Reconciler) (rest : ∀ key ∈ keys, s.RestsAt key) :
    ∃ c', Action.visit (wake true) keys s = (.ok (), { s with ctx := c' }) ∧ s.ctx.Inert c' := by
  induction keys generalizing s with
  | nil => exact ⟨s.ctx, rfl, refl s.ctx⟩
  | cons key keys ih =>
    obtain ⟨head, tail⟩ := List.forall_mem_cons.1 rest
    obtain ⟨c₁, woken, inert⟩ := wake_of_rest head
    obtain ⟨c₂, visited, inert'⟩ := ih { s with ctx := c₁ } fun key later eni there => by
      rw [inert.outlook]
      exact tail key later eni there
    refine ⟨c₂, ?_, IsTrans.trans _ _ _ inert inert'⟩
    simp only [Action.visit, Action.both, woken, visited]
    rfl

/-- An ENI that was woken with success is at rest, and one that was at rest stays so. -/
theorem wake_restsAt (kept : s.Kept) (woken : wake true other s = (.ok (), s'))
    (rest : key = other ∨ s.RestsAt key) : s'.RestsAt key := by
  by_cases same : key = other
  · subst same
    cases there : s.enis.get? key with
    | none =>
      rw [run_wake_unknown true there] at woken
      cases woken
      intro eni found
      cases there.symm.trans found
    | some eni =>
      rw [run_wake true there, if_pos rfl] at woken
      rcases Eni.fireAll_outcome eni s.ctx (kept.sound there) with
        ⟨c', fired, pursuit⟩ | ⟨e, rules, c', fired, -⟩
      · rw [fired] at woken
        cases woken
        intro eni' found
        cases (SortedMap.get?_insert_self _ _ _).symm.trans found
        have outlook : c'.outlook = s.ctx.outlook := pursuit.outlook
        show (eni.settled s.ctx.outlook).settled c'.outlook = _
        rw [outlook, Eni.settled_settled]
      · rw [fired] at woken
        cases woken
  · have spares := wake_spares true (Ne.symm same) s
    rw [woken] at spares
    intro eni found
    rw [(spares.onward kept).outlook]
    exact rest.resolve_left same eni (spares.eni.symm.trans found)

theorem visit_restsAt (kept : s.Kept) {keys : List EniKey}
    (visited : Action.visit (wake true) keys s = (.ok (), s')) (rest : key ∈ keys ∨ s.RestsAt key) :
    s'.RestsAt key := by
  induction keys generalizing s with
  | nil =>
    cases visited
    exact rest.resolve_left List.not_mem_nil
  | cons first keys ih =>
    have kept₁ := wake_kept true first kept
    simp only [Action.visit, Action.both] at visited
    generalize woken : wake true first s = outcome at visited kept₁
    obtain ⟨result, s₁⟩ := outcome
    -- a visit that fails is not made up for by the later ones
    cases result with
    | error e => cases visited
    | ok _ =>
      refine ih kept₁ visited ?_
      rcases rest with member | rest
      · rcases List.mem_cons.1 member with here | later
        · exact .inr (wake_restsAt kept woken (.inl here))
        · exact .inl later
      · exact .inr (wake_restsAt kept woken (.inr rest))

/-- Only ENIs and the context are changed by news about a neighbor, whatever comes of it. -/
theorem visit_wake_eq (added : Bool) (keys : List EniKey) (s : Reconciler) :
    ∃ enis c, (Action.visit (wake added) keys s).2 = { s with enis := enis, ctx := c } := by
  induction keys generalizing s with
  | nil => exact ⟨s.enis, s.ctx, rfl⟩
  | cons key keys ih =>
    have woken : ∃ enis c, (wake added key s).2 = { s with enis := enis, ctx := c } := by
      rcases wake_cases added key s with same | ⟨eni, -, same⟩
      · exact ⟨s.enis, s.ctx, same⟩
      · exact ⟨_, _, same⟩
    obtain ⟨enis, c, same⟩ := woken
    obtain ⟨enis', c', visited⟩ := ih (wake added key s).2
    exact ⟨enis', c', visited.trans (by rw [same])⟩

theorem onNeighbor_unmoved (kept : s.Kept) {neighbor : Neighbor} {s₁ : Reconciler}
    (done : onNeighbor ⟨neighbor, true⟩ s = (.ok (), s')) (around : s'.Around s₁) :
    ∃ s₂, onNeighbor ⟨neighbor, true⟩ s₁ = (.ok (), s₂) ∧ s₁.Unmoved s₂ := by
  obtain ⟨c₁, around, rfl⟩ := around
  cases owned : s.owners.get? neighbor.ip with
  | none =>
    rw [run_onNeighbor] at done
    simp only [owned] at done
    cases done
    refine ⟨{ s with ctx := c₁ }, ?_, rfl, refl c₁⟩
    rw [run_onNeighbor]
    simp only [owned]
  | some dpu =>
    rw [run_onNeighbor_owned owned] at done
    generalize begun : ({ s with neighborUpdates := s.neighborUpdates.bump } : Reconciler) = s₀ at done
    have calm : Calm s s₀ := by rw [← begun]; exact ⟨rfl, rfl, .refl⟩
    have follows : Follows (fun _ => True) s s₀ := calm.follows
    have rest : ∀ key ∈ s.hostedOn dpu, s'.RestsAt key := fun key hosted =>
      visit_restsAt (follows kept).1 done (.inl hosted)
    -- the DPU at the address and what it hosts are the same
    obtain ⟨enis, c, same⟩ := visit_wake_eq true (s.hostedOn dpu) s₀
    have same : s' = { s₀ with enis := enis, ctx := c } := (congrArg Prod.snd done).symm.trans same
    have owners : s'.owners = s.owners := by rw [same, ← begun]
    have hosted : s'.hosted = s.hosted := by rw [same, ← begun]
    have keys : ({ s' with ctx := c₁ } : Reconciler).hostedOn dpu = s.hostedOn dpu := by
      simp only [hostedOn, hosted]
    obtain ⟨c₂, visited, inert⟩ := visit_of_rest (s.hostedOn dpu)
      { s' with ctx := c₁, neighborUpdates := s'.neighborUpdates.bump } fun key member eni there => by
        rw [Eni.settled_eq around.agrees]
        exact rest key member eni there
    have dpus : c₂.dpus = c₁.dpus := congrArg Outlook.dpus inert.outlook
    refine ⟨{ s' with ctx := c₂, neighborUpdates := s'.neighborUpdates.bump }, ?_, ?_, inert⟩
    · rw [run_onNeighbor_owned (s := { s' with ctx := c₁ }) (by rw [← owned, ← owners]), keys]
      exact visited
    · simp only [tables, dpus]

end news

section declaration

variable {s s' s₁ : Reconciler} {key : EniKey} {fields : Fields}

theorem set_unmoved (done : set key fields s = (.ok (), s')) (around : s'.Around s₁) :
    ∃ s₂, set key fields s₁ = (.ok (), s₂) ∧ s₁.Unmoved s₂ := by
  obtain ⟨c₁, -, rfl⟩ := around
  obtain ⟨ready, eni, there, calm, named⟩ := entered_of_set done
  have updated : Eni.update fields (eni, c₁) = (.ok (), eni, c₁) := by
    rw [Eni.run_update, named]
    exact if_pos ⟨rfl, calm⟩
  refine ⟨_, run_set_update (s := { s' with ctx := c₁ }) ready there updated, ?_, refl c₁⟩
  simp only [tables, SortedMap.insert_of_get? there]

end declaration

/-- Whatever was done with success is done again with success and without a call, as long as
interfaces, neighbors and tunnels are found as before: firing a rule again leaves it as it is,
and repeating a declaration or the news that a neighbor has come leaves all tables as they are. -/
theorem repetition_without_effect {role : Role} {name : String} {r : Rule} {c : Context}
    (reached : Rule.Reached role name r c) (a : EniAttributes) {config : Config}
    {inventory : Inventory} {requests : List Request} {s : Reconciler}
    (visits : Visits (fresh config inventory) requests s) :
    (∀ r' c' c₁, Rule.fire a (r, c) = (.ok (), r', c') → c'.Around c₁ →
      ∃ c₂, Rule.fire a (r', c₁) = (.ok (), r', c₂) ∧ c₁.Inert c₂) ∧
    (∀ key fields s' s₁, set key fields s = (.ok (), s') → s'.Around s₁ →
      ∃ s₂, set key fields s₁ = (.ok (), s₂) ∧ s₁.Unmoved s₂) ∧
    ∀ neighbor s' s₁, onNeighbor ⟨neighbor, true⟩ s = (.ok (), s') → s'.Around s₁ →
      ∃ s₂, onNeighbor ⟨neighbor, true⟩ s₁ = (.ok (), s₂) ∧ s₁.Unmoved s₂ := by
  refine ⟨fun r' c' c₁ fired around => ?_, fun key fields s' s₁ => set_unmoved,
    fun neighbor s' s₁ => onNeighbor_unmoved visits.lawful.1.kept⟩
  exact Rule.fire_of_rest (Rule.rest_of_fire reached.standing.sound fired around)

section sample

def neighborlyRequests : List Request :=
  .set ⟨"Vnet_1000", ⟨0x11, 0x22, 0x33, 0x44, 0x55, 0x66⟩⟩ [("vdpu_ids", "1"), ("primary_vdpu", "1")] ::
    waitingRequests "1" firstAddress

def movedAway : List (String × String) := [("vdpu_ids", "1,4"), ("primary_vdpu", "4")]

def balking (c : Context) : Context := c.surround c.env.inventory .none true true

/-- A rule that was installed, a declaration that has moved an ENI and news that has woken two are
repeated where the switch would refuse any call. -/
theorem sample_repetition_without_effect :
    ∃ s moved woken, Visits (fresh {} twoHosts) neighborlyRequests s ∧
      set sampleEni movedAway s = (.ok (), moved) ∧
      onNeighbor ⟨⟨firstAddress, "Vlan1"⟩, true⟩ s = (.ok (), woken) ∧
      (s.ctx.rulesInstalled, moved.ctx.rulesInstalled, woken.ctx.rulesInstalled) = (0, 1, 4) ∧
      (∃ c, Rule.fire (Rule.sampleAttributes 2) (Rule.sampleFired.1, balking Rule.sampleFired.2) =
        (.ok (), Rule.sampleFired.1, c) ∧ (balking Rule.sampleFired.2).Inert c) ∧
      (∃ t, set sampleEni movedAway { moved with ctx := balking moved.ctx } = (.ok (), t) ∧
        Unmoved { moved with ctx := balking moved.ctx } t) ∧
      ∃ t, onNeighbor ⟨⟨firstAddress, "Vlan1"⟩, true⟩ { woken with ctx := balking woken.ctx } =
        (.ok (), t) ∧ Unmoved { woken with ctx := balking woken.ctx } t := by
  have new : Rule.Reached .inbound "rule" (Rule.ofRole .inbound "rule") Rule.sampleContext :=
    .new (by decide +kernel)
  have installs : (Rule.fire (Rule.sampleAttributes 2)
      (Rule.ofRole .inbound "rule", Rule.sampleContext)).1 = .ok () := by decide +kernel
  have succeeds : (set sampleEni movedAway ((fresh {} twoHosts).run neighborlyRequests)).1 = .ok () ∧
      (onNeighbor ⟨⟨firstAddress, "Vlan1"⟩, true⟩
        ((fresh {} twoHosts).run neighborlyRequests)).1 = .ok () := by
    decide +kernel
  have counts : (((fresh {} twoHosts).run neighborlyRequests).ctx.rulesInstalled,
      (set sampleEni movedAway ((fresh {} twoHosts).run neighborlyRequests)).2.ctx.rulesInstalled,
      (onNeighbor ⟨⟨firstAddress, "Vlan1"⟩, true⟩
        ((fresh {} twoHosts).run neighborlyRequests)).2.ctx.rulesInstalled) = (0, 1, 4) := by
    decide +kernel
  have visits : Visits (fresh {} twoHosts) neighborlyRequests
    ((fresh {} twoHosts).run neighborlyRequests) := .inl rfl
  generalize (fresh {} twoHosts).run neighborlyRequests = s at succeeds counts visits
  have around : ∀ c : Context, c.Around (balking c) := fun c => c.around_surround .none true true
  have moved : set sampleEni movedAway s = (.ok (), (set sampleEni movedAway s).2) :=
    Prod.ext succeeds.1 rfl
  have woken : onNeighbor ⟨⟨firstAddress, "Vlan1"⟩, true⟩ s =
      (.ok (), (onNeighbor ⟨⟨firstAddress, "Vlan1"⟩, true⟩ s).2) := Prod.ext succeeds.2 rfl
  obtain ⟨fires, sets, news⟩ := repetition_without_effect new (Rule.sampleAttributes 2) visits
  refine ⟨s, _, _, visits, moved, woken, counts, ?_, ?_, ?_⟩
  · exact fires _ _ _ (Prod.ext installs rfl) (around _)
  · exact sets _ _ _ _ moved ⟨_, around _, rfl⟩
  · exact news _ _ _ woken ⟨_, around _, rfl⟩

end sample

end Reconciler

end EniForwarding
