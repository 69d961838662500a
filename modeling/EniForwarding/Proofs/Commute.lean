import EniForwarding.Proofs.Attending
import EniForwarding.Proofs.Isolation

/-! Entries of different ENIs can be attended to in either order.

An entry of one ENI changes nothing that decides about an entry of another, so each has the same
result in either order and leaves its ENI as it would. The states in between differ: a tunnel next
hop may be there for one of the entries in one order and not in the other. In the end the tables of
ENIs are the same, and they tell the rules of the switch, the ENIs that each DPU hosts and the
users of each tunnel next hop.
-/

set_option autoImplicit false

namespace EniForwarding

theorem Faults.eq_none {f : Faults} (empty : f.plans.isEmpty = true) : f = .none :=
  congrArg Faults.mk (List.isEmpty_iff.1 empty)

namespace Reconciler

variable {s t t' u u' : Reconciler} {k l : EniKey} {eni eni' : Option Eni} {ticks ticks' : List Tick}

theorem Poised.after {o : Outlook} {config : Config} (poised : Poised l o config eni s)
    (enacts : Enacts k eni' ticks s t) (apart : l ≠ k) (lawful : t.Lawful)
    (same : t.config = s.config) : Poised l o config eni t where
  ready := enacts.initialized.trans poised.ready
  fair := ⟨enacts.steady.willing poised.fair.willing, lawful.coherent.mirrored⟩
  outlook := enacts.steady.outlook.trans poised.outlook
  config := same.trans poised.config
  table := by rw [lawful.kept.table, same, poised.config]
  eni := (enacts.others l apart).trans poised.eni

/-- An entry of one ENI does the same before and after an entry of another. -/
theorem attend_after (lawful : s.Lawful) (ready : s.initialized = true) (willing : s.ctx.Willing)
    {first second : Entry} (named : EniKey.read s.config.separator first.key = .ok k)
    (named' : EniKey.read s.config.separator second.key = .ok l) (apart : l ≠ k) :
    (attend second (attend first s).2).1 = (attend second s).1 ∧
      ∃ eni ticks, Enacts l eni ticks s (attend second s).2 ∧
        Enacts l eni ticks (attend first s).2 (attend second (attend first s).2).2 := by
  have poised : ∀ key, Poised key s.ctx.outlook s.config (s.enis.get? key) s := fun key =>
    ⟨ready, ⟨willing, lawful.coherent.mirrored⟩, rfl, lawful.kept.table, rfl, rfl⟩
  obtain ⟨lawful', same⟩ := lawful.advance (attend_advances first s)
  obtain ⟨_, _, _, first_told⟩ :=
    attend_foreseen k s.ctx.outlook s.config (s.enis.get? k) named
  have poised' := (poised l).after (first_told s (poised k)).2 apart lawful' same
  -- what is told of the second entry holds in both states
  obtain ⟨result, eni, ticks, told⟩ :=
    attend_foreseen l s.ctx.outlook s.config (s.enis.get? l) named'
  obtain ⟨result_eq, enacts⟩ := told s (poised l)
  obtain ⟨result_eq', enacts'⟩ := told (attend first s).2 poised'
  exact ⟨result_eq'.trans result_eq.symm, eni, ticks, enacts, enacts'⟩

section either

variable (first : Enacts k eni ticks s t) (second : Enacts l eni' ticks' t u)
  (second' : Enacts l eni' ticks' s t') (first' : Enacts k eni ticks t' u')

include first second second' first'

theorem Enacts.enis_comm (apart : k ≠ l) : u'.enis = u.enis := by
  apply SortedMap.ext_get?
  intro key
  by_cases one : key = k
  · rw [one, first'.eni, second.others k apart, first.eni]
  · by_cases two : key = l
    · rw [two, first'.others l (Ne.symm apart), second'.eni, second.eni]
    · rw [first'.others key one, second'.others key two, second.others key two,
        first.others key one]

theorem Enacts.stats_comm : u'.stats = u.stats := by
  rw [first'.stats, second'.stats, second.stats, first.stats, Stats.ticked_comm]

theorem Enacts.outlook_comm : u'.ctx.outlook = u.ctx.outlook := by
  have before : u.ctx.outlook = s.ctx.outlook :=
    second.steady.outlook.trans first.steady.outlook
  have after : u'.ctx.outlook = s.ctx.outlook :=
    first'.steady.outlook.trans second'.steady.outlook
  exact after.trans before.symm

end either

/-- As long as they can be counted, the users of a tunnel next hop are told by the ENIs. -/
theorem users_eq_of_enis {fits : Nat → Prop} (reachable : World.Reachable fits s.world)
    (reachable' : World.Reachable fits t.world) (countable : History.Countable s.ctx.env.trace)
    (countable' : History.Countable t.ctx.env.trace) (enis : t.enis = s.enis) (hop : TunnelHop) :
    t.ctx.users hop = s.ctx.users hop := by
  have before : s.ctx.users hop = s.holders hop :=
    refs_eq_holders reachable.coherent (reachable.counting countable).exact_ hop
  have after : t.ctx.users hop = t.holders hop :=
    refs_eq_holders reachable'.coherent (reachable'.counting countable').exact_ hop
  rw [before, after, holders, holders, rules, rules, enis]

theorem reachable_of_advances (kept : s.Kept)
    (reachable : World.Reachable (fun _ => True) s.world) (advances : Advances s t) :
    World.Reachable (fun _ => True) t.world := by
  obtain ⟨inventory, table, base, path⟩ := reachable
  exact ⟨inventory, table, base, path.trans (advances.follows kept).2.2⟩

/-- Two entries that are addressed to different ENIs have the same results in either order, and in
the end all is the same that does not tell the order: the ENIs and where they are hosted, what is
counted, and the rules of the switch. So are the numbers of users of each tunnel next hop and which
of them the switch has, as long as users can be counted: a count that is full misses a user who
comes before another one leaves, but not one who comes afterwards. -/
theorem entries_commute (config : Config) (inventory : Inventory) (requests : List Request)
    (s : Reconciler) (visited : Visits (fresh config inventory) requests s)
    (ready : s.initialized = true) (willing : s.ctx.Willing) (first second : Entry) (k l : EniKey)
    (named : EniKey.read s.config.separator first.key = .ok k)
    (named' : EniKey.read s.config.separator second.key = .ok l) (apart : k ≠ l) :
    let one := attend first s
    let two := attend second one.2
    let two' := attend second s
    let one' := attend first two'.2
    (work [first, second] ∅ s).2 = two.2 ∧ (work [second, first] ∅ s).2 = one'.2 ∧
    one'.1 = one.1 ∧ two'.1 = two.1 ∧
    one'.2.enis = two.2.enis ∧ one'.2.hosted = two.2.hosted ∧ one'.2.stats = two.2.stats ∧
    one'.2.ctx.env.switch.rules = two.2.ctx.env.switch.rules ∧
    (History.Countable two.2.ctx.env.trace → History.Countable one'.2.ctx.env.trace →
      (∀ hop, one'.2.ctx.tunnels.refs? hop = two.2.ctx.tunnels.refs? hop) ∧
      ∀ name, one'.2.ctx.env.switch.tunnels.contains name =
        two.2.ctx.env.switch.tunnels.contains name) := by
  intro one two two' one'
  have keys : second.key ≠ first.key := by
    intro same
    rw [same, named] at named'
    exact apart (Except.ok.inj named')
  obtain ⟨lawful, -⟩ := visited.lawful
  have advances : Advances s two.2 :=
    IsTrans.trans _ _ _ (attend_advances first s) (attend_advances second one.2)
  have advances' : Advances s one'.2 :=
    IsTrans.trans _ _ _ (attend_advances second s) (attend_advances first two'.2)
  obtain ⟨lawful₂, config₂⟩ := lawful.advance advances
  obtain ⟨lawful₂', config₂'⟩ := lawful.advance advances'
  obtain ⟨same, _, _, second_now, second_later⟩ :=
    attend_after lawful ready willing named named' (Ne.symm apart)
  obtain ⟨same', _, _, first_now, first_later⟩ :=
    attend_after lawful ready willing named' named apart
  have enis : one'.2.enis = two.2.enis :=
    first_now.enis_comm second_later second_now first_later apart
  have outlook : one'.2.ctx.outlook = two.2.ctx.outlook :=
    first_now.outlook_comm second_later second_now first_later
  refine ⟨work_pair keys s, work_pair (Ne.symm keys) s, same', same.symm, enis, ?_,
    first_now.stats_comm second_later second_now first_later, ?_, fun countable countable' => ?_⟩
  · exact lawful₂.hosted_eq lawful₂' enis (congrArg Outlook.dpus outlook)
  · exact lawful₂.rules_eq lawful₂' enis (config₂'.trans config₂.symm)
      (congrArg Outlook.vip? outlook)
  · have reachable : World.Reachable (fun _ => True) s.world :=
      (visited.reachable fun _ _ => trivial).2
    have users := users_eq_of_enis (reachable_of_advances lawful.kept reachable advances)
      (reachable_of_advances lawful.kept reachable advances') countable countable' enis
    have refs : ∀ hop, one'.2.ctx.tunnels.refs? hop = two.2.ctx.tunnels.refs? hop :=
      fun hop => Context.refs?_eq lawful₂.used lawful₂'.used (users hop)
    exact ⟨refs, lawful₂.tunnels_eq lawful₂' refs⟩

section sample

def crossing : Entry := ⟨"Vnet_1000:11:22:33:44:55:66", .set, [("primary_vdpu", "2")]⟩

/-- One of the pair is deleted and the other one sent elsewhere. The entry that comes first lets go of
a tunnel next hop that the other one still holds, and the one that comes second gives it up. -/
theorem sample_commutes :
    let s := (fresh {} sampleInventory).run pairRequests
    let one := (attend farewell s).2
    let one' := (attend crossing s).2
    (one.ctx.tunnels.refs? sharedHop = some 2 ∧ one'.ctx.tunnels.refs? sharedHop = some 2) ∧
      (attend farewell one').1 = (attend farewell s).1 ∧
      (attend farewell one').2.enis = (attend crossing one).2.enis ∧
      (attend farewell one').2.stats = (attend crossing one).2.stats ∧
      (attend farewell one').2.ctx.tunnels.refs? sharedHop = none ∧
      (attend crossing one).2.ctx.tunnels.refs? sharedHop = none := by
  have calm : ((fresh {} sampleInventory).run pairRequests).initialized = true ∧
      ((fresh {} sampleInventory).run pairRequests).ctx.env.faults.plans.isEmpty = true ∧
      ((fresh {} sampleInventory).run pairRequests).ctx.env.switch.rejectsAcl = false ∧
      ((fresh {} sampleInventory).run pairRequests).ctx.env.switch.rejectsTunnels = false := by
    decide +kernel
  obtain ⟨ready, faultless, acl, tunnels⟩ := calm
  have willing : ((fresh {} sampleInventory).run pairRequests).ctx.Willing :=
    ⟨Faults.eq_none faultless, acl, tunnels⟩
  have commute := entries_commute {} sampleInventory pairRequests _ (.inl rfl) ready willing
    farewell crossing sampleEni neighborEni (by decide +kernel) (by decide +kernel) (by decide)
  have halves : (attend farewell ((fresh {} sampleInventory).run pairRequests)).2.ctx.tunnels.refs?
        sharedHop = some 2 ∧
      (attend crossing ((fresh {} sampleInventory).run pairRequests)).2.ctx.tunnels.refs?
        sharedHop = some 2 := by
    decide +kernel
  have gone : (attend crossing (attend farewell
      ((fresh {} sampleInventory).run pairRequests)).2).2.ctx.tunnels.refs? sharedHop = none := by
    decide +kernel
  have countable : History.Countable (attend crossing (attend farewell
      ((fresh {} sampleInventory).run pairRequests)).2).2.ctx.env.trace :=
    History.countable_of_length (by decide +kernel)
  have countable' : History.Countable (attend farewell (attend crossing
      ((fresh {} sampleInventory).run pairRequests)).2).2.ctx.env.trace :=
    History.countable_of_length (by decide +kernel)
  dsimp only at commute ⊢
  generalize (fresh {} sampleInventory).run pairRequests = s at *
  obtain ⟨-, -, same, -, enis, -, stats, -, counts⟩ := commute
  have refs := (counts countable countable').1 sharedHop
  exact ⟨halves, same, enis, stats, refs.trans gone, gone⟩

end sample

end Reconciler

end EniForwarding
