import EniForwarding.Proofs.Tunnels
import EniForwarding.Proofs.Turns

/-! What the tables and the lookups tell about the switch.

In every state that a run can reach, the rules of the switch can be told from the table of
ENIs and the VIP, and its tunnel next hops and their counts from the numbers of users. So two
states that agree in these agree in what can be seen of the switch.
-/

set_option autoImplicit false

namespace EniForwarding

open Relation Tables

namespace Context

/-- Every tunnel next hop in the table has a user. -/
def Used (c : Context) : Prop := ∀ hop use, c.tunnels.get? hop = some use → use.refs ≠ 0

section used

variable {c c' : Context} {hop : TunnelHop} {use : TunnelUse}

theorem Used.insert (used : c.Used) (here : use.refs ≠ 0)
    (tunnels : c'.tunnels = c.tunnels.insert hop use) : c'.Used := by
  intro other found known
  rw [tunnels, SortedMap.get?_insert_ite] at known
  split at known
  · cases known
    exact here
  · exact used other found known

theorem Used.of_eq (used : c.Used) (tunnels : c'.tunnels = c.tunnels) : c'.Used := by
  intro hop use known
  rw [tunnels] at known
  exact used hop use known

theorem up_ne_zero (n : UInt32) : Counted.up n ≠ 0 := by
  intro zero
  have up := congrArg UInt32.toNat zero
  rw [Counted.toNat_up] at up
  have size : UInt32.size = 4294967296 := rfl
  have nothing : (0 : UInt32).toNat = 0 := rfl
  omega

end used

end Context

theorem Rule.Move.used {owner : EniAttributes} {r r' : Rule} {c c' : Context}
    (move : Move owner (r, c) (r', c')) (used : c.Used) : c'.Used := by
  cases move with
  | quiet _ quiet => exact used.of_eq quiet.same.2.2.1
  | refused | adjust | uninstall | install | stray => exact used.of_eq rfl
  | @join _ _ _ tunnel use off free holds known => exact used.insert (Context.up_ne_zero use.refs) rfl
  | @found _ _ _ tunnel switch off free holds unknown done =>
    exact used.insert (Context.up_ne_zero 0) (SortedMap.insert_insert _ _ _ _)
  | @leave _ _ tunnel use off held known shared =>
    refine used.insert (fun zero => ?_) rfl
    have several := UInt32.lt_iff_toNat_lt.1 shared
    have less := congrArg UInt32.toNat zero
    rw [UInt32.toNat_sub_of_le _ _ (UInt32.le_of_lt shared)] at less
    have one : (1 : UInt32).toNat = 1 := rfl
    have nothing : (0 : UInt32).toNat = 0 := rfl
    omega
  | @abandon _ _ tunnel use switch off held known last done =>
    intro hop use' known'
    by_cases same : hop = tunnel
    · have gone : (c.tunnels.erase tunnel).get? hop = none := by rw [same, SortedMap.get?_erase_self]
      cases gone.symm.trans known'
    · exact used hop use' ((SortedMap.get?_erase_ne _ same).symm.trans known')

theorem World.Steps.used {fits : Nat → Prop} {s s' : World} (steps : Steps fits s s')
    (used : s.ctx.Used) : s'.ctx.Used := by
  induction steps with
  | refl => exact used
  | tail _ step ih =>
    cases step with
    | quiet _ quiet => exact ih.of_eq quiet.same.2.2.1
    | move _ move => exact move.used ih
    | enter | leave => exact ih

namespace Context

/-- The table counts no more users than there are. -/
def Covered (c : Context) : Prop := ∀ hop, c.users hop ≤ History.references hop c.env.trace

theorem Covered.update {c c' : Context} (covered : c.Covered) (tunnel : TunnelHop)
    (here : c'.users tunnel ≤ History.references tunnel c'.env.trace)
    (others : ∀ hop, hop ≠ tunnel → c'.users hop = c.users hop ∧
      History.references hop c'.env.trace = History.references hop c.env.trace) : c'.Covered := by
  intro hop
  by_cases same : hop = tunnel
  · exact same ▸ here
  · obtain ⟨users, references⟩ := others hop same
    rw [users, references]
    exact covered hop

end Context

/-- A count that is full falls behind, and one that is not keeps step. -/
theorem Rule.Move.covered {owner : EniAttributes} {r r' : Rule} {c c' : Context}
    (move : Move owner (r, c) (r', c')) (covered : c.Covered) : c'.Covered := by
  cases move with
  | quiet _ quiet =>
    intro hop
    rw [Context.users, quiet.same.2.2.1, quiet.references hop]
    exact covered hop
  | refused | adjust | uninstall | install => exact covered
  | @join _ _ _ tunnel use off free holds known =>
    have before := covered tunnel
    rw [Context.users_of_get? known] at before
    have up := Counted.toNat_up use.refs
    refine covered.update tunnel ?_ fun hop other => ⟨Context.users_insert_ne other rfl, ?_⟩
    · rw [Context.references_joined, if_pos rfl,
        Context.users_of_get? (SortedMap.get?_insert_self _ _ _)]
      exact le_trans (le_of_eq up) (by omega)
    · rw [Context.references_joined, if_neg (Ne.symm other), Nat.add_zero]
  | @found _ _ _ tunnel switch off free holds unknown done =>
    have up : (Counted.up 0 : UInt32).toNat = 1 := Counted.toNat_up 0
    refine covered.update tunnel ?_ fun hop other => ⟨?_, ?_⟩
    · rw [Context.references_founded, if_pos rfl,
        Context.users_of_get? (SortedMap.get?_insert_self _ _ _)]
      exact le_trans (le_of_eq up) (by omega)
    · simp only [Context.users, SortedMap.refs?, Context.founded, SortedMap.get?_insert_ne _ _ other]
    · rw [Context.references_founded, if_neg (Ne.symm other), Nat.add_zero]
  | @leave _ _ tunnel use off holds known shared =>
    have before := covered tunnel
    rw [Context.users_of_get? known] at before
    have one_less : (use.refs - 1).toNat = use.refs.toNat - 1 :=
      UInt32.toNat_sub_of_le _ _ (UInt32.le_of_lt shared)
    refine covered.update tunnel ?_ fun hop other => ⟨Context.users_insert_ne other rfl, ?_⟩
    · rw [Context.references_left, if_pos rfl,
        Context.users_of_get? (SortedMap.get?_insert_self _ _ _)]
      exact le_trans (le_of_eq one_less) (by omega)
    · rw [Context.references_left, if_neg (Ne.symm other), Nat.sub_zero]
  | @abandon _ _ tunnel use switch off holds known last done =>
    refine covered.update tunnel ?_ fun hop other => ⟨?_, ?_⟩
    · rw [Context.users_of_unknown (SortedMap.get?_erase_self _ _)]
      exact Nat.zero_le _
    · simp only [Context.users, SortedMap.refs?, Context.abandoned, SortedMap.get?_erase_ne _ other]
    · rw [Context.references_abandoned, if_neg (Ne.symm other), Nat.sub_zero]
  | @stray _ _ tunnel off holds unknown =>
    refine covered.update tunnel ?_ fun hop other => ⟨rfl, ?_⟩
    · rw [Context.users_of_unknown (c := c.noted (.left tunnel false)) unknown]
      exact Nat.zero_le _
    · simp [Context.noted, Environment.record, History.references, Ne.symm other]

theorem World.Steps.covered {fits : Nat → Prop} {s s' : World} (steps : Steps fits s s')
    (covered : s.ctx.Covered) : s'.ctx.Covered := by
  induction steps with
  | refl => exact covered
  | tail _ step ih =>
    cases step with
    | quiet _ quiet =>
      intro hop
      have same := ih hop
      rw [Context.users, quiet.same.2.2.1, quiet.references hop]
      exact same
    | move _ move => exact move.covered ih
    | enter | leave => exact ih

namespace Context

variable {c c' : Context}

theorem refs?_eq (used : c.Used) (used' : c'.Used) {hop : TunnelHop}
    (same : c'.users hop = c.users hop) : c'.tunnels.refs? hop = c.tunnels.refs? hop := by
  unfold users SortedMap.refs? at *
  have some_users : ∀ use : TunnelUse, use.refs ≠ 0 → use.refs.toNat ≠ 0 :=
    fun use some_use none_left => some_use (UInt32.toNat_inj.1 none_left)
  cases known : c.tunnels.get? hop with
  | none =>
    cases known' : c'.tunnels.get? hop with
    | none => rfl
    | some use' =>
      simp only [known, known', Option.map_some, Option.map_none, Option.getD_some,
        Option.getD_none] at same
      exact absurd same (some_users use' (used' hop use' known'))
  | some use =>
    cases known' : c'.tunnels.get? hop with
    | none =>
      simp only [known, known', Option.map_some, Option.map_none, Option.getD_some,
        Option.getD_none] at same
      exact absurd same.symm (some_users use (used hop use known))
    | some use' =>
      simp only [known, known', Option.map_some, Option.getD_some] at same
      exact congrArg some (UInt32.toNat_inj.1 same)

theorem Mirrored.contains_iff (mirrored : c.Mirrored) (name : String) :
    c.env.switch.tunnels.contains name = true ↔
      ∃ hop, (c.tunnels.refs? hop).isSome = true ∧ hop.render = name := by
  constructor
  · intro present
    obtain ⟨handle, there⟩ := Option.isSome_iff_exists.1 present
    obtain ⟨hop, use, known, named, -⟩ := (mirrored.get?_eq_some_iff name handle).1 there
    exact ⟨hop, by simp [SortedMap.refs?, known], named⟩
  · rintro ⟨hop, present, rfl⟩
    obtain ⟨use, known⟩ := Option.isSome_iff_exists.1 ((Option.isSome_map ..).symm.trans present)
    exact Option.isSome_iff_exists.2
      ⟨use.handle, (mirrored.get?_eq_some_iff hop.render use.handle).2 ⟨hop, use, known, rfl, rfl⟩⟩

theorem vip?_of_known {vip : Net.Prefix} (known : c.vip = some vip) : c.outlook.vip? = .ok vip := by
  simp only [outlook, known]

end Context

namespace Reconciler

/-- Tables, rules and switch agree with each other. -/
structure Lawful (s : Reconciler) : Prop where
  kept : s.Kept
  coherent : s.world.Coherent
  inOrder : s.tables.InOrder
  filled : Filled s.hosted
  used : s.ctx.Used
  covered : s.ctx.Covered

section lawful

variable {s s' : Reconciler}

theorem Lawful.advance (lawful : s.Lawful) (advances : Advances s s') :
    s'.Lawful ∧ s'.config = s.config := by
  obtain ⟨kept, config, steps⟩ := advances.follows lawful.kept
  have turns := advances.turns lawful.kept
  exact ⟨⟨kept, steps.coherent lawful.coherent, turns.inOrder lawful.inOrder,
    turns.filled lawful.filled, steps.used lawful.used, steps.covered lawful.covered⟩, config⟩

/-- Once there is an ENI, the DPUs stay as they are. -/
theorem Lawful.dpus_eq (lawful : s.Lawful) (advances : Advances s s') {key : EniKey} {eni : Eni}
    (there : s.enis.get? key = some eni) : s'.ctx.dpus = s.ctx.dpus :=
  ((advances.turns lawful.kept).frozen (lawful.inOrder.ready there)).2.1

theorem fresh_lawful (config : Config) (inventory : Inventory) : (fresh config inventory).Lawful where
  kept := .fresh config inventory
  coherent := World.Coherent.start inventory config.table config.basePriority
  inOrder := fresh_inOrder config inventory
  filled := fun _ _ listed => by cases listed
  used := fun _ _ known => by cases known
  covered := fun _ => Nat.zero_le _

theorem run_lawful (config : Config) (inventory : Inventory) (requests : List Request) :
    ((fresh config inventory).run requests).Lawful :=
  ((fresh_lawful config inventory).advance (run_advances requests _)).1

/-- The table of ENIs and the VIP tell the rules of the switch. -/
theorem Lawful.rules_eq (lawful : s.Lawful) (lawful' : s'.Lawful) (enis : s'.enis = s.enis)
    (config : s'.config = s.config) (vip : s'.ctx.outlook.vip? = s.ctx.outlook.vip?) :
    s'.ctx.env.switch.rules = s.ctx.env.switch.rules := by
  have rules : s'.world.rules = s.world.rules := congrArg ownedIn enis
  have base : s'.ctx.basePriority = s.ctx.basePriority := by
    rw [lawful'.kept.base, lawful.kept.base, config]
  have keys : s'.world.keys = s.world.keys := by
    rw [World.keys, rules, World.keys]
  apply SortedMap.ext_get?
  intro name
  by_cases known : name ∈ s.world.keys
  · obtain ⟨o, member, rfl⟩ := Multiset.mem_map.1 known
    have shown := lawful.coherent.shown o member
    have shown' := lawful'.coherent.shown o (by rw [rules]; exact member)
    by_cases on : o.rule.state = .installed
    · obtain ⟨hop, found, leads, -, found_eq, written⟩ := shown.on on
      obtain ⟨hop', found', leads', -, found_eq', written'⟩ := shown'.on on
      obtain rfl : hop = hop' := Option.some.inj (leads.symm.trans leads')
      have same : found' = found := by
        have read := Context.vip?_of_known found_eq
        have read' := Context.vip?_of_known found_eq'
        exact Except.ok.inj (read'.symm.trans (vip.trans read))
      have written : s.ctx.env.switch.rules.get? o.rule.key = _ := written
      have written' : s'.ctx.env.switch.rules.get? o.rule.key = _ := written'
      have base : s'.world.ctx.basePriority = s.world.ctx.basePriority := base
      rw [written, written', same, base]
    · exact (shown'.off on).trans (shown.off on).symm
  · -- a rule that no ENI has is in neither switch
    have absent : ∀ {s : Reconciler}, s.Lawful → name ∉ s.world.keys →
        s.ctx.env.switch.rules.get? name = none := by
      intro s lawful unknown
      by_contra there
      exact unknown (lawful.coherent.owned name (Option.isSome_iff_ne_none.2 there))
    rw [absent lawful known, absent lawful' (by rwa [keys])]

theorem Lawful.hosted_eq (lawful : s.Lawful) (lawful' : s'.Lawful) (enis : s'.enis = s.enis)
    (dpus : s'.ctx.dpus = s.ctx.dpus) : s'.hosted = s.hosted := by
  refine lawful'.filled.ext lawful.filled fun dpu key => ?_
  refine (lawful'.inOrder.hosts dpu key).trans (Iff.trans ?_ (lawful.inOrder.hosts dpu key).symm)
  have endpoints : s'.tables.dpus = s.tables.dpus := dpus
  have same : s'.tables.enis = s.tables.enis := enis
  rw [endpoints, same]

theorem Lawful.tunnels_eq (lawful : s.Lawful) (lawful' : s'.Lawful)
    (refs : ∀ hop, s'.ctx.tunnels.refs? hop = s.ctx.tunnels.refs? hop) (name : String) :
    s'.ctx.env.switch.tunnels.contains name = s.ctx.env.switch.tunnels.contains name := by
  have mirrored : s.ctx.Mirrored := lawful.coherent.mirrored
  have mirrored' : s'.ctx.Mirrored := lawful'.coherent.mirrored
  rw [Bool.eq_iff_iff, mirrored.contains_iff, mirrored'.contains_iff]
  simp only [refs]

/-- Whatever was counted, a tunnel next hop is in the switch only if a rule holds it. -/
theorem Lawful.held (lawful : s.Lawful) {name : String}
    (present : s.ctx.env.switch.tunnels.contains name = true) :
    ∃ r ∈ s.rules, ∃ hop, r.hop? = some hop ∧ hop.render = name := by
  have mirrored : s.ctx.Mirrored := lawful.coherent.mirrored
  obtain ⟨hop, known, named⟩ := (mirrored.contains_iff name).1 present
  obtain ⟨use, known⟩ := Option.isSome_iff_exists.1 ((Option.isSome_map ..).symm.trans known)
  have counted : s.ctx.users hop ≠ 0 := by
    rw [Context.users_of_get? known]
    exact fun nobody => lawful.used hop use known (UInt32.toNat_inj.1 nobody)
  have holders : s.ctx.users hop ≤ s.holders hop := by
    rw [← holders_world, ← lawful.coherent.referenced hop]
    exact lawful.covered hop
  obtain ⟨r, member, holds⟩ := List.countP_pos_iff.1 (Nat.lt_of_lt_of_le (by omega) holders)
  exact ⟨r, member, hop, of_decide_eq_true holds, named⟩

end lawful

end Reconciler

end EniForwarding
