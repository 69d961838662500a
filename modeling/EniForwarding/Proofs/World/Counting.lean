import EniForwarding.Proofs.World.Coherence

/-! Counts of users, as long as they can be counted.

A full count stays full, so it loses users beyond the greatest value. While no tunnel
next hop has that many, the table counts exactly the rules that hold it, nothing is
ever given back that is not known, and a tunnel next hop is there as long as a rule
in the switch redirects to it, between any two calls.
-/

set_option autoImplicit false

namespace EniForwarding

open Relation

def TunnelUse.Counts : Option TunnelUse → Nat → Prop
  | none, users => users = 0
  | some use, users => use.refs.toNat = users ∧ 0 < users

namespace Context

/-- The table has the tunnel next hops with users, and their numbers of users. -/
def Exact (c : Context) : Prop :=
  ∀ hop, TunnelUse.Counts (c.tunnels.get? hop) (History.references hop c.env.trace)

theorem Exact.known {c : Context} {hop : TunnelHop} (exact_ : c.Exact)
    (used : 0 < History.references hop c.env.trace) : ∃ use, c.tunnels.get? hop = some use := by
  have counts := exact_ hop
  cases known : c.tunnels.get? hop with
  | some use => exact ⟨use, rfl⟩
  | none =>
    rw [known] at counts
    exact absurd counts (Nat.ne_of_gt used)

theorem Quiet.exact {c c' : Context} (quiet : c.Quiet c') (exact_ : c.Exact) : c'.Exact := by
  intro hop
  rw [quiet.same.2.2.1, quiet.references hop]
  exact exact_ hop

theorem Exact.update {c c' : Context} (exact_ : c.Exact) (tunnel : TunnelHop)
    (here : TunnelUse.Counts (c'.tunnels.get? tunnel) (History.references tunnel c'.env.trace))
    (others : ∀ hop, hop ≠ tunnel → c'.tunnels.get? hop = c.tunnels.get? hop ∧
      History.references hop c'.env.trace = History.references hop c.env.trace) : c'.Exact := by
  intro hop
  by_cases same : hop = tunnel
  · exact same ▸ here
  · obtain ⟨table, users⟩ := others hop same
    rw [table, users]
    exact exact_ hop

section references

variable (c : Context) (tunnel hop : TunnelHop) (use : TunnelUse) (switch : Switch)

theorem references_joined : History.references hop (c.joined tunnel use).env.trace =
    History.references hop c.env.trace + if tunnel = hop then 1 else 0 := rfl

theorem references_founded : History.references hop (c.founded tunnel switch).env.trace =
    History.references hop c.env.trace + if tunnel = hop then 1 else 0 := rfl

theorem references_left : History.references hop (c.left tunnel use).env.trace =
    History.references hop c.env.trace - if tunnel = hop then 1 else 0 := rfl

theorem references_abandoned : History.references hop (c.abandoned tunnel switch).env.trace =
    History.references hop c.env.trace - if tunnel = hop then 1 else 0 := rfl

end references

theorem Quiet.trusting {c c' : Context} (quiet : c.Quiet c')
    (trusting : History.Trusting c.env.trace) : History.Trusting c'.env.trace := by
  cases quiet with
  | note e idle =>
    apply trusting.cons
    rintro hop rfl
    exact idle
  | write => exact trusting.cons (by simp)
  | learn => exact trusting

end Context

theorem Rule.get?_redirect (role : Role) (eni : EniAttributes) (base : UInt32) (vip : Net.Prefix)
    (redirect : String) : (SortedMap.ofList (fields role eni base vip redirect)).get?
      (Acl.ActionKind.name .redirect) = some redirect := by
  rw [fields, SortedMap.ofList, List.foldl_append]
  exact SortedMap.get?_insert_self _ _ _

theorem NextHop.hop?_of_target {next : NextHop} {hop : TunnelHop}
    (same : next.target = hop.render) : next.hop? = some hop := by
  unfold target at same
  cases held : next.hop? with
  | some other =>
    rw [held] at same
    rw [TunnelHop.render_injective same]
  | none =>
    rw [held] at same
    exact absurd same.symm (hop.render_ne_address next.endpoint)

namespace History

/-- A moment between two histories: the switch is already that of the later one, and the users
are those of one or the other. -/
def Between (earlier later moment : History) : Prop :=
  recalled moment = recalled later ∧ ∀ hop, references hop moment = references hop earlier ∨
    references hop moment = references hop later

theorem Between.refl (earlier later : History) : Between earlier later later :=
  ⟨rfl, fun _ => .inr rfl⟩

theorem between_of_cons {e : Event} {earlier moment : History} (before : moment <:+ e :: earlier) :
    moment <:+ earlier ∨ Between earlier (e :: earlier) moment := by
  rcases List.suffix_cons_iff.1 before with rfl | old
  · exact .inr (.refl earlier _)
  · exact .inl old

theorem between_of_entered {user : Event} {record : Audit.Record} {call : Call}
    {earlier moment : History} (entry : ∀ h, recalled (user :: h) = recalled h)
    (before : moment <:+ user :: .audited record :: .called call none :: earlier) :
    moment <:+ earlier ∨
      Between earlier (user :: .audited record :: .called call none :: earlier) moment := by
  have same : recalled (.called call none :: earlier) = _ :=
    (entry (.audited record :: .called call none :: earlier)).symm
  rcases List.suffix_cons_iff.1 before with rfl | before
  · exact .inr (.refl earlier _)
  · rcases List.suffix_cons_iff.1 before with rfl | before
    · exact .inr ⟨same, fun _ => .inl rfl⟩
    · rcases List.suffix_cons_iff.1 before with rfl | old
      · exact .inr ⟨same, fun _ => .inl rfl⟩
      · exact .inl old

end History

theorem Context.Quiet.suffix {c c' : Context} (quiet : c.Quiet c') :
    c.env.trace <:+ c'.env.trace := by
  cases quiet with
  | note | write => exact List.suffix_cons _ _
  | learn => exact List.suffix_rfl

theorem Context.Quiet.between {c c' : Context} (quiet : c.Quiet c') {moment : History}
    (before : moment <:+ c'.env.trace) :
    moment <:+ c.env.trace ∨ History.Between c.env.trace c'.env.trace moment := by
  cases quiet with
  | note | write => exact History.between_of_cons before
  | learn => exact .inl before

namespace Rule

section move

variable {owner : EniAttributes} {r r' : Rule} {c c' : Context}
  (move : Move owner (r, c) (r', c'))

include move

theorem Move.suffix : c.env.trace <:+ c'.env.trace := by
  cases move with
  | quiet _ quiet => exact quiet.suffix
  | adjust => exact List.suffix_rfl
  | refused | uninstall | install | join | leave | stray => exact List.suffix_cons _ _
  | found | abandon => exact List.suffix_append [_, _, _] _

theorem Move.between {moment : History} (before : moment <:+ c'.env.trace) :
    moment <:+ c.env.trace ∨ History.Between c.env.trace c'.env.trace moment := by
  cases move with
  | quiet _ quiet => exact quiet.between before
  | adjust => exact .inl before
  | refused | uninstall | install | join | leave | stray => exact History.between_of_cons before
  | found | abandon => exact History.between_of_entered (fun _ => rfl) before

variable (held : ∀ hop, r.hop? = some hop → 0 < History.references hop c.env.trace)
  (exact_ : c.Exact)

include held exact_

theorem Move.exact (countable : History.Countable c'.env.trace) : c'.Exact := by
  cases move with
  | quiet _ quiet => exact quiet.exact exact_
  | refused | adjust | uninstall | install => exact exact_
  | @join _ _ _ tunnel use off free holds known =>
    have before := exact_ tunnel
    rw [known] at before
    have gained := (c.references_joined tunnel tunnel use).trans (by rw [if_pos rfl])
    refine exact_.update tunnel ?_ fun hop other => ⟨SortedMap.get?_insert_ne _ _ other, ?_⟩
    -- the new count is one that can still be told
    · have short := countable.now tunnel
      rw [gained, ← before.1] at short
      rw [gained, Context.joined, SortedMap.get?_insert_self, ← before.1]
      exact ⟨(Counted.toNat_up use.refs).trans (by omega), by omega⟩
    · rw [Context.references_joined, if_neg (Ne.symm other), Nat.add_zero]
  | @found _ _ _ tunnel switch off free holds unknown done =>
    have before := exact_ tunnel
    rw [unknown] at before
    have gained := (c.references_founded tunnel tunnel switch).trans (by rw [if_pos rfl])
    refine exact_.update tunnel ?_ fun hop other => ⟨?_, ?_⟩
    · rw [gained, before, Context.founded, SortedMap.get?_insert_self]
      exact ⟨rfl, by omega⟩
    · rw [Context.founded, SortedMap.get?_insert_ne _ _ other, SortedMap.get?_insert_ne _ _ other]
    · rw [Context.references_founded, if_neg (Ne.symm other), Nat.add_zero]
  | @leave _ _ tunnel use off holds known shared =>
    have before := exact_ tunnel
    rw [known] at before
    have lost := (c.references_left tunnel tunnel use).trans (by rw [if_pos rfl])
    refine exact_.update tunnel ?_ fun hop other => ⟨SortedMap.get?_insert_ne _ _ other, ?_⟩
    -- the others are still counted, so the count does not reach zero
    · have several : 1 < use.refs.toNat := UInt32.lt_iff_toNat_lt.1 shared
      have one_less : (use.refs - 1).toNat = use.refs.toNat - 1 :=
        UInt32.toNat_sub_of_le _ _ (UInt32.le_of_lt shared)
      rw [lost, Context.left, SortedMap.get?_insert_self, ← before.1]
      exact ⟨one_less, by omega⟩
    · rw [Context.references_left, if_neg (Ne.symm other), Nat.sub_zero]
  | @abandon _ _ tunnel use switch off holds known last done =>
    have before := exact_ tunnel
    rw [known] at before
    have lost := (c.references_abandoned tunnel tunnel switch).trans (by rw [if_pos rfl])
    refine exact_.update tunnel ?_ fun hop other => ⟨SortedMap.get?_erase_ne _ other, ?_⟩
    -- the one that goes was the only user, so nobody is left without an entry
    · have single : ¬ 1 < use.refs.toNat := fun more => last (UInt32.lt_iff_toNat_lt.2 more)
      have none_left : History.references tunnel c.env.trace - 1 = 0 := by
        rw [← before.1]
        omega
      rw [lost, none_left, Context.abandoned, SortedMap.get?_erase_self]
      exact rfl
    · rw [Context.references_abandoned, if_neg (Ne.symm other), Nat.sub_zero]
  | @stray _ _ tunnel off holds unknown =>
    obtain ⟨use, known⟩ := exact_.known (held tunnel holds)
    exact absurd (unknown.symm.trans known) (by simp)

theorem Move.trusting (trusting : History.Trusting c.env.trace) :
    History.Trusting c'.env.trace := by
  cases move with
  | quiet _ quiet => exact quiet.trusting trusting
  | adjust => exact trusting
  | refused | uninstall | install | join | leave => exact trusting.cons (by simp)
  | found | abandon => exact trusting.entered (by simp)
  | @stray _ _ tunnel off holds unknown =>
    obtain ⟨use, known⟩ := exact_.known (held tunnel holds)
    exact absurd (unknown.symm.trans known) (by simp)

end move

end Rule

namespace World

/-- The counts are right, nothing unknown was ever given back, and no redirect was ever
left without its tunnel next hop. -/
structure Counting (s : World) : Prop where
  exact_ : s.ctx.Exact
  trusting : History.Trusting s.ctx.env.trace
  grounded : History.Always (fun moment => (History.recalled moment).Grounded) s.ctx.env.trace

variable {fits : Nat → Prop} {s s' : World}

theorem Step.suffix (step : Step fits s s') : s.ctx.env.trace <:+ s'.ctx.env.trace := by
  cases step with
  | quiet rules quiet => exact quiet.suffix
  | move rest move => exact move.suffix
  | enter | leave => exact List.suffix_rfl

theorem Step.between (step : Step fits s s') {moment : History}
    (before : moment <:+ s'.ctx.env.trace) :
    moment <:+ s.ctx.env.trace ∨
      History.Between s.ctx.env.trace s'.ctx.env.trace moment := by
  cases step with
  | quiet rules quiet => exact quiet.between before
  | move rest move => exact move.between before
  | enter | leave => exact .inl before

/-- A rule in the switch that redirects to a tunnel next hop uses it, so it is there. -/
theorem Coherent.grounded (coherent : s.Coherent) (exact_ : s.ctx.Exact) :
    (History.recalled s.ctx.env.trace).Grounded := by
  rw [coherent.recalled]
  intro key written hop there redirects
  have present : s.ctx.env.switch.rules.contains key = true :=
    Option.isSome_iff_exists.2 ⟨written, there⟩
  obtain ⟨o, member, rfl⟩ := Multiset.mem_map.1 (coherent.owned key present)
  have shown := coherent.shown o member
  -- only an installed rule is in the switch
  have on : o.rule.state = .installed := by
    by_contra off
    exact absurd ((shown.off off).symm.trans there) (by simp)
  obtain ⟨next, vip, leads, -, -, fields⟩ := shown.on on
  have fields_eq := Option.some.inj (there.symm.trans fields)
  rw [fields_eq, Rule.get?_redirect] at redirects
  -- the text it redirects to is that of a tunnel next hop, so it holds this one
  have held : o.rule.hop? = some hop := by
    rw [Rule.hop?, leads]
    exact NextHop.hop?_of_target (Option.some.inj redirects)
  have used : 0 < History.references hop s.ctx.env.trace := by
    rw [coherent.referenced hop]
    exact Multiset.countP_pos_of_mem member held
  obtain ⟨use, known⟩ := exact_.known used
  show (s.ctx.env.switch.tunnels.get? hop.render).isSome = true
  rw [coherent.mirrored.handles, known]
  rfl

theorem Counting.step (counting : s.Counting) (coherent : s.Coherent) (step : Step fits s s')
    (countable : History.Countable s'.ctx.env.trace) : s'.Counting := by
  have coherent' := coherent.step step
  have kept : s'.ctx.Exact ∧ History.Trusting s'.ctx.env.trace := by
    cases step with
    | quiet rules quiet =>
      exact ⟨quiet.exact counting.exact_, quiet.trusting counting.trusting⟩
    | @move owner r _ c _ rest move =>
      have held : ∀ hop, r.hop? = some hop → 0 < History.references hop c.env.trace := by
        intro hop holds
        rw [coherent.referenced hop]
        exact Multiset.countP_pos_of_mem (Multiset.mem_cons_self _ _) holds
      exact ⟨move.exact held counting.exact_ countable,
        move.trusting held counting.exact_ counting.trusting⟩
    | enter | leave => exact ⟨counting.exact_, counting.trusting⟩
  refine ⟨kept.1, kept.2, fun moment before => ?_⟩
  rcases step.between before with old | ⟨same, -⟩
  · exact counting.grounded moment old
  · rw [same]
    exact coherent'.grounded kept.1

theorem Reachable.counting (reachable : Reachable fits s)
    (countable : History.Countable s.ctx.env.trace) : s.Counting := by
  -- that users can be counted is assumed of the whole run, and so of every part of it
  have both : s.Coherent ∧ (History.Countable s.ctx.env.trace → s.Counting) := by
    refine reachable.induction ?_ ?_
    · intro inventory table base
      refine ⟨.start inventory table base, fun _ => ⟨fun hop => rfl, fun hop => by simp [World.start,
        Context.ofEnvironment, Environment.ofInventory], History.always_nil.2 ?_⟩⟩
      intro key fields hop there
      cases there
    · rintro s s' ⟨coherent, counting⟩ step
      refine ⟨coherent.step step, fun later => ?_⟩
      exact (counting (later.before step.suffix)).step coherent step later
  exact both.2 countable

/-- As long as there are fewer rules than can be counted, so are the users of a tunnel
next hop. -/
theorem Reachable.countable (reachable : Reachable (· < UInt32.size) s) :
    History.Countable s.ctx.env.trace := by
  have all : s.Coherent ∧ s.rules.card < UInt32.size ∧ History.Countable s.ctx.env.trace := by
    refine reachable.induction ?_ ?_
    · intro inventory table base
      refine ⟨.start inventory table base, by simp [World.start], History.always_nil.2 ?_⟩
      exact fun hop => by simp [History.references]
    · rintro s s' ⟨coherent, few, countable⟩ step
      have coherent' := coherent.step step
      have few' := step.card_lt few
      refine ⟨coherent', few', fun moment before hop => ?_⟩
      -- a rule holds at most one tunnel next hop
      have used : ∀ {s : World}, s.Coherent → s.rules.card < UInt32.size →
          History.references hop s.ctx.env.trace < UInt32.size := by
        intro s coherent few
        rw [coherent.referenced hop]
        exact lt_of_le_of_lt (Multiset.countP_le_card _ _) few
      rcases step.between before with old | ⟨-, users⟩
      · exact countable moment old hop
      · rcases users hop with same | same
        · rw [same]
          exact used coherent few
        · rw [same]
          exact used coherent' few'
  exact all.2.2

end World

end EniForwarding
