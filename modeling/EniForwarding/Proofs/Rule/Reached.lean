import EniForwarding.Proofs.Rule.Agenda

/-! What a firing achieves.

A rule is reached by firing and destroying it with whatever attributes, in whatever context,
as long as nobody else writes under its name. Then it is in the switch exactly while it is
installed, and there it redirects to its next hop. From this and from how a firing ended
follows what it has achieved: the rule leads to its target and stands in the switch, or
waits there, or nothing was asked of the switch because there is no target. A firing that
fails leaves the state as it was, but for a rule that was already deleted.
-/

set_option autoImplicit false

namespace EniForwarding

open Relation

namespace Rule

/-- Work on a rule of this role and name leads here. Beside that work anything may happen to the
context, but for what stands in the switch under the name of the rule. -/
inductive Reached (role : Role) (key : String) : Rule → Context → Prop
  | new {c : Context} (absent : c.env.switch.rules.get? key = none) :
      Reached role key (ofRole role key) c
  | fire (a : EniAttributes) {r : Rule} {c : Context} (before : Reached role key r c) :
      Reached role key (Rule.fire a (r, c)).2.1 (Rule.fire a (r, c)).2.2
  | destroy {r : Rule} {c : Context} (before : Reached role key r c) :
      Reached role key (Rule.destroy (r, c)).2.1 (Rule.destroy (r, c)).2.2
  | aside {r : Rule} {c c' : Context} (before : Reached role key r c)
      (same : c'.env.switch.rules.get? key = c.env.switch.rules.get? key) : Reached role key r c'

/-- An installed rule is in the switch as it was once written, and no other rule is. -/
structure Standing (role : Role) (key : String) (r : Rule) (c : Context) : Prop where
  named : r.key = key ∧ r.role = role
  sound : r.Sound
  on : r.state = .installed → ∃ a base vip hop, r.nextHop = some hop ∧
    c.env.switch.rules.get? key = some (.ofList (fields role a base vip hop.target))
  off : r.state ≠ .installed → c.env.switch.rules.get? key = none

section standing

variable {role : Role} {key : String} {owner : EniAttributes} {r r' : Rule} {c c' : Context}

theorem Standing.aside (standing : Standing role key r c)
    (same : c'.env.switch.rules.get? key = c.env.switch.rules.get? key) :
    Standing role key r c' :=
  ⟨standing.named, standing.sound, by rw [same]; exact standing.on, by rw [same]; exact standing.off⟩

theorem Standing.stay_off (standing : Standing role key r c) (named : r'.key = r.key ∧ r'.role = r.role)
    (before : r.state ≠ .installed) (after : r'.state ≠ .installed)
    (same : c'.env.switch.rules = c.env.switch.rules) : Standing role key r' c' where
  named := ⟨named.1.trans standing.named.1, named.2.trans standing.named.2⟩
  sound on := absurd on after
  on on := absurd on after
  off _ := by rw [same, standing.off before]

theorem Standing.move (standing : Standing role key r c) (move : Move owner (r, c) (r', c')) :
    Standing role key r' c' := by
  obtain ⟨rfl, rfl⟩ := standing.named
  cases move with
  | quiet _ quiet => exact standing.aside (by rw [quiet.same.1])
  | refused => exact standing.aside rfl
  | adjust _ named off => exact standing.stay_off named off.1 off.2 rfl
  | uninstall on done =>
    refine ⟨⟨rfl, rfl⟩, fun on => (by cases on), fun on => (by cases on), fun _ => ?_⟩
    exact (congrArg (·.get? r.key) (Switch.perform_deleteRule done).1).trans
      (SortedMap.get?_erase_self _ _)
  | @install _ _ hop vip switch off leads resolved known done =>
    refine ⟨⟨rfl, rfl⟩, fun _ => ⟨hop, leads, resolved⟩, fun _ => ?_, fun idle => absurd rfl idle⟩
    refine ⟨owner, c.basePriority, vip, hop, leads, ?_⟩
    exact (congrArg (·.get? r.key) (Switch.perform_setRule done).1).trans
      (SortedMap.get?_insert_self _ _ _)
  | join off | leave off | stray off => exact standing.stay_off ⟨rfl, rfl⟩ off off rfl
  | found off free holds unknown done =>
    exact standing.stay_off ⟨rfl, rfl⟩ off off (Switch.perform_createTunnel done).1
  | abandon off held known last done =>
    exact standing.stay_off ⟨rfl, rfl⟩ off off (Switch.perform_removeTunnel done).1

theorem Standing.moves {p p' : Rule × Context} (moves : Moves owner p p')
    (standing : Standing role key p.1 p.2) : Standing role key p'.1 p'.2 := by
  induction moves with
  | refl => exact standing
  | tail _ move ih => exact ih.move move

/-- What is reached stands in the switch as it should. -/
theorem Reached.standing (reached : Reached role key r c) : Standing role key r c := by
  induction reached with
  | new absent =>
    have off : (ofRole role key).state ≠ .installed := by simp [ofRole]
    exact ⟨⟨rfl, rfl⟩, fun on => absurd on off, fun on => absurd on off, fun _ => absent⟩
  | fire a before ih => exact .moves (fire_leads a ih.sound).1 ih
  | destroy before ih =>
    -- to be destroyed a rule needs no attributes, so any owner will do
    let anyone : EniAttributes := ⟨⟨"", ⟨0, 0, 0, 0, 0, 0⟩⟩, [], 0, none, .source⟩
    exact .moves (destroy_leads anyone).1 ih
  | aside before same ih => exact ih.aside same

/-- The rule is in the switch and redirects to what its next hop says. -/
def Redirects (key : String) (hop : NextHop) (c : Context) : Prop :=
  ∃ written, c.env.switch.rules.get? key = some written ∧
    written.get? (Acl.ActionKind.name .redirect) = some hop.target

theorem Standing.redirects (standing : Standing role key r c) (on : r.state = .installed) :
    ∃ hop, r.nextHop = some hop ∧ hop.isResolved = true ∧ Redirects key hop c := by
  obtain ⟨hop, leads, resolved⟩ := standing.sound on
  obtain ⟨a, base, vip, hop', leads', written⟩ := standing.on on
  obtain rfl : hop = hop' := Option.some.inj (leads.symm.trans leads')
  exact ⟨hop, leads, resolved, _, written, get?_redirect role a base vip hop.target⟩

end standing

variable {a : EniAttributes} {r r' : Rule} {c c' : Context} {t : Target}

section stops

/-- The state is what it was, and these calls have been made, among which is no deletion. -/
def StopsShort (p p' : Rule × Context) : Prop :=
  p'.1.state = p.1.state ∧ ∃ made, p.2.Makes made p'.2 ∧ ∀ key, .deleteRule key ∉ made

theorem StopsShort.trans {p p' p'' : Rule × Context} (first : StopsShort p p')
    (second : StopsShort p' p'') : StopsShort p p'' := by
  obtain ⟨state, made, makes, keeps⟩ := first
  obtain ⟨state', made', makes', keeps'⟩ := second
  refine ⟨state'.trans state, _, makes.trans makes', fun key deleted => ?_⟩
  exact (List.mem_append.1 deleted).elim (keeps key) (keeps' key)

theorem StopsShort.of_nothing {p p' : Rule × Context} (state : p'.1.state = p.1.state)
    (makes : p.2.Makes [] p'.2) : StopsShort p p' :=
  ⟨state, [], makes, by simp⟩

theorem deleteRule_not_mem_leaving (hop : NextHop) (c : Context) (key : String) :
    .deleteRule key ∉ hop.leaving c := by
  unfold NextHop.leaving Context.leaving
  cases hop.hop? with
  | none => simp
  | some tunnel =>
    simp only [Option.elim_some]
    split
    · simp
    · split <;> simp

theorem deleteRule_not_mem_joining (hop : NextHop) (c : Context) (key : String) :
    .deleteRule key ∉ hop.joining c := by
  unfold NextHop.joining Context.joining
  split
  · simp
  · cases (hop.settled c.outlook).hop? with
    | none => simp
    | some tunnel =>
      simp only [Option.elim_some]
      split <;> simp

theorem settle_stops {change : Change} {e : Failure}
    (run : settle a change (r, c) = (.error e, r', c')) : StopsShort (r, c) (r', c') := by
  cases leads : r.nextHop with
  | none =>
    simp only [settle, Action.run_bind, Action.run_get, leads] at run
    cases run
  | some hop =>
    rw [run_settle a change leads] at run
    rcases hop.resolve_makes c with ⟨e, c₁, failed, makes, -⟩ | ⟨c₁, found, makes⟩
    · rw [failed] at run
      cases run
      exact .of_nothing rfl makes
    · simp only [found] at run
      have resolved : StopsShort (r, c) ({ r with nextHop := some (hop.settled c.outlook) }, c₁) :=
        ⟨rfl, _, makes, deleteRule_not_mem_joining hop c⟩
      split at run
      · rcases install_makes { r with nextHop := some (hop.settled c.outlook) } c₁ a change
          (hop.settled c.outlook).target with ⟨e, c₂, lost, makes', -⟩ | ⟨vip, c₂, written, -⟩
        · rw [lost] at run
          cases run
          exact resolved.trans (.of_nothing rfl makes')
        · rw [written] at run
          cases run
      · cases run

theorem renew_stops {change : Change} {vnet : String} {e : Failure}
    (run : (do retarget t vnet; settle a change : Step Unit) (r, c) = (.error e, r', c')) :
    StopsShort (r, c) (r', c') := by
  simp only [retarget, Action.run_bind] at run
  rcases dropNextHop_makes r c with ⟨e, c₁, failed, makes, -⟩ | ⟨c₁, dropped, makes, -⟩
  · rw [failed] at run
    cases run
    exact .of_nothing rfl makes
  · simp only [dropped] at run
    have given : StopsShort (r, c)
        ({ r with nextHop := some (.toward t.placement t.address vnet) }, c₁) := by
      refine ⟨rfl, _, makes, fun key deleted => ?_⟩
      cases leads : r.nextHop with
      | none => simp [leads] at deleted
      | some hop =>
        rw [leads] at deleted
        exact deleteRule_not_mem_leaving hop c key deleted
    exact given.trans (settle_stops run)

/-- The state is what it was, unless the rule was installed and has been deleted. -/
def Stops (p p' : Rule × Context) : Prop :=
  ∃ made, p.2.Makes made p'.2 ∧ p'.1.state =
    if p.1.state = .installed ∧ .deleteRule p.1.key ∈ made then .uninstalled else p.1.state

theorem StopsShort.stops {p p' : Rule × Context} (short : StopsShort p p') : Stops p p' := by
  obtain ⟨state, made, makes, keeps⟩ := short
  exact ⟨made, makes, by rw [if_neg fun deleted => keeps p.1.key deleted.2, state]⟩

theorem pursue_stops {e : Failure} (run : pursue a t (r, c) = (.error e, r', c')) :
    Stops (r, c) (r', c') := by
  cases move : r.change t with
  | none =>
    simp only [pursue, Action.run_bind, Action.run_get, move] at run
    cases run
  | refresh =>
    simp only [pursue, Action.run_bind, Action.run_get, move] at run
    exact (settle_stops run).stops
  | create =>
    simp only [pursue, Action.run_bind (x := Action.get), Action.run_get, move] at run
    exact (renew_stops run).stops
  | move =>
    by_cases on : r.state = .installed
    · simp only [pursue, Action.run_bind (x := Action.get), Action.run_get, move, on, if_true] at run
      rcases uninstall_makes r c .resourceModify with
        ⟨e, c₁, lost, makes, -⟩ | ⟨c₁, carried, makes, -⟩
      · rw [Action.run_bind, lost] at run
        cases run
        have short : StopsShort (r, c) (r, c') := .of_nothing rfl makes
        exact short.stops
      · -- from here on the rule is off the switch, whatever comes
        rw [Action.run_bind, carried] at run
        obtain ⟨state, made, makes', -⟩ := renew_stops run
        refine ⟨_, makes.trans makes', ?_⟩
        rw [state, if_pos ⟨on, List.mem_append_left _ List.mem_cons_self⟩]
    · simp only [pursue, Action.run_bind (x := Action.get), Action.run_get, move, on, if_false] at run
      exact (renew_stops run).stops

theorem fire_stops {e : Failure} (run : fire a (r, c) = (.error e, r', c')) :
    Stops (r, c) (r', c') := by
  by_cases failed : r.state = .failed
  · rw [fire_of_failed a c failed] at run
    cases run
  · cases aimed : target r.role a c.dpus with
    | error e =>
      rw [fire_of_invalid failed aimed] at run
      cases run
    | ok t =>
      rw [fire_of_target failed aimed] at run
      exact pursue_stops run

end stops

section states

/-- Only a pending rule fails, when it has no target, and it stays failed. -/
theorem fire_state_eq_failed_iff (a : EniAttributes) (r : Rule) (c : Context) (sound : r.Sound) :
    (fire a (r, c)).2.1.state = .failed ↔
      r.state = .failed ∨ r.state = .pending ∧ ∃ e, target r.role a c.dpus = .error e := by
  by_cases failed : r.state = .failed
  · simp [fire_of_failed a c failed, failed]
  · cases aimed : target r.role a c.dpus with
    | error e =>
      rw [fire_of_invalid failed aimed]
      by_cases waiting : r.state = .pending <;> simp [waiting, failed]
    | ok t =>
      have arrives := fire_arrives a c sound
      have live : (fire a (r, c)).2.1.state ≠ .failed := by
        cases ended : (fire a (r, c)).1 with
        | ok _ =>
          rw [arrives.2 _ ended, aim_of_target failed aimed]
          split
          · exact failed
          · exact arrived_state_ne_failed _ _
        | error e =>
          obtain ⟨made, -, state⟩ := fire_stops (Prod.ext ended rfl)
          rw [state]
          split
          · simp
          · exact failed
      simp [live, failed]

theorem destroy_state_eq_failed_iff (r : Rule) (c : Context) :
    (destroy (r, c)).2.1.state = .failed ↔ r.state = .failed := by
  have dropped : ∀ r c, (dropNextHop (r, c)).2.1.state = r.state := by
    intro r c
    rcases dropNextHop_outcome r c with ⟨e, c', run, -⟩ | ⟨c', run, -⟩ <;> rw [run]
  by_cases on : r.state = .installed
  · simp only [destroy, Action.run_bind, Action.run_get, on, if_true]
    rcases uninstall_outcome .resourceDelete r c with ⟨e, c', run, -⟩ | ⟨c', run, -⟩
    · simp [run, on]
    · simp [run, dropped]
  · simp only [destroy, Action.run_bind, Action.run_get, on, if_false]
    rw [dropped]

end states

/-- What has been achieved when a firing has ended well in this state. -/
def Achieved (a : EniAttributes) (r : Rule) (c : Context) (r' : Rule) (c' : Context) : Prop :=
  match r'.state with
  | .installed => ∃ hop, r'.nextHop = some hop ∧ hop.isResolved = true ∧
      Redirects r'.key hop c' ∧ (target r.role a c.dpus = .ok ⟨hop.placement, hop.endpoint⟩ ∨
        (∃ e, target r.role a c.dpus = .error e) ∧ r.state = .installed ∧ r' = r ∧ c' = c)
  | .pending => ∃ hop, r'.nextHop = some hop ∧ hop.isResolved = false ∧
      target r.role a c.dpus = .ok ⟨hop.placement, hop.endpoint⟩ ∧
      c'.env.switch.rules.get? r'.key = none
  | .failed => (r.state = .failed ∨
      r.state = .pending ∧ ∃ e, target r.role a c.dpus = .error e) ∧ c' = c
  | .uninstalled => r.state = .uninstalled ∧ (∃ e, target r.role a c.dpus = .error e) ∧ r' = r ∧ c' = c

section achieved

variable {role : Role} {key : String}

theorem aim_leads (live : r.state ≠ .failed) (aimed : target r.role a c.dpus = .ok t) :
    ∃ hop, (r.aim c.outlook a).nextHop = some hop ∧ t = ⟨hop.placement, hop.endpoint⟩ ∧
      (hop.isResolved = true ∧ (r.aim c.outlook a).state = .installed ∨
        hop.isResolved = false ∧ (r.aim c.outlook a).state = .pending) := by
  have target_eq : ∀ {hop : NextHop}, hop.LeadsTo t → t = ⟨hop.placement, hop.endpoint⟩ :=
    fun onto => NextHop.leadsTo_inj onto ⟨rfl, rfl⟩
  rw [aim_of_target live aimed]
  split
  next stands =>
    obtain ⟨hop, leads, onto, resolved, on⟩ := change_eq_none_iff.1 stands
    exact ⟨hop, leads, target_eq onto, .inl ⟨resolved, on⟩⟩
  next =>
    have onto := (NextHop.settled_leadsTo c.outlook _ t).2 (heading_leadsTo r t a.key.vnet)
    generalize (r.heading t a.key.vnet).settled c.outlook = hop at onto ⊢
    refine ⟨hop, rfl, target_eq onto, ?_⟩
    cases resolved : hop.isResolved <;> simp [arrived, resolved]

theorem achieved_of_target (live : r.state ≠ .failed) (aimed : target r.role a c.dpus = .ok t)
    (after : Standing role key (r.aim c.outlook a) c') : Achieved a r c (r.aim c.outlook a) c' := by
  obtain ⟨hop, leads, target_eq, ⟨resolved, state⟩ | ⟨waiting, state⟩⟩ := aim_leads live aimed
  · obtain ⟨hop', leads', -, redirects⟩ := after.redirects state
    obtain rfl : hop = hop' := Option.some.inj (leads.symm.trans leads')
    simp only [Achieved, state, after.named.1]
    exact ⟨hop, leads, resolved, redirects, .inl (by rw [aimed, target_eq])⟩
  · simp only [Achieved, state, after.named.1]
    exact ⟨hop, leads, waiting, by rw [aimed, target_eq], after.off (by simp [state])⟩

theorem fire_achieved (reached : Reached role key r c) (run : fire a (r, c) = (.ok (), r', c')) :
    Achieved a r c r' c' := by
  have before := reached.standing
  have after : Standing role key r' c' := by
    have next := (reached.fire a).standing
    rwa [run] at next
  obtain ⟨rfl, -⟩ := before.named
  by_cases failed : r.state = .failed
  · rw [fire_of_failed a c failed] at run
    cases run
    simp [Achieved, failed]
  · cases aimed : target r.role a c.dpus with
    | error e =>
      rw [fire_of_invalid failed aimed] at run
      cases run
      unfold Achieved
      cases state : r.state with
      | installed =>
        obtain ⟨hop, leads, resolved, redirects⟩ := before.redirects state
        simp only [state, reduceCtorEq, if_false]
        exact ⟨hop, leads, resolved, redirects, .inr ⟨⟨e, aimed⟩, trivial, trivial, trivial⟩⟩
      | pending => simp [aimed]
      | uninstalled => simp [state, aimed]
      | failed => exact absurd state failed
    | ok t =>
      obtain ⟨-, final⟩ := (fire_arrives a c before.sound).of_run run
      obtain rfl : r' = r.aim c.outlook a := final
      exact achieved_of_target failed aimed after

end achieved

/-- However a firing ends, its result tells what it has achieved: a success tells it by the state
that the rule is in, and a failure leaves the state as it was unless an installed rule has been
deleted. A rule fails for good only while it is pending, and nothing ends that. -/
theorem fire_achieves {role : Role} {key : String} {r : Rule} {c : Context}
    (reached : Reached role key r c) (a : EniAttributes) :
    (∀ r' c', fire a (r, c) = (.ok (), r', c') → Achieved a r c r' c') ∧
    (∀ e r' c', fire a (r, c) = (.error e, r', c') → ∃ made,
      History.done c'.env.trace = History.done c.env.trace ++ made ∧ r'.state =
        if r.state = .installed ∧ .deleteRule key ∈ made then .uninstalled else r.state) ∧
    ((fire a (r, c)).2.1.state = .failed ↔
      r.state = .failed ∨ r.state = .pending ∧ ∃ e, target role a c.dpus = .error e) ∧
    ((destroy (r, c)).2.1.state = .failed ↔ r.state = .failed) := by
  have standing := reached.standing
  obtain ⟨rfl, rfl⟩ := standing.named
  refine ⟨fun r' c' => fire_achieved reached, fun e r' c' run => ?_,
    fire_state_eq_failed_iff a r c standing.sound, destroy_state_eq_failed_iff r c⟩
  obtain ⟨made, makes, state⟩ := fire_stops run
  exact ⟨made, makes.done, state⟩

def sampleAttributes (primary : UInt64) : EniAttributes :=
  ⟨Reconciler.sampleEni, [2, 3], primary, none, .source⟩

def sampleContext : Context :=
  (Context.populate (.ofEnvironment (.ofInventory Reconciler.sampleInventory) "ENI" 10)).2

def sampleFired : Rule × Context :=
  (fire (sampleAttributes 2) (ofRole .inbound "rule", sampleContext)).2

def sampleBlocked : Rule × Context :=
  (sampleFired.1, sampleFired.2.surround sampleFired.2.env.inventory .none false true)

theorem sample_fire_achieves :
    Reached .inbound "rule" sampleBlocked.1 sampleBlocked.2 ∧
      Achieved (sampleAttributes 2) (ofRole .inbound "rule") sampleContext sampleFired.1
        sampleFired.2 ∧
      (fire (sampleAttributes 3) sampleBlocked).2.1.state = .uninstalled ∧
      ∃ made, History.done (fire (sampleAttributes 3) sampleBlocked).2.2.env.trace =
        History.done sampleBlocked.2.env.trace ++ made ∧ .deleteRule "rule" ∈ made := by
  have new : Reached .inbound "rule" (ofRole .inbound "rule") sampleContext := .new (by decide +kernel)
  have blocked : Reached .inbound "rule" sampleBlocked.1 sampleBlocked.2 :=
    .aside (.fire (sampleAttributes 2) new) rfl
  have installs : (fire (sampleAttributes 2) (ofRole .inbound "rule", sampleContext)).1 = .ok () := by
    decide +kernel
  have on : sampleBlocked.1.state = .installed := by decide +kernel
  have off : (fire (sampleAttributes 3) sampleBlocked).2.1.state = .uninstalled := by decide +kernel
  obtain ⟨achieves, -⟩ := fire_achieves new (sampleAttributes 2)
  obtain ⟨-, stops, -⟩ := fire_achieves blocked (sampleAttributes 3)
  refine ⟨blocked, achieves sampleFired.1 sampleFired.2 (Prod.ext installs rfl), off, ?_⟩
  cases ended : (fire (sampleAttributes 3) sampleBlocked).1 with
  | ok _ =>
    have fails : (fire (sampleAttributes 3) sampleBlocked).1 ≠ .ok () := by decide +kernel
    exact absurd ended fails
  | error e =>
    obtain ⟨made, done, state⟩ := stops e (fire (sampleAttributes 3) sampleBlocked).2.1
      (fire (sampleAttributes 3) sampleBlocked).2.2 (Prod.ext ended rfl)
    refine ⟨made, done, by_contra fun kept => ?_⟩
    rw [if_neg fun both => kept both.2, off, on] at state
    cases state

end Rule

end EniForwarding
