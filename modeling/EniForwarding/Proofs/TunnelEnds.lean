import EniForwarding.Proofs.Isolation
import EniForwarding.Proofs.RuleSets
import EniForwarding.Proofs.RuleTable
import EniForwarding.Proofs.Rule.Reached

/-! Rules that end tunnels.

They lead to the local endpoint of their ENI, which has nothing to do with its primary. An ENI has
them only if it has a local endpoint, every DPU that is registered has an address, and the DPUs stay
as they are from the first ENI on; so these rules always have a target, and always the same. They
never fail, and once one of them is installed there is nothing to be done about it until the ENI is
deleted.
-/

set_option autoImplicit false

namespace EniForwarding

open Tables
open Context (KeepsRule)

/-- The first DPU of these that is on the switch has this address. -/
def Dpus.Home (dpus : Dpus) (endpoints : List UInt64) (ip : Net.Address) : Prop :=
  ∃ id dpu, dpus.FirstLocal endpoints id ∧ dpus.get? id = some dpu ∧ dpu.pa = some ip

theorem Tables.Registered.home {dpus : Dpus} (registered : Registered dpus) {endpoints : List UInt64}
    {id : UInt64} (first : dpus.FirstLocal endpoints id) : ∃ ip, dpus.Home endpoints ip := by
  obtain ⟨dpu, known, -⟩ := first.1
  obtain ⟨ip, pa⟩ := Option.isSome_iff_exists.1 (registered id dpu known).2
  exact ⟨ip, id, dpu, first, known, pa⟩

theorem NextHop.target_of_onSwitch {h : NextHop} {ip : Net.Address}
    (leads : h.LeadsTo ⟨.onSwitch, ip⟩) : h.target = ip.render := by
  obtain ⟨placed, address⟩ := leads
  cases h with
  | direct endpoint resolved => exact congrArg Net.Address.render address
  | tunnelled endpoint vnet tunnel => cases placed

namespace Rule

variable {a a' : EniAttributes} {dpus : Dpus} {r r' : Rule} {c : Context} {t : Target} {role : Role}

theorem target_eq_ok_iff (term : role.isTerm = true) :
    target role a dpus = .ok t ↔ ∃ ip, dpus.Home a.endpoints ip ∧ t = ⟨.onSwitch, ip⟩ := by
  unfold target targetDpu
  rw [if_pos term]
  constructor
  · intro aimed
    cases endpoint : a.localEndpoint dpus with
    | none => simp [endpoint, bind, Except.bind] at aimed
    | some id =>
      have first := EniAttributes.localEndpoint_eq_some.1 endpoint
      obtain ⟨dpu, known, here⟩ := first.1
      have placed : dpu.placement = .onSwitch := by simpa [Dpu.isLocal] using here
      simp only [endpoint, bind, Except.bind, known, placed] at aimed
      cases pa : dpu.pa with
      | none => simp [pa] at aimed
      | some ip =>
        simp only [pa] at aimed
        cases aimed
        exact ⟨ip, ⟨id, dpu, first, known, pa⟩, rfl⟩
  · rintro ⟨ip, ⟨id, dpu, first, known, pa⟩, rfl⟩
    obtain ⟨dpu', known', here⟩ := first.1
    obtain rfl : dpu = dpu' := Option.some.inj (known.symm.trans known')
    have placed : dpu.placement = .onSwitch := by simpa [Dpu.isLocal] using here
    simp only [EniAttributes.localEndpoint_eq_some.2 first, bind, Except.bind, known, placed, pa]
    rfl

theorem target_of_lasting (term : role.isTerm = true) (same : a'.lasting = a.lasting) :
    target role a' dpus = target role a dpus := by
  have key : a'.key = a.key := congrArg (·.key) same
  simp only [target, targetDpu, if_pos term, EniAttributes.localEndpoint_of_lasting same, key]

/-- If the rule ends tunnels, it has not failed, and it has a target to which it leads if it leads
anywhere. -/
def Anchored (a : EniAttributes) (dpus : Dpus) (r : Rule) : Prop :=
  r.role.isTerm = true → r.state ≠ .failed ∧ ∃ t, target r.role a dpus = .ok t ∧ r.Heads t

theorem Anchored.of_lasting (anchored : r.Anchored a dpus) (same : a'.lasting = a.lasting) :
    r.Anchored a' dpus := by
  intro term
  rw [target_of_lasting term same]
  exact anchored term

theorem anchored_ofRole (registered : Registered dpus) (allowed : role ∈ Eni.roles a dpus)
    (key : String) : (ofRole role key).Anchored a dpus := by
  intro term
  obtain ⟨id, endpoint⟩ := Option.isSome_iff_exists.1
    (EniAttributes.localEndpoint_isSome.2 ((Eni.mem_roles.1 allowed).1 term))
  obtain ⟨ip, home⟩ := registered.home (EniAttributes.localEndpoint_eq_some.1 endpoint)
  refine ⟨by simp [ofRole], ⟨.onSwitch, ip⟩, (target_eq_ok_iff term).2 ⟨ip, home, rfl⟩, ?_⟩
  exact fun hop leads => by cases leads

theorem fire_anchored (sound : r.Sound) (anchored : r.Anchored a c.dpus) :
    (fire a (r, c)).2.1.Anchored a c.dpus := by
  have pursues := (fire_arrives a c sound).1
  have role : (fire a (r, c)).2.1.role = r.role := pursues.named.2
  intro term
  rw [role] at term ⊢
  obtain ⟨live, t, aimed, heads⟩ := anchored term
  refine ⟨fun failed => ?_, t, aimed, pursues.heads t aimed heads⟩
  rcases (fire_state_eq_failed_iff a r c sound).1 failed with before | ⟨-, e, invalid⟩
  · exact live before
  · cases aimed.symm.trans invalid

theorem destroy_heads (c : Context) (heads : r.Heads t) : (destroy (r, c)).2.1.Heads t := by
  have dropped : ∀ (r : Rule) c, r.Heads t → (dropNextHop (r, c)).2.1.Heads t := by
    intro r c heads
    rcases dropNextHop_outcome r c with ⟨e, c', run, -⟩ | ⟨c', run, -⟩
    · rwa [run]
    · rw [run]
      exact fun hop leads => by cases leads
  simp only [destroy, Action.run_bind, Action.run_get]
  split
  · rw [Action.run_bind]
    rcases uninstall_outcome .resourceDelete r c with ⟨e, c', run, -⟩ | ⟨c', run, -⟩
    · rwa [run]
    · rw [run]
      exact dropped _ c' heads
  · exact dropped r c heads

theorem destroy_anchored (c : Context) (anchored : r.Anchored a dpus) :
    (destroy (r, c)).2.1.Anchored a dpus := by
  have role : (destroy (r, c)).2.1.role = r.role := (destroy_sheds r c).1.named.2
  intro term
  rw [role] at term ⊢
  obtain ⟨live, t, aimed, heads⟩ := anchored term
  exact ⟨mt (destroy_state_eq_failed_iff r c).1 live, t, aimed, destroy_heads c heads⟩

def Stands (a : EniAttributes) (dpus : Dpus) (r : Rule) : Prop :=
  ∃ t, target r.role a dpus = .ok t ∧ r.change t = .none

theorem Anchored.stands (anchored : r.Anchored a dpus) (term : r.role.isTerm = true)
    (sound : r.Sound) (on : r.state = .installed) : r.Stands a dpus := by
  obtain ⟨-, t, aimed, heads⟩ := anchored term
  obtain ⟨hop, leads, resolved⟩ := sound on
  exact ⟨t, aimed, change_eq_none_iff.2 ⟨hop, leads, heads hop leads, resolved, on⟩⟩

/-- Fired, the rule stays as it is, and no call is made. -/
def Idle (a : EniAttributes) (dpus : Dpus) (r : Rule) : Prop :=
  ∀ c : Context, c.dpus = dpus → fire a (r, c) = (.ok (), r, c)

theorem Stands.idle (stands : r.Stands a dpus) : r.Idle a dpus := by
  rintro c rfl
  obtain ⟨t, aimed, unchanged⟩ := stands
  obtain ⟨-, -, -, -, on⟩ := change_eq_none_iff.1 unchanged
  rw [fire_of_target (by simp [on]) aimed]
  simp only [pursue, Action.run_bind, Action.run_get, unchanged]
  rfl

theorem idle_of_failed (failed : r.state = .failed) : r.Idle a dpus :=
  fun c _ => fire_of_failed a c failed

/-- While all rules of an ENI are fired, one that is idle goes on to be so. -/
theorem sweep_fire_keeps {rules : List Rule} (sound : ∀ r ∈ rules, r.Sound)
    (distinct : (rules.map Rule.key).Nodup) (member : r ∈ rules) (idle : r.Idle a c.dpus) :
    r ∈ (Action.sweep (fire a) (rules, c)).2.1 ∧
      KeepsRule r.key c (Action.sweep (fire a) (rules, c)).2.2 := by
  -- each of the others has another name, and what can be looked up stays the same for the next one
  have keeps : ∀ r' c', (r'.Sound ∧ (r'.key = r.key → r' = r)) →
      c'.dpus = c.dpus ∧ KeepsRule r.key c c' → (fire a (r', c')).2.2.dpus = c.dpus ∧
        KeepsRule r.key c (fire a (r', c')).2.2 := by
    rintro r' c' ⟨sound, only⟩ ⟨dpus, kept⟩
    by_cases here : r'.key = r.key
    · rw [only here, idle c' dpus]
      exact ⟨dpus, kept⟩
    · have steady := (fire_arrives a c' sound).1.steady
      exact ⟨steady.dpus.trans dpus,
        IsTrans.trans _ _ _ kept ((fire_leads a sound).1.keepsRule here)⟩
  have fits : ∀ r' ∈ rules, r'.Sound ∧ (r'.key = r.key → r' = r) := fun r' among =>
    ⟨sound r' among, List.inj_on_of_nodup_map distinct among member⟩
  obtain ⟨⟨-, kept⟩, turns, -⟩ := Action.sweep_turns keeps fits ⟨rfl, refl c⟩
  obtain ⟨c', ⟨dpus, -⟩, among⟩ := turns r member
  rw [idle c' dpus] at among
  exact ⟨among, kept⟩

end Rule

namespace Eni

def Anchored (dpus : Dpus) (eni : Eni) : Prop := ∀ r ∈ eni.rules, r.Anchored eni.attributes dpus

variable {eni eni' : Eni} {c c' : Context} {dpus : Dpus} {r : Rule}

theorem Anchored.withPrimary (anchored : eni.Anchored dpus) (primary : UInt64) :
    (eni.withPrimary primary).Anchored dpus :=
  fun r member => (anchored r member).of_lasting rfl

theorem ofAttributes_anchored (registered : Registered dpus) (a : EniAttributes) (table : String) :
    (ofAttributes a dpus table).Anchored dpus := by
  intro r member
  obtain ⟨role, allowed, rfl⟩ := List.mem_map.1 member
  exact Rule.anchored_ofRole registered allowed _

theorem fireAll_anchored (sound : ∀ r ∈ eni.rules, r.Sound) (knows : c.dpus = dpus)
    (anchored : eni.Anchored dpus) : (fireAll (eni, c)).2.1.Anchored dpus := by
  subst knows
  intro r' member
  rw [fireAll_attributes]
  obtain ⟨r, among, c', knows, rfl⟩ := (fireAll_turns eni c sound).2 r' member
  exact knows ▸ Rule.fire_anchored (sound r among) (knows ▸ anchored r among)

theorem fireAll_new_anchored (registered : Registered dpus) (knows : c.dpus = dpus)
    (a : EniAttributes) (table : String) : (fireAll (ofAttributes a dpus table, c)).2.1.Anchored dpus :=
  fireAll_anchored (ofAttributes_tidy a dpus table).sound knows
    (ofAttributes_anchored registered a table)

theorem destroy_anchored (anchored : eni.Anchored dpus) (c : Context) :
    (destroy (eni, c)).2.1.Anchored dpus := by
  intro r' member
  rw [destroy_attributes]
  obtain ⟨r, among, c', rfl⟩ := destroy_turns eni c r' member
  exact Rule.destroy_anchored c' (anchored r among)

section keeps

variable {table : String} (tidy : eni.Tidy table) (member : r ∈ eni.rules)

include tidy member

theorem fireAll_keeps (idle : r.Idle eni.attributes c.dpus) :
    r ∈ (fireAll (eni, c)).2.1.rules ∧ KeepsRule r.key c (fireAll (eni, c)).2.2 := by
  have swept := Rule.sweep_fire_keeps tidy.sound tidy.distinct member idle
  rw [run_fireAll]
  generalize Action.sweep (Rule.fire eni.attributes) (eni.rules, c) = outcome at swept
  obtain ⟨_ | _, rules, c'⟩ := outcome <;> exact swept

theorem update_keeps (idle : ∀ primary, r.Idle (eni.withPrimary primary).attributes c.dpus)
    (fields : Fields) :
    r ∈ (update fields (eni, c)).2.1.rules ∧ KeepsRule r.key c (update fields (eni, c)).2.2 := by
  rw [run_update]
  split
  · exact ⟨member, refl c⟩
  next primary _ =>
    split
    · exact ⟨member, refl c⟩
    · exact fireAll_keeps (tidy.withPrimary primary) member (idle primary)

end keeps

end Eni

namespace Tables

def Anchored (t : Tables) : Prop := ∀ key eni, t.enis.get? key = some eni → eni.Anchored t.dpus

variable {t t' : Tables}

theorem Anchored.insert (anchored : t.Anchored) {key : EniKey} {eni : Eni}
    (fits : eni.Anchored t.dpus) (enis : t'.enis = t.enis.insert key eni)
    (dpus : t'.dpus = t.dpus) : t'.Anchored := by
  intro other found there
  rw [enis, SortedMap.get?_insert_ite] at there
  rw [dpus]
  split at there
  · cases there
    exact fits
  · exact anchored other found there

theorem Turn.anchored (turn : Turn t t') (inOrder : t.InOrder)
    (anchored : t.Anchored) : t'.Anchored := by
  cases turn with
  | load rows unready =>
    -- there are no ENIs yet
    intro key eni there
    cases ((inOrder.unready unready).1 key).symm.trans there
  | watch => exact anchored
  | @declare _ a table c c' eni ready absent named knows fired =>
    have fits := Eni.fireAll_new_anchored inOrder.registered knows a table
    rw [fired] at fits
    exact anchored.insert fits rfl rfl
  | @abide _ a table c c' c'' e e' eni eni' ready absent named knows failed stuck =>
    have fits := Eni.fireAll_new_anchored inOrder.registered knows a table
    rw [failed] at fits
    have left := Eni.destroy_anchored fits c'
    rw [stuck] at left
    exact anchored.insert left rfl rfl
  | @fire key eni primary c there sound knows =>
    have same : ∀ r ∈ (eni.withPrimary primary).rules, r.Sound := sound
    have fits := Eni.fireAll_anchored same knows ((anchored key eni there).withPrimary primary)
    exact anchored.insert fits rfl rfl
  | @spoil key eni eni' e c c' there stuck =>
    have left := Eni.destroy_anchored (anchored key eni there) c
    rw [stuck] at left
    exact anchored.insert left rfl rfl
  | remove key =>
    intro other eni there
    have there : (t.enis.erase key).get? other = some eni := there
    rw [SortedMap.get?_erase] at there
    split at there
    · cases there
    · exact anchored other eni there

theorem Turns.anchored (turns : Turns t t') (inOrder : t.InOrder)
    (anchored : t.Anchored) : t'.Anchored := by
  induction turns with
  | refl => exact anchored
  | tail earlier turn ih => exact turn.anchored (Turns.inOrder earlier inOrder) ih

end Tables

namespace Reconciler

/-- The rule is in the switch and redirects to the first DPU of the ENI that is on the switch. -/
def LeadsHome (s : Reconciler) (eni : Eni) (r : Rule) : Prop :=
  ∃ ip, s.ctx.dpus.Home eni.attributes.endpoints ip ∧
    ∃ written, s.ctx.env.switch.rules.get? r.key = some written ∧
      written.get? "REDIRECT_ACTION" = some ip.render

/-- Tables, rules and switch agree with each other, and the rules that end tunnels are anchored. -/
structure Grounded (s : Reconciler) : Prop where
  lawful : s.Lawful
  anchored : s.tables.Anchored

section grounded

variable {s s' : Reconciler} {key other : EniKey} {eni : Eni} {r : Rule}

theorem Grounded.advance (grounded : s.Grounded) (advances : Advances s s') :
    s'.Grounded where
  lawful := (grounded.lawful.advance advances).1
  anchored := (advances.turns grounded.lawful.kept).anchored grounded.lawful.inOrder grounded.anchored

theorem fresh_grounded (config : Config) (inventory : Inventory) : (fresh config inventory).Grounded :=
  ⟨fresh_lawful config inventory, fun _ _ there => by cases there⟩

theorem Grounded.leadsHome (grounded : s.Grounded) (there : s.enis.get? key = some eni)
    (member : r ∈ eni.rules) (term : r.role.isTerm = true) (on : r.state = .installed) :
    s.LeadsHome eni r := by
  obtain ⟨-, t, aimed, heads⟩ := grounded.anchored key eni there r member term
  obtain ⟨ip, home, rfl⟩ := (Rule.target_eq_ok_iff term).1 aimed
  obtain ⟨hop, vip, leads, -, -, written⟩ :=
    (grounded.lawful.coherent.shown _ (mem_world_rules there member)).on on
  refine ⟨ip, home, _, written, ?_⟩
  rw [← NextHop.target_of_onSwitch (heads hop leads)]
  exact Rule.get?_redirect _ _ _ _ _

def HasRule (key : EniKey) (r : Rule) (s : Reconciler) : Prop :=
  ∃ eni, s.enis.get? key = some eni ∧ r ∈ eni.rules

/-- The rule of the ENI under the key is left to it, and there has been no call on it. -/
structure SparesRule (key : EniKey) (r : Rule) (s s' : Reconciler) : Prop where
  advances : Advances s s'
  rule : s.Grounded → HasRule key r s → HasRule key r s' ∧ KeepsRule r.key s.ctx s'.ctx

instance : Std.Refl (SparesRule key r) := ⟨fun s => ⟨refl s, fun _ has => ⟨has, refl s.ctx⟩⟩⟩

instance : IsTrans Reconciler (SparesRule key r) := by
  constructor
  intro s s' s'' first second
  refine ⟨IsTrans.trans _ _ _ first.advances second.advances, fun grounded has => ?_⟩
  obtain ⟨has', before⟩ := first.rule grounded has
  obtain ⟨has'', after⟩ := second.rule (grounded.advance first.advances) has'
  exact ⟨has'', IsTrans.trans _ _ _ before after⟩

theorem Aside.hasRule (aside : Aside key s s') (kept : s.Kept) (has : HasRule key r s) :
    HasRule key r s' ∧ KeepsRule r.key s.ctx s'.ctx := by
  obtain ⟨eni, there, member⟩ := has
  obtain ⟨named, tidy⟩ := kept.tidy key eni there
  have name : r.key = key.ruleKey s.config.table r.role := named ▸ tidy.keys r member
  exact ⟨⟨eni, aside.eni.trans there, member⟩, name ▸ aside.rules r.role⟩

theorem Aside.sparesRule (aside : Aside key s s') (advances : Advances s s') :
    SparesRule key r s s' :=
  ⟨advances, fun grounded has => aside.hasRule grounded.lawful.kept has⟩

theorem Beside.sparesRule (beside : Beside s s') : SparesRule key r s s' :=
  (beside.calm.aside beside.hosted).sparesRule beside.advances

theorem ensureInitialized_sparesRule (s : Reconciler) :
    SparesRule key r s (ensureInitialized s).2 :=
  ((ensureInitialized_calm s).1.aside (hosted_ensureInitialized s)).sparesRule
    (ensureInitialized_advances s)

theorem surround_sparesRule (inventory : Inventory) (faults : Faults)
    (rejectsAcl rejectsTunnels : Bool) (s : Reconciler) :
    SparesRule key r s (s.surround inventory faults rejectsAcl rejectsTunnels) :=
  ⟨surround_advances inventory faults rejectsAcl rejectsTunnels s,
    fun _ has => ⟨has, rfl, .of_eq rfl⟩⟩

/-- Whichever primary is declared, the rule is idle wherever the ENI has it. -/
def StaysIdle (key : EniKey) (r : Rule) : Prop :=
  ∀ (s : Reconciler) eni, s.Grounded → s.enis.get? key = some eni → r ∈ eni.rules →
    ∀ primary, r.Idle (eni.withPrimary primary).attributes s.ctx.dpus

theorem staysIdle_of_term (key : EniKey) (term : r.role.isTerm = true) (on : r.state = .installed) :
    StaysIdle key r := by
  intro s eni grounded there member primary
  have anchored := (grounded.anchored key eni there).withPrimary primary r member
  exact (anchored.stands term (grounded.lawful.kept.sound there r member) on).idle

section spares

variable (idle : StaysIdle key r)

include idle

theorem wake_sparesRule (added : Bool) (other : EniKey) (s : Reconciler) :
    SparesRule key r s (wake added other s).2 := by
  refine ⟨wake_advances added other s, fun grounded has => ?_⟩
  by_cases apart : other = key
  · subst apart
    obtain ⟨eni, there, member⟩ := has
    obtain ⟨-, tidy⟩ := grounded.lawful.kept.tidy other eni there
    obtain ⟨stays, keeps⟩ :=
      Eni.fireAll_keeps tidy member (idle s eni grounded there member eni.attributes.primary)
    rw [run_wake added there]
    split
    · exact ⟨⟨_, SortedMap.get?_insert_self _ _ _, stays⟩, keeps⟩
    · exact ⟨⟨eni, there, member⟩, refl s.ctx⟩
  · exact (wake_aside apart grounded.lawful.kept added).hasRule grounded.lawful.kept has

/-- Another primary, known or not, makes no difference to the rule. -/
theorem set_sparesRule (fields : Fields) (s : Reconciler) :
    SparesRule key r s (set key fields s).2 := by
  refine set_related (ensureInitialized_sparesRule s) fun s' ready =>
    ⟨set_advances key fields s', fun grounded ⟨eni, there, member⟩ => ?_⟩
  obtain ⟨-, tidy⟩ := grounded.lawful.kept.tidy key eni there
  obtain ⟨stays, keeps⟩ := Eni.update_keeps tidy member (idle s' eni grounded there member) fields
  generalize updated : Eni.update fields (eni, s'.ctx) = outcome at stays keeps
  obtain ⟨result, eni', c⟩ := outcome
  obtain ⟨counter, run⟩ := run_set_known ready there updated
  rw [run]
  exact ⟨⟨eni', SortedMap.get?_insert_self _ _ _, stays⟩, keeps⟩

theorem act_sparesRule {deed : Deed} (kept : deed ≠ .delete key) (s : Reconciler) :
    SparesRule key r s (deed.act s).2 := by
  by_cases apart : deed.key = key
  · subst apart
    cases deed with
    | set key fields => exact set_sparesRule idle fields s
    | delete key => exact absurd rfl kept
  · refine ⟨act_advances deed s, fun grounded has => ?_⟩
    have kept := grounded.lawful.kept
    obtain ⟨s₁, calm, hosted, aside⟩ := act_aside kept apart
    have follows : Follows (fun _ => True) s s₁ := calm.follows
    obtain ⟨has₁, before⟩ := (calm.aside hosted).hasRule kept has
    obtain ⟨has', after⟩ := aside.hasRule (follows kept).1 has₁
    exact ⟨has', IsTrans.trans _ _ _ before after⟩

/-- Whatever else is done, a rule that stays idle is left to its ENI until that is deleted. -/
theorem Visits.sparesIdle {requests : List Request} (visits : Visits s requests s')
    (kept : ∀ t, (.delete key, t) ∉ deeds s requests) : SparesRule key r s s' := by
  refine visits.related Beside.sparesRule ensureInitialized_sparesRule
    (onNeighbor_related Beside.sparesRule (wake_sparesRule idle)) surround_sparesRule ?_
  intro deed t member
  exact act_sparesRule idle (fun same => kept t (same ▸ member)) t

end spares

theorem Visits.sparesRule (term : r.role.isTerm = true) (on : r.state = .installed)
    {requests : List Request} (visits : Visits s requests s')
    (kept : ∀ t, (.delete key, t) ∉ deeds s requests) : SparesRule key r s s' :=
  visits.sparesIdle (staysIdle_of_term key term on) kept

end grounded

/-- A rule that ends tunnels holds no tunnel next hop and never fails. Once it is installed, with the
address of the first DPU of the ENI that is on the switch, it stays so without a call, whichever
primaries are declared, whatever is heard of neighbors and whichever calls fail, as long as
nobody asks for the deletion of the ENI. -/
theorem tunnel_ends_immune (config : Config) (inventory : Inventory) (before : List Request)
    {s : Reconciler} (visits : Visits (fresh config inventory) before s) :
    ∀ key eni, s.enis.get? key = some eni → ∀ r ∈ eni.rules, r.role.isTerm = true →
      r.hop? = none ∧ r.state ≠ .failed ∧ (r.state = .installed → s.LeadsHome eni r ∧
        ∀ later s', Visits s later s' → (∀ t, (.delete key, t) ∉ deeds s later) →
          KeepsRule r.key s.ctx s'.ctx ∧
            ∃ eni', s'.enis.get? key = some eni' ∧ r ∈ eni'.rules ∧ s'.LeadsHome eni' r) := by
  intro key eni there r member term
  have grounded : s.Grounded := (fresh_grounded config inventory).advance visits.guards.advances
  have bare := (grounded.lawful.inOrder.enis key eni there).2.bare r member term
  have live := (grounded.anchored key eni there r member term).1
  refine ⟨bare, live, fun on => ⟨grounded.leadsHome there member term on, ?_⟩⟩
  intro later s' onward kept
  have spares : SparesRule key r s s' := onward.sparesRule term on kept
  obtain ⟨⟨eni', there', member'⟩, keeps⟩ := spares.rule grounded ⟨eni, there, member⟩
  have home := (grounded.advance spares.advances).leadsHome there' member' term on
  exact ⟨keeps, eni', there', member', home⟩

/-- The switch refuses everything while a DPU that is not known becomes the primary, the neighbor of
the first one goes and comes, and then the first one becomes the primary. -/
def sampleOtherPrimaries : List Request :=
  [.surroundings twoHosts .none true true, .set sampleEni [("primary_vdpu", "99")],
    .neighbor ⟨⟨firstAddress, "Vlan1"⟩, false⟩, .neighbor ⟨⟨firstAddress, "Vlan1"⟩, true⟩,
    .set sampleEni [("primary_vdpu", "1")]]

theorem sample_tunnel_ends_immune :
    let s := (fresh {} (twoHosts.resolve firstAddress)).run sampleWithVni
    ∃ eni r, s.enis.get? sampleEni = some eni ∧ r ∈ eni.rules ∧ r.role = .inboundTerm ∧
      r.state = .installed ∧ r.hop? = none ∧ s.LeadsHome eni r ∧
        KeepsRule r.key s.ctx (s.run sampleOtherPrimaries).ctx ∧
          ∃ eni', (s.run sampleOtherPrimaries).enis.get? sampleEni = some eni' ∧ r ∈ eni'.rules := by
  have immune := tunnel_ends_immune {} (twoHosts.resolve firstAddress) sampleWithVni (.inl rfl)
  have installed : ((((fresh {} (twoHosts.resolve firstAddress)).run sampleWithVni).enis.get?
      sampleEni).any fun eni => eni.rules.any fun r =>
        decide (r.role = .inboundTerm) && decide (r.state = .installed)) = true := by
    decide +kernel
  generalize (fresh {} (twoHosts.resolve firstAddress)).run sampleWithVni = s at immune installed ⊢
  obtain ⟨eni, there, some_installed⟩ := (Option.any_eq_true _ _).1 installed
  obtain ⟨r, member, fits⟩ := List.any_eq_true.1 some_installed
  obtain ⟨role, on⟩ : r.role = .inboundTerm ∧ r.state = .installed := by simpa using fits
  obtain ⟨bare, -, stays⟩ := immune sampleEni eni there r member (by rw [role]; rfl)
  obtain ⟨home, later⟩ := stays on
  have kept : ∀ t, (.delete sampleEni, t) ∉ deeds s sampleOtherPrimaries := by
    simp [sampleOtherPrimaries, deeds, requestDeeds]
  obtain ⟨keeps, eni', there', member', -⟩ := later sampleOtherPrimaries _ (.inl rfl) kept
  exact ⟨eni, r, there, member, role, on, bare, home, keeps, eni', there', member'⟩

end Reconciler

end EniForwarding
