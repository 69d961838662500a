import EniForwarding.Proofs.Eni
import EniForwarding.Proofs.Rule.Obliging

/-! Firing and destroying all rules of an ENI.

What holds of the work on one rule is put together for all rules of an ENI, which are
worked on one after the other whether or not some of them fail. The rules that follow the
primary have one target, and those that end tunnels hold no tunnel next hop; so while an
ENI is fired, its rules together only give back a tunnel next hop, or only take hold of it.
-/

set_option autoImplicit false

namespace EniForwarding

namespace Action

section sweep

variable {ρ τ : Type} {x : Action (ρ × τ) Unit} {P : ρ → Prop}

/-- What holds of each item on its turn is put together from the last item to the first. -/
theorem sweep_leads {R : ρ × τ → ρ × τ → Prop} {S : List ρ × τ → List ρ × τ → Prop}
    {A : ρ × τ → ρ → Prop} {D : List ρ × τ → List ρ → Prop}
    (leads : ∀ r t, P r → x.Leads R (r, t) fun _ p => A (r, t) p.1)
    (nil : ∀ t, S ([], t) ([], t) ∧ D ([], t) [])
    (cons : ∀ {r t r' t' rest rest' t''}, R (r, t) (r', t') → S (rest, t') (rest', t'') →
      S (r :: rest, t) (r' :: rest', t''))
    (done : ∀ {r t r' t' rest rest'}, R (r, t) (r', t') → A (r, t) r' → D (rest, t') rest' →
      D (r :: rest, t) (r' :: rest')) :
    ∀ rules t, (∀ r ∈ rules, P r) →
      (sweep x).Leads S (rules, t) fun _ p => D (rules, t) p.1 := by
  intro rules
  induction rules with
  | nil => exact fun t _ => .of_ok (sweep_nil x t) (nil t).1 (nil t).2
  | cons r rest ih =>
    intro t fit
    have head := leads r t (fit r List.mem_cons_self)
    unfold Leads at head
    generalize worked : x (r, t) = outcome at head
    obtain ⟨first, r', t'⟩ := outcome
    have tail := ih t' fun r member => fit r (List.mem_cons_of_mem _ member)
    unfold Leads at tail
    generalize swept : sweep x (rest, t') = outcome at tail
    obtain ⟨second, rest', t''⟩ := outcome
    unfold Leads
    rw [sweep_cons worked swept]
    refine ⟨cons head.1 tail.1, fun _ success => ?_⟩
    -- no failure is the first one
    cases first with
    | error e => cases success
    | ok _ => exact done head.1 (head.2 () rfl) (tail.2 _ success)

theorem sweep_succeeds {Q : τ → Prop}
    (succeeds : ∀ r t, P r → Q t → x.Succeeds (r, t) ∧ Q (x (r, t)).2.2) :
    ∀ rules t, (∀ r ∈ rules, P r) → Q t →
      (sweep x).Succeeds (rules, t) ∧ Q (sweep x (rules, t)).2.2 := by
  intro rules
  induction rules with
  | nil =>
    intro t _ holds
    rw [sweep_nil]
    exact ⟨.of_ok (sweep_nil x t), holds⟩
  | cons r rest ih =>
    intro t fit holds
    obtain ⟨⟨_, first⟩, kept⟩ := succeeds r t (fit r List.mem_cons_self) holds
    obtain ⟨⟨_, second⟩, final⟩ :=
      ih (x (r, t)).2.2 (fun r member => fit r (List.mem_cons_of_mem _ member)) kept
    rw [Succeeds, run_sweep_cons]
    refine ⟨⟨(), ?_⟩, final⟩
    dsimp only
    rw [first, second]
    rfl

end sweep

end Action

namespace Rule

variable {a : EniAttributes} {dpus : Dpus}

theorem target_of_not_term {role : Role} (follows : role.isTerm = false) :
    target role a dpus = target .inbound a dpus := by
  have inbound : Role.isTerm .inbound = false := rfl
  simp [target, targetDpu, follows, inbound]

theorem target_of_term {role : Role} (term : role.isTerm = true) (ip : Net.Address) :
    target role a dpus ≠ .ok ⟨.inCluster, ip⟩ := by
  intro aimed
  cases placement_of_term term aimed

/-- The number of the rules that hold a tunnel next hop. -/
def holdings (rules : List Rule) (hop : TunnelHop) : Nat := rules.countP (·.hop? = some hop)

theorem holdings_cons (r : Rule) (rules : List Rule) (hop : TunnelHop) :
    holdings (r :: rules) hop = holdings rules hop + r.holds hop := by
  simp [holdings, holds, List.countP_cons]

/-- The rules that end tunnels hold no tunnel next hop. -/
def Bare (rules : List Rule) : Prop := ∀ r ∈ rules, r.role.isTerm = true → r.hop? = none

/-- All rules are on their way to where they aim. -/
structure Pursuit (a : EniAttributes) (p p' : List Rule × Context) : Prop where
  outlook : p'.2.outlook = p.2.outlook
  labels : p'.1.map label = p.1.map label
  aims : p'.1.map (aim p.2.outlook a) = p.1.map (aim p.2.outlook a)
  bare : Bare p.1 → Bare p'.1
  rises : ∀ hop : TunnelHop, target .inbound a p.2.dpus = .ok ⟨.inCluster, hop.ip⟩ → Bare p.1 →
    Context.Rises hop (holdings p.1 hop) p.2 (holdings p'.1 hop) p'.2
  falls : ∀ hop : TunnelHop, target .inbound a p.2.dpus ≠ .ok ⟨.inCluster, hop.ip⟩ →
    Context.Falls hop (holdings p.1 hop) p.2 (holdings p'.1 hop) p'.2

theorem Pursuit.of_eq {c c' : Context} (rules : List Rule) (outlook : c'.outlook = c.outlook)
    (users : ∀ hop, c'.users hop = c.users hop) : Pursuit a (rules, c) (rules, c') where
  outlook := outlook
  labels := rfl
  aims := rfl
  bare := id
  rises hop _ _ := .of_eq (users hop)
  falls hop _ := .of_eq (users hop)

instance : Std.Refl (Pursuit a) := ⟨fun p => .of_eq p.1 rfl fun _ => rfl⟩

instance : IsTrans (List Rule × Context) (Pursuit a) := by
  constructor
  intro p p' p'' first second
  have outlook : p'.2.outlook = p.2.outlook := first.outlook
  have dpus : p'.2.dpus = p.2.dpus := congrArg Outlook.dpus outlook
  constructor
  · exact second.outlook.trans outlook
  · exact second.labels.trans first.labels
  · have aims := second.aims
    rw [outlook] at aims
    exact aims.trans first.aims
  · exact second.bare ∘ first.bare
  · intro hop aimed bare
    exact (first.rises hop aimed bare).trans (second.rises hop (by rw [dpus, aimed]) (first.bare bare))
  · intro hop elsewhere
    exact (first.falls hop elsewhere).trans (second.falls hop (by rwa [dpus]))

theorem Pursues.of_term {r r' : Rule} {c c' : Context} (pursues : Pursues a (r, c) (r', c'))
    (term : r.role.isTerm = true) (free : r.hop? = none) (hop : TunnelHop) :
    r.holds hop = 0 ∧ r'.holds hop = 0 ∧ c'.users hop = c.users hop := by
  have nothing : r.holds hop = 0 := by simp [holds, free]
  obtain ⟨less, users⟩ := pursues.falls hop (target_of_term term hop.ip)
  simp only [nothing] at less users
  exact ⟨nothing, by omega, by omega⟩

theorem hop?_eq_none_of_holds {r : Rule} (nothing : ∀ hop, r.holds hop = 0) : r.hop? = none := by
  cases held : r.hop? with
  | none => rfl
  | some hop => simpa [holds, held] using nothing hop

theorem Pursuit.cons {r r' : Rule} {c c' c'' : Context} {rest rest' : List Rule}
    (head : Pursues a (r, c) (r', c')) (tail : Pursuit a (rest, c') (rest', c'')) :
    Pursuit a (r :: rest, c) (r' :: rest', c'') := by
  have outlook : c'.outlook = c.outlook := head.steady.outlook
  have dpus : c'.dpus = c.dpus := congrArg Outlook.dpus outlook
  have role : r'.role = r.role := head.named.2
  constructor
  · exact tail.outlook.trans outlook
  · have label_eq : r'.label = r.label := Prod.ext head.named.1 head.named.2
    have labels : rest'.map label = rest.map label := tail.labels
    rw [List.map_cons, List.map_cons, label_eq, labels]
  · have aims := tail.aims
    have aim_eq : r'.aim c.outlook a = r.aim c.outlook a := head.aim
    simp only [outlook] at aims
    simp only [List.map_cons, aim_eq, aims]
  · intro bare other member term
    rcases List.mem_cons.1 member with rfl | later
    · rw [role] at term
      have free := bare r List.mem_cons_self term
      exact hop?_eq_none_of_holds fun hop => (head.of_term term free hop).2.1
    · exact tail.bare (fun r later => bare r (List.mem_cons_of_mem _ later)) other later term
  · intro hop aimed bare
    have rest_rises := tail.rises hop (by rw [dpus]; exact aimed) fun r later =>
      bare r (List.mem_cons_of_mem _ later)
    have head_rises : Context.Rises hop (r.holds hop) c (r'.holds hop) c' := by
      cases term : r.role.isTerm with
      | true =>
        obtain ⟨before, after, users⟩ := head.of_term term (bare r List.mem_cons_self term) hop
        rw [before, after]
        exact .of_eq users
      | false => exact head.rises hop ((target_of_not_term term).trans aimed)
    simp only [holdings_cons]
    exact head_rises.add rest_rises
  · intro hop elsewhere
    have rest_falls := tail.falls hop (by rw [dpus]; exact elsewhere)
    have head_falls : Context.Falls hop (r.holds hop) c (r'.holds hop) c' := by
      apply head.falls hop
      cases term : r.role.isTerm with
      | true => exact target_of_term term hop.ip
      | false => exact fun aimed => elsewhere ((target_of_not_term term).symm.trans aimed)
    simp only [holdings_cons]
    exact head_falls.add rest_falls

theorem sweep_fire_leads (a : EniAttributes) (rules : List Rule) (c : Context)
    (sound : ∀ r ∈ rules, r.Sound) :
    (Action.sweep (fire a)).Leads (Pursuit a) (rules, c) fun _ p =>
      p.1 = rules.map (aim c.outlook a) := by
  refine Action.sweep_leads (R := Pursues a) (S := Pursuit a) (P := Sound)
    (A := fun p r' => r' = p.1.aim p.2.outlook a)
    (D := fun p rules' => rules' = p.1.map (aim p.2.outlook a))
    (fun r c sound => fire_arrives a c sound) (fun c => ⟨refl _, rfl⟩) Pursuit.cons ?_ rules c sound
  rintro r c r' c' rest rest' pursues rfl rfl
  have outlook : c'.outlook = c.outlook := pursues.steady.outlook
  simp only [List.map_cons, outlook]

/-- Rules are taken down, and those that would become what new ones become still would. -/
structure Clearing (p p' : List Rule × Context) : Prop where
  outlook : p'.2.outlook = p.2.outlook
  labels : p'.1.map label = p.1.map label
  bare : Bare p.1 → Bare p'.1
  falls : ∀ hop, Context.Falls hop (holdings p.1 hop) p.2 (holdings p'.1 hop) p'.2
  fit : ∀ a, (∀ r ∈ p.1, r.Fit p.2.outlook a) → ∀ r ∈ p'.1, r.Fit p.2.outlook a
  waits : ∀ a dpus, (∀ r ∈ p.1, r.Waits a dpus) → ∀ r ∈ p'.1, r.Waits a dpus

theorem Clearing.cons {r r' : Rule} {c c' c'' : Context} {rest rest' : List Rule}
    (head : Sheds (r, c) (r', c')) (tail : Clearing (rest, c') (rest', c'')) :
    Clearing (r :: rest, c) (r' :: rest', c'') := by
  have outlook : c'.outlook = c.outlook := head.steady.outlook
  constructor
  · exact tail.outlook.trans outlook
  · have label_eq : r'.label = r.label := Prod.ext head.named.1 head.named.2
    have labels : rest'.map label = rest.map label := tail.labels
    rw [List.map_cons, List.map_cons, label_eq, labels]
  · intro bare other member term
    rcases List.mem_cons.1 member with rfl | later
    · have role : other.role = r.role := head.named.2
      have free := bare r List.mem_cons_self (role ▸ term)
      refine hop?_eq_none_of_holds fun hop => ?_
      have less : other.holds hop ≤ r.holds hop := (head.falls hop).1
      have nothing : r.holds hop = 0 := by simp [holds, free]
      omega
    · exact tail.bare (fun r later => bare r (List.mem_cons_of_mem _ later)) other later term
  · intro hop
    simp only [holdings_cons]
    exact (head.falls hop).add (tail.falls hop)
  · intro a fit other member
    rcases List.mem_cons.1 member with rfl | later
    · exact head.fit a (fit r List.mem_cons_self)
    · have rest_fit := tail.fit a
      simp only [outlook] at rest_fit
      exact rest_fit (fun r later => fit r (List.mem_cons_of_mem _ later)) other later
  · intro a dpus waits other member
    rcases List.mem_cons.1 member with rfl | later
    · exact head.waits a dpus (waits r List.mem_cons_self)
    · exact tail.waits a dpus (fun r later => waits r (List.mem_cons_of_mem _ later)) other later

theorem sweep_destroy_leads (rules : List Rule) (c : Context) :
    (Action.sweep destroy).Leads Clearing (rules, c) fun _ p => ∀ r ∈ p.1, r.nextHop = none := by
  refine Action.sweep_leads (R := Sheds) (S := Clearing) (P := fun _ => True)
    (A := fun _ r => r.nextHop = none) (D := fun _ rules' => ∀ r ∈ rules', r.nextHop = none)
    (fun r c _ => destroy_sheds r c) (fun c => ⟨?_, by simp⟩) Clearing.cons ?_ rules c
    fun _ _ => trivial
  · exact ⟨rfl, rfl, id, fun _ => .of_eq rfl, by simp, by simp⟩
  · intro r c r' c' rest rest' _ dropped others other member
    rcases List.mem_cons.1 member with rfl | later
    · exact dropped
    · exact others other later

theorem holdings_eq_zero {rules : List Rule} (free : ∀ r ∈ rules, r.nextHop = none) (hop : TunnelHop) :
    holdings rules hop = 0 := by
  apply List.countP_eq_zero.2
  intro r member
  simp [hop?, free r member]

end Rule

namespace Eni

variable (eni : Eni) (c : Context)

def withPrimary (eni : Eni) (primary : UInt64) : Eni :=
  { eni with attributes := { eni.attributes with primary := primary } }

theorem Tidy.withPrimary {eni : Eni} {table : String} (tidy : eni.Tidy table) (primary : UInt64) :
    (eni.withPrimary primary).Tidy table :=
  ⟨tidy.roles, tidy.keys, tidy.sound, tidy.vni⟩

/-- The ENI as it is once all its rules have got where they aim. -/
def settled (eni : Eni) (o : Outlook) : Eni :=
  { eni with rules := eni.rules.map (Rule.aim o eni.attributes), needsRefire := false }

theorem run_fireAll :
    fireAll (eni, c) =
      match Action.sweep (Rule.fire eni.attributes) (eni.rules, c) with
      | (.ok _, rules, c) => (.ok (), { eni with rules := rules, needsRefire := false }, c)
      | (.error e, rules, c) => (.error e, { eni with rules := rules, needsRefire := true }, c) := by
  unfold fireAll onRules
  dsimp only
  rcases Action.sweep (Rule.fire eni.attributes) (eni.rules, c) with ⟨_ | _, _, _⟩ <;> rfl

theorem run_destroy :
    destroy (eni, c) =
      match Action.sweep Rule.destroy (eni.rules, c) with
      | (.ok _, _, c) => (.ok (), { eni with rules := [] }, c)
      | (.error e, rules, c) => (.error e, { eni with rules := rules }, c) := by
  unfold destroy
  rw [Action.run_bind, onRules]
  dsimp only
  rcases Action.sweep Rule.destroy (eni.rules, c) with ⟨_ | _, _, _⟩ <;> rfl

theorem fireAll_outcome (sound : ∀ r ∈ eni.rules, r.Sound) :
    (∃ c', fireAll (eni, c) = (.ok (), eni.settled c.outlook, c') ∧
      Rule.Pursuit eni.attributes (eni.rules, c) ((eni.settled c.outlook).rules, c')) ∨
    ∃ e rules c', fireAll (eni, c) = (.error e, { eni with rules := rules, needsRefire := true }, c') ∧
      Rule.Pursuit eni.attributes (eni.rules, c) (rules, c') := by
  have swept := Rule.sweep_fire_leads eni.attributes eni.rules c sound
  unfold Action.Leads at swept
  rw [run_fireAll]
  generalize Action.sweep (Rule.fire eni.attributes) (eni.rules, c) = outcome at swept
  obtain ⟨result, rules, c'⟩ := outcome
  obtain ⟨pursuit, final⟩ := swept
  cases result with
  | ok _ =>
    have final : rules = eni.rules.map (Rule.aim c.outlook eni.attributes) := final () rfl
    subst final
    exact .inl ⟨c', rfl, pursuit⟩
  | error e => exact .inr ⟨e, rules, c', rfl, pursuit⟩

/-- When an ENI is fired each of its rules has a turn, in which the same DPUs are known, and the rules
that it has afterwards come from these turns. -/
theorem fireAll_turns (sound : ∀ r ∈ eni.rules, r.Sound) :
    (∀ r ∈ eni.rules, ∃ c', c'.dpus = c.dpus ∧
      (Rule.fire eni.attributes (r, c')).2.1 ∈ (fireAll (eni, c)).2.1.rules) ∧
    ∀ r' ∈ (fireAll (eni, c)).2.1.rules, ∃ r ∈ eni.rules, ∃ c', c'.dpus = c.dpus ∧
      (Rule.fire eni.attributes (r, c')).2.1 = r' := by
  have keeps : ∀ (r : Rule) (c' : Context), r.Sound → c'.dpus = c.dpus →
      (Rule.fire eni.attributes (r, c')).2.2.dpus = c.dpus := fun r c' sound knows =>
    (Rule.fire_arrives eni.attributes c' sound).1.steady.dpus.trans knows
  have turns := (Action.sweep_turns (I := fun c' : Context => c'.dpus = c.dpus) keeps sound rfl).2
  rw [run_fireAll]
  generalize Action.sweep (Rule.fire eni.attributes) (eni.rules, c) = outcome at turns ⊢
  obtain ⟨_ | _, rules, c'⟩ := outcome <;> exact turns

theorem fireAll_waits (sound : ∀ r ∈ eni.rules, r.Sound) :
    ∀ r ∈ (fireAll (eni, c)).2.1.rules, r.Waits eni.attributes c.dpus := by
  intro r' member
  obtain ⟨r, among, c', knows, rfl⟩ := (fireAll_turns eni c sound).2 r' member
  exact knows ▸ Rule.fire_waits eni.attributes c' (sound r among)

/-- The rules that are left when an ENI is destroyed are some of its own, each after its turn. -/
theorem destroy_turns : ∀ r' ∈ (destroy (eni, c)).2.1.rules, ∃ r ∈ eni.rules, ∃ c',
    (Rule.destroy (r, c')).2.1 = r' := by
  have fit : ∀ r ∈ eni.rules, True := fun _ _ => trivial
  have turns := (Action.sweep_turns (I := fun _ => True) (x := Rule.destroy) (t := c)
    (fun _ _ _ _ => trivial) fit trivial).2.2
  rw [run_destroy]
  generalize Action.sweep Rule.destroy (eni.rules, c) = outcome at turns ⊢
  obtain ⟨_ | _, rules, c'⟩ := outcome
  · intro r' member
    obtain ⟨r, among, c', -, same⟩ := turns r' member
    exact ⟨r, among, c', same⟩
  · exact fun r' member => by cases member

theorem destroy_outcome :
    (∃ c', destroy (eni, c) = (.ok (), { eni with rules := [] }, c') ∧ c'.outlook = c.outlook ∧
      ∀ hop, Context.Falls hop (Rule.holdings eni.rules hop) c 0 c') ∨
    ∃ e rules c', destroy (eni, c) = (.error e, { eni with rules := rules }, c') ∧
      Rule.Clearing (eni.rules, c) (rules, c') := by
  have swept := Rule.sweep_destroy_leads eni.rules c
  unfold Action.Leads at swept
  rw [run_destroy]
  generalize Action.sweep Rule.destroy (eni.rules, c) = outcome at swept
  obtain ⟨result, rules, c'⟩ := outcome
  obtain ⟨clearing, free⟩ := swept
  cases result with
  | ok _ =>
    refine .inl ⟨c', rfl, clearing.outlook, fun hop => ?_⟩
    have falls := clearing.falls hop
    rwa [Rule.holdings_eq_zero (free () rfl) hop] at falls
  | error e => exact .inr ⟨e, rules, c', rfl, clearing⟩

theorem fireAll_steady (sound : ∀ r ∈ eni.rules, r.Sound) : c.Steady (fireAll (eni, c)).2.2 := by
  have swept := Action.sweep_reaches (R := Context.Steady) (P := Rule.Sound)
    (fun r c sound => (Rule.fire_arrives eni.attributes c sound).1.steady) c sound
  rw [run_fireAll]
  generalize Action.sweep (Rule.fire eni.attributes) (eni.rules, c) = outcome at swept
  obtain ⟨_ | _, rules, c'⟩ := outcome <;> exact swept

theorem destroy_steady : c.Steady (destroy (eni, c)).2.2 := by
  have swept : c.Steady (Action.sweep Rule.destroy (eni.rules, c)).2.2 :=
    Action.sweep_reaches (R := Context.Steady) (P := fun _ => True)
      (fun r c _ => (Rule.destroy_sheds r c).1.steady) c fun _ _ => trivial
  rw [run_destroy]
  generalize Action.sweep Rule.destroy (eni.rules, c) = outcome at swept
  obtain ⟨_ | _, rules, c'⟩ := outcome <;> exact swept

theorem run_update (fields : Fields) :
    update fields (eni, c) =
      match orFail (fields.require UInt64 EniAttributes.primaryField) with
      | .error e => (.error e, eni, c)
      | .ok primary =>
        if primary = eni.attributes.primary ∧ eni.needsRefire = false then (.ok (), eni, c)
        else fireAll (eni.withPrimary primary, c) := by
  unfold update
  simp only [Action.run_bind, Action.run_lift]
  cases orFail (fields.require UInt64 EniAttributes.primaryField) with
  | error e => rfl
  | ok primary =>
    simp only [Action.run_get]
    split <;> rfl

section obliging

variable (obliging : c.Obliging)

include obliging

theorem fireAll_succeeds (sound : ∀ r ∈ eni.rules, r.Sound) : fireAll.Succeeds (eni, c) := by
  have fires : ∀ r c, r.Sound → Context.Obliging c → (Rule.fire eni.attributes).Succeeds (r, c) ∧
      (Rule.fire eni.attributes (r, c)).2.2.Obliging := fun r c sound obliging =>
    ⟨Rule.fire_succeeds eni.attributes obliging sound,
      obliging.steady (Rule.fire_arrives eni.attributes c sound).1.steady
        ((Rule.fire_leads eni.attributes sound).1.mirrored obliging.mirrored)⟩
  obtain ⟨⟨_, swept⟩, -⟩ := Action.sweep_succeeds fires eni.rules c sound obliging
  refine ⟨(), ?_⟩
  rw [run_fireAll]
  generalize Action.sweep (Rule.fire eni.attributes) (eni.rules, c) = outcome at swept
  obtain ⟨result, rules, c'⟩ := outcome
  cases swept
  rfl

theorem destroy_succeeds : destroy.Succeeds (eni, c) := by
  have destroys : ∀ r c, True → Context.Obliging c → Rule.destroy.Succeeds (r, c) ∧
      (Rule.destroy (r, c)).2.2.Obliging := fun r c _ obliging =>
    ⟨Rule.destroy_succeeds obliging r, obliging.steady (Rule.destroy_sheds r c).1.steady
      ((Rule.destroy_leads eni.attributes).1.mirrored obliging.mirrored)⟩
  obtain ⟨⟨_, swept⟩, -⟩ :=
    Action.sweep_succeeds destroys eni.rules c (fun _ _ => trivial) obliging
  refine ⟨(), ?_⟩
  rw [run_destroy]
  generalize Action.sweep Rule.destroy (eni.rules, c) = outcome at swept
  obtain ⟨result, rules, c'⟩ := outcome
  cases swept
  rfl

end obliging

end Eni

end EniForwarding
