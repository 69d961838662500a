import EniForwarding.Proofs.World

/-! What work on an ENI is made of.

The rules of an ENI are worked on one by one, so their moves are steps of the world
whatever other rules there are. Names and roles of the rules stay as they were, and so
do the attributes apart from the primary.
-/

set_option autoImplicit false

namespace EniForwarding

open Relation World

/-- What work on a rule leaves as it is. -/
def Rule.label (r : Rule) : String × Role := (r.key, r.role)

def OwnedRule.all (owner : EniAttributes) (rules : List Rule) : List OwnedRule :=
  rules.map (OwnedRule.mk owner)

section sweep

variable {fits : Nat → Prop} {owner : EniAttributes} {x : Rule.Step Unit} {after : Rule → Prop}

/-- Work on every rule of a list, from the first to the last. -/
theorem sweep_steps
    (leads : ∀ r c, r.Sound → x.Leads (Rule.Moves owner) (r, c) fun _ p => after p.1) :
    ∀ (rules : List Rule) (c : Context), (∀ r ∈ rules, r.Sound) →
      ∃ result rules' c', Action.sweep x (rules, c) = (result, rules', c') ∧
        rules'.map Rule.label = rules.map Rule.label ∧ (∀ r ∈ rules', r.Sound) ∧
        (result = .ok () → ∀ r ∈ rules', after r) ∧
        ∀ rest : Multiset OwnedRule,
          Steps fits ⟨OwnedRule.all owner rules + rest, c⟩ ⟨OwnedRule.all owner rules' + rest, c'⟩ := by
  intro rules
  induction rules with
  | nil =>
    intro c sound
    exact ⟨.ok (), [], c, Action.sweep_nil x c, rfl, sound, by simp, fun rest => .refl⟩
  | cons r rules ih =>
    intro c sound
    obtain ⟨moves, described⟩ := leads r c (sound r List.mem_cons_self)
    generalize worked : x (r, c) = outcome at moves described
    obtain ⟨first, r', c'⟩ := outcome
    obtain ⟨second, rules', c'', swept, labels, sound', final, steps⟩ :=
      ih c' fun r member => sound r (List.mem_cons_of_mem _ member)
    refine ⟨_, _, _, Action.sweep_cons worked swept, ?_, ?_, ?_, ?_⟩
    · have label : r'.label = r.label := Prod.ext moves.fixed.1 moves.fixed.2
      rw [List.map_cons, List.map_cons, label, labels]
    · intro r member
      rcases List.mem_cons.1 member with rfl | later
      · exact moves.sound (sound _ List.mem_cons_self)
      · exact sound' r later
    · intro success r member
      -- no failure is the first one
      cases first with
      | error e => cases success
      | ok _ =>
        rcases List.mem_cons.1 member with rfl | later
        · exact described () rfl
        · exact final success r later
    · intro rest
      -- the rule that has been worked on joins the rest while the others are worked on
      have head : Steps fits _ _ := .of_moves (OwnedRule.all owner rules + rest) moves
      have tail := steps (⟨owner, r'⟩ ::ₘ rest)
      simp only [Multiset.add_cons] at tail
      simp only [OwnedRule.all, List.map_cons, ← Multiset.cons_coe, Multiset.cons_add] at head tail ⊢
      exact head.trans tail

end sweep

namespace Eni

def owned (eni : Eni) : List OwnedRule := OwnedRule.all eni.attributes.lasting eni.rules

/-- The ENI has a rule for a role at most once, under the name that belongs to it, and no
outbound rule without a VNI. -/
structure Tidy (table : String) (eni : Eni) : Prop where
  roles : (eni.rules.map Rule.role).Nodup
  keys : ∀ r ∈ eni.rules, r.key = eni.attributes.key.ruleKey table r.role
  sound : ∀ r ∈ eni.rules, r.Sound
  vni : ∀ r ∈ eni.rules, r.role.isOutbound = true → eni.attributes.vni.isSome = true

theorem Tidy.relabel {table : String} {eni : Eni} {rules : List Rule} (tidy : eni.Tidy table)
    (labels : rules.map Rule.label = eni.rules.map Rule.label) (sound : ∀ r ∈ rules, r.Sound) :
    Tidy table { eni with rules := rules } where
  roles := by
    have roles_of_labels : ∀ rules : List Rule,
        rules.map Rule.role = (rules.map Rule.label).map Prod.snd := fun rules => by
      simp [Rule.label]
    rw [roles_of_labels, labels, ← roles_of_labels]
    exact tidy.roles
  keys r member := by
    obtain ⟨old, there, same⟩ := List.mem_map.1 (labels ▸ List.mem_map_of_mem (f := Rule.label) member)
    obtain ⟨key, role⟩ := Prod.mk.inj same
    rw [← key, ← role]
    exact tidy.keys old there
  sound := sound
  vni r member := by
    obtain ⟨old, there, same⟩ := List.mem_map.1 (labels ▸ List.mem_map_of_mem (f := Rule.label) member)
    rw [← (Prod.mk.inj same).2]
    exact tidy.vni old there

/-- The ENI stays tidy and keeps its lasting attributes, and its rules make steps. -/
def Works (fits : Nat → Prop) (table : String) (p p' : Eni × Context) : Prop :=
  p.1.Tidy table → p'.1.Tidy table ∧ p'.1.attributes.lasting = p.1.attributes.lasting ∧
    ∀ rest : Multiset OwnedRule, World.Steps fits ⟨p.1.owned + rest, p.2⟩ ⟨p'.1.owned + rest, p'.2⟩

variable {fits : Nat → Prop} {table : String}

instance : Std.Refl (Works fits table) := ⟨fun _ tidy => ⟨tidy, rfl, fun _ => .refl⟩⟩

instance : IsTrans (Eni × Context) (Works fits table) := by
  constructor
  intro p q r first second tidy
  obtain ⟨tidy, lasting, steps⟩ := first tidy
  obtain ⟨tidy, lasting', steps'⟩ := second tidy
  exact ⟨tidy, lasting'.trans lasting, fun rest => (steps rest).trans (steps' rest)⟩

theorem onRules_leads (fits : Nat → Prop) (after : Rule → Prop) {x : Rule.Step Unit} (eni : Eni)
    (c : Context)
    (leads : ∀ r c, r.Sound →
      x.Leads (Rule.Moves eni.attributes.lasting) (r, c) fun _ p => after p.1)
    (tidy : eni.Tidy table) :
    ∃ result rules c', onRules x (eni, c) = (result, { eni with rules := rules }, c') ∧
      Works fits table (eni, c) ({ eni with rules := rules }, c') ∧
      (result = .ok () → ∀ r ∈ rules, after r) := by
  obtain ⟨result, rules, c', swept, labels, sound, described, steps⟩ :=
    sweep_steps leads eni.rules c tidy.sound
  refine ⟨result, rules, c', by simp only [onRules, swept], fun tidy => ?_, described⟩
  exact ⟨tidy.relabel labels sound, rfl, steps⟩

theorem fireAll_leads (eni : Eni) (c : Context) :
    fireAll.Leads (Works fits table) (eni, c) fun _ _ => True := by
  refine ⟨fun tidy => ?_, fun _ _ => trivial⟩
  obtain ⟨result, rules, c', run, works, -⟩ := onRules_leads fits (fun _ => True) eni c
    (fun r c sound => Rule.fire_leads eni.attributes sound) tidy
  obtain ⟨tidy, lasting, steps⟩ := works tidy
  -- whether to fire again is nothing that a rule can tell
  have flagged : ∃ result again, fireAll (eni, c) =
      (result, { eni with rules := rules, needsRefire := again }, c') := by
    cases result with
    | ok _ => exact ⟨.ok (), false, by simp only [fireAll, run]⟩
    | error e => exact ⟨.error e, true, by simp only [fireAll, run]⟩
  obtain ⟨result, again, fired⟩ := flagged
  rw [fired]
  exact ⟨⟨tidy.roles, tidy.keys, tidy.sound, tidy.vni⟩, lasting, steps⟩

theorem update_leads (fields : Fields) (eni : Eni) (c : Context) :
    (update fields).Leads (Works fits table) (eni, c) fun _ _ => True := by
  refine .lift_bind fun primary read => .get_bind ?_
  dsimp only
  split
  · exact .pure trivial
  · refine .modify_bind (fun tidy => ?_) (fireAll_leads _ c)
    exact ⟨⟨tidy.roles, tidy.keys, tidy.sound, tidy.vni⟩, rfl, fun _ => .refl⟩

theorem onNeighbor_leads (added : Bool) (eni : Eni) (c : Context) :
    (onNeighbor added).Leads (Works fits table) (eni, c) fun _ _ => True := by
  cases added with
  | false => exact .pure trivial
  | true => exact fireAll_leads eni c

theorem destroy_leads (eni : Eni) (c : Context) :
    destroy.Leads (Works fits table) (eni, c) fun _ p => p.1.rules = [] := by
  have unfolded : destroy (eni, c) = match onRules Rule.destroy (eni, c) with
      | (.ok _, eni, c) => (.ok (), { eni with rules := [] }, c)
      | (.error e, s) => (.error e, s) := by
    unfold destroy
    rw [Action.run_bind]
    rcases onRules Rule.destroy (eni, c) with ⟨_ | _, _⟩ <;> rfl
  constructor
  · intro tidy
    obtain ⟨result, rules, c', run, works, idle⟩ := onRules_leads fits
      (fun r => r.state ≠ .installed ∧ r.hop? = none) eni c
      (fun r c _ => Rule.destroy_leads eni.attributes.lasting) tidy
    obtain ⟨tidy, lasting, steps⟩ := works tidy
    rw [unfolded, run]
    cases result with
    | error e => exact ⟨tidy, lasting, steps⟩
    | ok _ =>
      refine ⟨⟨by simp, by simp, by simp, by simp⟩, lasting, fun rest => (steps rest).trans (.single ?_)⟩
      -- the rules leave, since they are off the switch and hold nothing
      have empty : ((OwnedRule.all eni.attributes.lasting [] : List OwnedRule) :
          Multiset OwnedRule) + rest = rest := by simp [OwnedRule.all]
      rw [owned, owned, empty]
      refine .leave rest c' fun o member => ?_
      obtain ⟨r, there, rfl⟩ := List.mem_map.1 (Multiset.mem_coe.1 member)
      exact idle rfl r there
  · intro a success
    rw [unfolded] at success ⊢
    generalize onRules Rule.destroy (eni, c) = outcome at success ⊢
    obtain ⟨result, eni', c'⟩ := outcome
    cases result with
    | error e => cases success
    | ok _ => rfl

theorem Tidy.distinct {eni : Eni} (tidy : eni.Tidy table) : (eni.rules.map Rule.key).Nodup := by
  -- one ENI has one rule for a role, and the name tells the role
  apply List.Nodup.map_on _ tidy.roles.of_map
  intro r member r' member' same
  rw [tidy.keys r member, tidy.keys r' member'] at same
  exact List.inj_on_of_nodup_map tidy.roles member member' (EniKey.ruleKey_injective same).2

theorem mem_of_require {α : Type} [FromText α] {fields : Fields} {field : String} {value : α}
    (required : fields.require α field = .ok value) :
    ∃ raw, (field, raw) ∈ fields ∧ FromText.ofText? (Text.trim raw) = some value := by
  unfold Fields.require Fields.parse? at required
  cases found : fields.get? field with
  | none => simp [found, bind, Except.bind, throw, throwThe, MonadExceptOf.throw] at required
  | some raw =>
    obtain ⟨⟨name, raw'⟩, there, rfl⟩ := Option.map_eq_some_iff.1 found
    have same : name = field := by simpa using List.find?_some there
    refine ⟨raw', same ▸ List.mem_of_find?_eq_some there, ?_⟩
    cases read : (FromText.ofText? (Text.trim raw') : Option α) with
    | none => simp [found, read, bind, Except.bind] at required
    | some value' =>
      simp only [found, read, bind, Except.bind, pure, Except.pure] at required
      cases required
      rfl

theorem ofFields_spec {key : EniKey} {vni : Option UInt32} {fields : Fields} {a : EniAttributes}
    (read : EniAttributes.ofFields key vni fields = .ok a) :
    a.key = key ∧ fields.require UInt64 EniAttributes.primaryField = .ok a.primary := by
  unfold EniAttributes.ofFields at read
  simp only [bind, Except.bind, pure, Except.pure, throw, throwThe, MonadExceptOf.throw] at read
  split at read
  · cases read
  · split at read
    · cases read
    · cases read
    · split at read
      · cases read
      next primary required =>
        split at read
        · cases read
        · cases read
          exact ⟨rfl, required⟩

section declare

variable {key : EniKey} {fields : Fields} {c : Context} {eni : Eni}

/-- An ENI is declared where its attributes can be read from the entry. -/
theorem declare_eq_map (key : EniKey) (fields : Fields) (c : Context) :
    declare key fields c =
      (orFail (EniAttributes.ofFields key (c.env.inventory.vni? key.vnet) fields)).map
        fun a => ofAttributes a c.dpus c.table := by
  simp only [declare]
  cases orFail (EniAttributes.ofFields key (c.env.inventory.vni? key.vnet) fields) <;> rfl

theorem read_of_declare (declared : declare key fields c = .ok eni) :
    ∃ a, EniAttributes.ofFields key (c.env.inventory.vni? key.vnet) fields = .ok a ∧
      eni = ofAttributes a c.dpus c.table := by
  rw [declare_eq_map] at declared
  cases read : EniAttributes.ofFields key (c.env.inventory.vni? key.vnet) fields with
  | error e =>
    rw [read] at declared
    cases declared
  | ok a =>
    rw [read] at declared
    cases declared
    exact ⟨a, rfl, rfl⟩

theorem unread_of_declare {e : Failure} (failed : declare key fields c = .error e) :
    orFail (EniAttributes.ofFields key (c.env.inventory.vni? key.vnet) fields) = .error e := by
  rw [declare_eq_map] at failed
  cases read : orFail (EniAttributes.ofFields key (c.env.inventory.vni? key.vnet) fields) with
  | error e' =>
    rw [read] at failed
    cases failed
    rfl
  | ok a =>
    rw [read] at failed
    cases failed

theorem declare_spec (declared : declare key fields c = .ok eni) :
    ∃ a : EniAttributes, a.key = key ∧ eni = ofAttributes a c.dpus c.table := by
  obtain ⟨a, read, same⟩ := read_of_declare declared
  exact ⟨a, (ofFields_spec read).1, same⟩

theorem require_of_declare (declared : declare key fields c = .ok eni) :
    orFail (fields.require UInt64 EniAttributes.primaryField) = .ok eni.attributes.primary := by
  obtain ⟨a, read, rfl⟩ := read_of_declare declared
  rw [(ofFields_spec read).2]
  rfl

end declare

theorem ofAttributes_tidy (a : EniAttributes) (dpus : Dpus) (table : String) :
    (ofAttributes a dpus table).Tidy table where
  roles := by
    have every : Role.all.Nodup := by decide
    have roles_eq : (ofAttributes a dpus table).rules.map Rule.role = roles a dpus := by
      simp [ofAttributes, Function.comp_def, Rule.ofRole]
    rw [roles_eq]
    exact every.filter _
  keys r member := by
    obtain ⟨role, -, rfl⟩ := List.mem_map.1 member
    rfl
  sound r member := by
    obtain ⟨role, -, rfl⟩ := List.mem_map.1 member
    exact fun on => by cases on
  vni r member outbound := by
    obtain ⟨role, allowed, rfl⟩ := List.mem_map.1 member
    have allowed := (List.mem_filter.1 allowed).2
    simp only [Rule.ofRole] at outbound
    have known : a.vni.isSome = true := by
      simpa [outbound] using (Bool.and_eq_true_iff.1 allowed).2
    exact known

theorem ofAttributes_untouched {a : EniAttributes} {dpus : Dpus} {table : String} {o : OwnedRule}
    (member : o ∈ (ofAttributes a dpus table).owned) :
    o.rule.state = .pending ∧ o.rule.nextHop = none := by
  obtain ⟨r, there, rfl⟩ := List.mem_map.1 member
  obtain ⟨role, -, rfl⟩ := List.mem_map.1 there
  exact ⟨rfl, rfl⟩

end Eni

end EniForwarding
