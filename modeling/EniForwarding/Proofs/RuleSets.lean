import EniForwarding.Proofs.Hosting

/-! Which rules an ENI has.

The rules of an ENI are laid down when it is declared, by what is known about DPUs and VNIs
then. No operation adds one to them or takes one away but the deletion that takes away the ENI;
what fails half way leaves each of them in its place. What they were laid down from lasts as
long as the ENI: all that is declared about it but the primary.
-/

set_option autoImplicit false

namespace EniForwarding

open Tables

namespace Eni

/-- The rules of the ENI are those that its attributes allow, each kept for its role and under the
name of that role, and none is installed without a next hop. -/
structure Shaped (table : String) (dpus : Dpus) (eni : Eni) : Prop where
  inbound : (eni.rule? .inbound).isSome = true
  outbound : (eni.rule? .outbound).isSome = true ↔ eni.attributes.vni.isSome = true
  inboundTerm : (eni.rule? .inboundTerm).isSome = true ↔
    ∃ id ∈ eni.attributes.endpoints, dpus.HasLocal id
  outboundTerm : (eni.rule? .outboundTerm).isSome = true ↔
    eni.attributes.vni.isSome = true ∧ ∃ id ∈ eni.attributes.endpoints, dpus.HasLocal id
  kept : ∀ r ∈ eni.rules, eni.rule? r.role = some r
  named : ∀ role r, eni.rule? role = some r →
    r.role = role ∧ r.key = eni.attributes.key.ruleKey table role
  led : ∀ r ∈ eni.rules, r.nextHop = none → r.state ≠ .installed

section rules

variable {eni : Eni} {role : Role} {r : Rule} {a : EniAttributes} {dpus : Dpus}

theorem rule?_isSome : (eni.rule? role).isSome = true ↔ role ∈ eni.rules.map Rule.role := by
  simp only [rule?, List.find?_isSome, List.mem_map, beq_iff_eq]

theorem mem_of_rule? (found : eni.rule? role = some r) : r ∈ eni.rules ∧ r.role = role :=
  ⟨List.mem_of_find?_eq_some found, by simpa using List.find?_some found⟩

theorem rule?_of_mem (roles : (eni.rules.map Rule.role).Nodup) (member : r ∈ eni.rules) :
    eni.rule? r.role = some r := by
  obtain ⟨r', found⟩ :=
    Option.isSome_iff_exists.1 (rule?_isSome.2 (List.mem_map_of_mem (f := Rule.role) member))
  obtain ⟨there, same⟩ := mem_of_rule? found
  rw [found, List.inj_on_of_nodup_map roles there member same]

theorem mem_roles : role ∈ roles a dpus ↔
    (role.isTerm = true → ∃ id ∈ a.endpoints, dpus.HasLocal id) ∧
      (role.isOutbound = true → a.vni.isSome = true) := by
  have every : role ∈ Role.all := by cases role <;> decide
  rw [← EniAttributes.localEndpoint_isSome]
  simp [roles, every, Bool.or_eq_true, imp_iff_not_or]

theorem InOrder.shaped {table : String} (inOrder : eni.InOrder dpus) (tidy : eni.Tidy table) :
    eni.Shaped table dpus := by
  have allowed : ∀ role, (eni.rule? role).isSome = true ↔ role ∈ Eni.roles eni.attributes dpus := by
    intro role
    rw [rule?_isSome, inOrder.roles]
  constructor
  case inbound => exact (allowed .inbound).2 (mem_roles.2 ⟨nofun, nofun⟩)
  case outbound => simp [allowed, mem_roles, Role.isTerm, Role.isOutbound]
  case inboundTerm => simp [allowed, mem_roles, Role.isTerm, Role.isOutbound]
  case outboundTerm => simp [allowed, mem_roles, Role.isTerm, Role.isOutbound, and_comm]
  case kept => exact fun r member => rule?_of_mem tidy.roles member
  case named =>
    intro role r found
    obtain ⟨member, rfl⟩ := mem_of_rule? found
    exact ⟨rfl, tidy.keys r member⟩
  case led =>
    intro r member free on
    obtain ⟨hop, leads, -⟩ := tidy.sound r member on
    cases free.symm.trans leads

end rules

section attributes

variable (p : Eni × Context)

theorem fireAll_attributes : (fireAll p).2.1.attributes = p.1.attributes := by
  obtain ⟨eni, c⟩ := p
  rw [run_fireAll]
  rcases Action.sweep (Rule.fire eni.attributes) (eni.rules, c) with ⟨_ | _, _, _⟩ <;> rfl

theorem destroy_attributes : (destroy p).2.1.attributes = p.1.attributes := by
  obtain ⟨eni, c⟩ := p
  rw [run_destroy]
  rcases Action.sweep Rule.destroy (eni.rules, c) with ⟨_ | _, _, _⟩ <;> rfl

theorem update_attributes (fields : Fields) :
    (update fields p).2.1.attributes.lasting = p.1.attributes.lasting := by
  obtain ⟨eni, c⟩ := p
  rw [run_update]
  split
  · rfl
  · split
    · rfl
    · rw [fireAll_attributes]
      rfl

end attributes

end Eni

namespace Reconciler

def Shaped (s : Reconciler) (table : String) : Prop :=
  ∀ key eni, s.enis.get? key = some eni →
    eni.attributes.key = key ∧ eni.Shaped table s.ctx.dpus

theorem Lawful.shaped {s : Reconciler} (lawful : s.Lawful) : s.Shaped s.config.table := by
  intro key eni there
  obtain ⟨named, tidy⟩ := lawful.kept.tidy key eni there
  exact ⟨named, (lawful.inOrder.enis key eni there).2.shaped tidy⟩

/-- The ENI under a key stays there, with all of its attributes but the primary. -/
def Lasts (key : EniKey) (s s' : Reconciler) : Prop :=
  ∀ eni, s.enis.get? key = some eni →
    ∃ eni', s'.enis.get? key = some eni' ∧ eni'.attributes.lasting = eni.attributes.lasting

section lasts

variable {s s' : Reconciler} {key other : EniKey} {eni : Eni}

instance : Std.Refl (Lasts key) := ⟨fun _ eni there => ⟨eni, there, rfl⟩⟩

instance : IsTrans Reconciler (Lasts key) := by
  constructor
  intro s s' s'' first second eni there
  obtain ⟨eni', there', same⟩ := first eni there
  obtain ⟨eni'', there'', same'⟩ := second eni' there'
  exact ⟨eni'', there'', same'.trans same⟩

theorem lasts_of_eq (same : s'.enis = s.enis) : Lasts key s s' :=
  fun eni there => ⟨eni, same ▸ there, rfl⟩

theorem lasts_insert (enis : s'.enis = s.enis.insert other eni)
    (same : ∀ eni', s.enis.get? other = some eni' →
      eni.attributes.lasting = eni'.attributes.lasting) : Lasts key s s' := by
  intro found there
  rw [enis, SortedMap.get?_insert_ite]
  split
  next here => exact ⟨eni, rfl, same found (here ▸ there)⟩
  next => exact ⟨found, there, rfl⟩

theorem lasts_worked (there : s.enis.get? other = some eni) {eni' : Eni}
    (lasting : eni'.attributes.lasting = eni.attributes.lasting)
    (enis : s'.enis = s.enis.insert other eni') : Lasts key s s' := by
  refine lasts_insert enis fun found there' => ?_
  cases there.symm.trans there'
  exact lasting

theorem create_lasts (absent : s.enis.get? other = none) (fresh : Eni) :
    Lasts key s (create other fresh s).2 := by
  have nobody : ∀ (eni : Eni) found, s.enis.get? other = some found →
      eni.attributes.lasting = found.attributes.lasting := by
    intro eni found there
    cases absent.symm.trans there
  rcases create_cases other fresh s with
    ⟨eni, c, -, ends⟩ | ⟨e, eni, c, -, ⟨undone, c', -, ends⟩ | ⟨e', left, c', -, ends⟩⟩ <;>
    rw [ends]
  · exact lasts_insert rfl (nobody eni)
  · exact lasts_of_eq rfl
  · exact lasts_insert rfl (nobody left)

theorem ensureInitialized_lasts (s : Reconciler) : Lasts key s (ensureInitialized s).2 := by
  have calm : Calm s (ensureInitialized s).2 := (ensureInitialized_calm s).1
  exact lasts_of_eq calm.enis

theorem set_lasts (fields : Fields) : Lasts key s (set other fields s).2 := by
  refine set_related (ensureInitialized_lasts s) fun s' ready => ?_
  cases there : s'.enis.get? other with
  | some eni =>
    have lasting := Eni.update_attributes (eni, s'.ctx) fields
    generalize updated : Eni.update fields (eni, s'.ctx) = outcome at lasting
    obtain ⟨result, eni', c⟩ := outcome
    obtain ⟨counter, run⟩ := run_set_known ready there updated
    rw [run]
    exact lasts_worked there lasting rfl
  | none =>
    rw [run_set_new ready there]
    split
    next => exact refl s'
    next eni _ => exact create_lasts there eni

/-- Only a deletion that succeeds takes an ENI away, and only its own. -/
theorem delete_lasts (kept : other = key → (delete other s).1 ≠ .ok ()) :
    Lasts key s (delete other s).2 := by
  cases there : s.enis.get? other with
  | none =>
    rw [run_delete_unknown there]
    exact refl s
  | some eni =>
    have same := Eni.destroy_attributes (eni, s.ctx)
    generalize destroyed : Eni.destroy (eni, s.ctx) = outcome at same
    obtain ⟨result, eni', c⟩ := outcome
    rw [run_delete_known there destroyed] at kept ⊢
    cases result with
    | error e => exact lasts_worked there (congrArg EniAttributes.lasting same) rfl
    | ok _ =>
      have apart : key ≠ other := fun same => kept same.symm rfl
      intro found there'
      exact ⟨found, (SortedMap.get?_erase_ne _ apart).trans there', rfl⟩

theorem act_lasts {deed : Deed} (kept : deed = .delete key → (delete key s).1 ≠ .ok ()) :
    Lasts key s (deed.act s).2 := by
  cases deed with
  | set other fields => exact set_lasts fields
  | delete other =>
    refine delete_lasts fun same => ?_
    subst same
    exact kept rfl

theorem wake_lasts (added : Bool) (other : EniKey) (s : Reconciler) :
    Lasts key s (wake added other s).2 := by
  rcases wake_cases added other s with same | ⟨eni, there, same⟩ <;> rw [same]
  · exact refl s
  · have attributes := Eni.fireAll_attributes (eni, s.ctx)
    exact lasts_worked there (congrArg EniAttributes.lasting attributes) rfl

theorem Beside.lasts (beside : Beside s s') : Lasts key s s' := lasts_of_eq beside.enis

theorem onNeighbor_lasts (u : NeighborUpdate) (s : Reconciler) :
    Lasts key s (onNeighbor u s).2 :=
  onNeighbor_related Beside.lasts wake_lasts u s

/-- Whatever else is done, an ENI lasts until it is deleted. -/
theorem Visits.lasts {requests : List Request} (visits : Visits s requests s')
    (kept : ∀ t, (.delete key, t) ∈ deeds s requests → (delete key t).1 ≠ .ok ()) :
    Lasts key s s' := by
  have surround : ∀ inventory faults rejectsAcl rejectsTunnels (s : Reconciler),
      Lasts key s (s.surround inventory faults rejectsAcl rejectsTunnels) :=
    fun _ _ _ _ s => lasts_of_eq rfl
  refine visits.related Beside.lasts ensureInitialized_lasts onNeighbor_lasts surround ?_
  intro deed t member
  refine act_lasts fun same => ?_
  subst same
  exact kept t member

end lasts

/-- Every ENI has exactly the rules that it should have. It is so in every state that a run goes
through, also in the middle of a pass, and after any write or deletion there, however it ends.
And as long as the ENI is not deleted, its endpoints, its VNI and the direction of its MAC address
are the same, whatever else is asked for. -/
theorem rule_sets_shaped (config : Config) (inventory : Inventory) (requests : List Request)
    {s : Reconciler} (visits : Visits (fresh config inventory) requests s) :
    s.Shaped config.table ∧ (∀ deed : Deed, (deed.act s).2.Shaped config.table) ∧
      ∀ key eni, s.enis.get? key = some eni → ∀ later s', Visits s later s' →
        (∀ t, (.delete key, t) ∈ deeds s later → (delete key t).1 ≠ .ok ()) →
          ∃ eni', s'.enis.get? key = some eni' ∧
            eni'.attributes.endpoints = eni.attributes.endpoints ∧
            eni'.attributes.vni = eni.attributes.vni ∧
            eni'.attributes.macDirection = eni.attributes.macDirection := by
  obtain ⟨lawful, rfl⟩ := visits.lawful
  refine ⟨lawful.shaped, fun deed => ?_, fun key eni there later s' onward kept => ?_⟩
  · obtain ⟨lawful', config⟩ := lawful.act deed
    exact config ▸ lawful'.shaped
  · obtain ⟨eni', there', same⟩ := onward.lasts kept eni there
    exact ⟨eni', there', congrArg (·.endpoints) same, congrArg (·.vni) same,
      congrArg (·.macDirection) same⟩

def sampleWithVni : List Request :=
  [.set sampleEni [("vdpu_ids", "1,4"), ("primary_vdpu", "4"), ("outbound_vni", "7")]]

/-- The switch refuses to delete the rules, and then other things are declared about the ENI. -/
def sampleRedeclared : List Request :=
  [.surroundings twoHosts .none true false, .delete sampleEni,
    .set sampleEni [("vdpu_ids", "9"), ("primary_vdpu", "1"), ("outbound_vni", "8")]]

theorem sample_rule_sets_shaped :
    let s := (fresh {} (twoHosts.resolve firstAddress)).run sampleWithVni
    ∃ eni, s.enis.get? sampleEni = some eni ∧ eni.Shaped "ENI" s.ctx.dpus ∧ eni.rules.length = 4 ∧
      ∃ eni', (s.run sampleRedeclared).enis.get? sampleEni = some eni' ∧
        eni'.attributes.endpoints = [1, 4] ∧ eni'.attributes.vni = some 7 := by
  obtain ⟨shaped, -, lasts⟩ :=
    rule_sets_shaped {} (twoHosts.resolve firstAddress) sampleWithVni (.inl rfl)
  have facts :
      let s := (fresh {} (twoHosts.resolve firstAddress)).run sampleWithVni
      ((s.enis.get? sampleEni).map fun eni => (eni.rules.length, eni.attributes.endpoints,
          eni.attributes.vni)) = some (4, [1, 4], some 7) ∧
        (delete sampleEni (s.handle (.surroundings twoHosts .none true false))).1 ≠ .ok () := by
    decide +kernel
  generalize (fresh {} (twoHosts.resolve firstAddress)).run sampleWithVni = s at shaped lasts facts ⊢
  obtain ⟨declared, refused⟩ := facts
  obtain ⟨eni, there, same⟩ := Option.map_eq_some_iff.1 declared
  simp only [Prod.mk.injEq] at same
  obtain ⟨four, endpoints, vni⟩ := same
  have kept : ∀ t, (.delete sampleEni, t) ∈ deeds s sampleRedeclared →
      (delete sampleEni t).1 ≠ .ok () := by
    intro t member
    simp only [sampleRedeclared, deeds, requestDeeds, List.nil_append, List.append_nil,
      List.singleton_append, List.mem_cons, Prod.mk.injEq, reduceCtorEq, false_and, or_false,
      List.not_mem_nil, true_and] at member
    exact member ▸ refused
  obtain ⟨eni', there', endpoints', vni', -⟩ :=
    lasts sampleEni eni there sampleRedeclared _ (.inl rfl) kept
  exact ⟨eni, there, (shaped sampleEni eni there).2, four, eni', there', endpoints'.trans endpoints,
    vni'.trans vni⟩

end Reconciler

end EniForwarding
