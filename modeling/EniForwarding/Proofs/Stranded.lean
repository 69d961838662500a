import EniForwarding.Proofs.TunnelEnds

/-! Next hops that failed rules hold.

A rule fails while it waits and its ENI gets a primary that leads nowhere. It goes without giving
back the next hop that it may have from an earlier firing, one that waited for a neighbor or that
failed where the rule was to be written. Firing never comes back to a failed rule, so the next hop
stays with it, and a tunnel next hop stays in the switch, until the ENI is deleted.

In no other way does a failed rule come by a next hop. A rule that waits has a target, which is
lost only with the primary; and a new rule has nothing to give back.
-/

set_option autoImplicit false

namespace EniForwarding

open Tables

namespace Rule

variable {a : EniAttributes} {dpus : Dpus} {r : Rule} {c : Context} {may : Rule → Prop}

/-- If the rule waits it has a target, and if it has failed it holds a next hop only if it may. -/
structure Relieved (may : Rule → Prop) (a : EniAttributes) (dpus : Dpus) (r : Rule) : Prop where
  aimed : r.state = .pending → ∃ t, target r.role a dpus = .ok t
  excused : r.state = .failed → r.nextHop ≠ none → may r

/-- The rule waits with a next hop, and has no target any more. -/
structure Stuck (a : EniAttributes) (dpus : Dpus) (r : Rule) : Prop where
  waits : r.state = .pending
  holds : r.nextHop ≠ none
  lost : ∃ e, target r.role a dpus = .error e

theorem fire_of_stuck (stuck : r.Stuck a c.dpus) :
    fire a (r, c) = (.ok (), { r with state := .failed }, c) := by
  obtain ⟨waits, -, e, invalid⟩ := stuck
  rw [fire_of_invalid (by simp [waits]) invalid, if_pos waits]

theorem fire_of_ends_failed (sound : r.Sound) (failed : (fire a (r, c)).2.1.state = .failed) :
    r.state = .failed ∧ (fire a (r, c)).2.1 = r ∨
      r.state = .pending ∧ (∃ e, target r.role a c.dpus = .error e) ∧
        (fire a (r, c)).2.1 = { r with state := .failed } := by
  rcases (fire_state_eq_failed_iff a r c sound).1 failed with before | ⟨waits, e, invalid⟩
  · exact .inl ⟨before, by rw [fire_of_failed a c before]⟩
  · refine .inr ⟨waits, ⟨e, invalid⟩, ?_⟩
    rw [fire_of_invalid (by simp [waits]) invalid, if_pos waits]

theorem target_of_fire_waits (waits : (fire a (r, c)).2.1.state = .pending) :
    ∃ t, target r.role a c.dpus = .ok t := by
  by_cases failed : r.state = .failed
  · rw [fire_of_failed a c failed, failed] at waits
    cases waits
  · cases aimed : target r.role a c.dpus with
    | ok t => exact ⟨t, rfl⟩
    | error e =>
      rw [fire_of_invalid failed aimed] at waits
      split at waits
      · cases waits
      next resting => exact absurd waits resting

theorem fire_relieved (sound : r.Sound) (excused : r.state = .failed → r.nextHop ≠ none → may r)
    (stranded : r.Stuck a c.dpus → may { r with state := .failed }) :
    (fire a (r, c)).2.1.Relieved may a c.dpus := by
  have role : (fire a (r, c)).2.1.role = r.role := (fire_arrives a c sound).1.named.2
  refine ⟨fun waits => role ▸ target_of_fire_waits waits, fun failed holds => ?_⟩
  rcases fire_of_ends_failed sound failed with ⟨before, same⟩ | ⟨waits, lost, same⟩
  · rw [same] at holds ⊢
    exact excused before holds
  · rw [same] at holds ⊢
    exact stranded ⟨waits, holds, lost⟩

theorem destroy_of_off (off : r.state ≠ .installed) (c : Context) :
    (destroy (r, c)).2.1 = r ∨ (destroy (r, c)).2.1 = { r with nextHop := none } := by
  simp only [destroy, Action.run_bind, Action.run_get, if_neg off]
  rcases dropNextHop_outcome r c with ⟨e, c', run, -⟩ | ⟨c', run, -⟩
  · exact .inl (by rw [run])
  · exact .inr (by rw [run])

theorem destroy_ne_pending (on : r.state = .installed) (c : Context) :
    (destroy (r, c)).2.1.state ≠ .pending := by
  simp only [destroy, Action.run_bind, Action.run_get, if_pos on]
  rcases uninstall_outcome .resourceDelete r c with ⟨e, c', run, -⟩ | ⟨c', run, -⟩
  · simp [run, on]
  · rw [run]
    dsimp only
    rcases dropNextHop_outcome { r with state := .uninstalled } c' with
      ⟨e, c'', run, -⟩ | ⟨c'', run, -⟩ <;> simp [run]

theorem destroy_relieved (c : Context) (relieved : r.Relieved may a dpus) :
    (destroy (r, c)).2.1.Relieved may a dpus := by
  by_cases on : r.state = .installed
  · have live : (destroy (r, c)).2.1.state ≠ .failed := by
      simp [destroy_state_eq_failed_iff, on]
    exact ⟨fun waits => absurd waits (destroy_ne_pending on c), fun failed => absurd failed live⟩
  · rcases destroy_of_off on c with same | same <;> rw [same]
    · exact relieved
    · exact ⟨relieved.aimed, fun _ holds => absurd rfl holds⟩

end Rule

namespace Eni

variable {eni : Eni} {c : Context} {dpus : Dpus} {may : Rule → Prop}

def Relieved (may : Rule → Prop) (dpus : Dpus) (eni : Eni) : Prop :=
  ∀ r ∈ eni.rules, r.Relieved may eni.attributes dpus

theorem fireAll_relieved (sound : ∀ r ∈ eni.rules, r.Sound)
    (excused : ∀ r ∈ eni.rules, r.state = .failed → r.nextHop ≠ none → may r)
    (stranded : ∀ r ∈ eni.rules, r.Stuck eni.attributes c.dpus → may { r with state := .failed }) :
    (fireAll (eni, c)).2.1.Relieved may c.dpus := by
  intro r' member
  rw [fireAll_attributes]
  obtain ⟨r, among, c', knows, rfl⟩ := (fireAll_turns eni c sound).2 r' member
  exact knows ▸ Rule.fire_relieved (sound r among) (excused r among)
    fun stuck => stranded r among (knows ▸ stuck)

theorem fireAll_strands (sound : ∀ r ∈ eni.rules, r.Sound) {r : Rule} (member : r ∈ eni.rules)
    (stuck : r.Stuck eni.attributes c.dpus) :
    { r with state := .failed } ∈ (fireAll (eni, c)).2.1.rules := by
  obtain ⟨c', knows, among⟩ := (fireAll_turns eni c sound).1 r member
  rwa [Rule.fire_of_stuck (knows ▸ stuck)] at among

theorem fireAll_new_relieved (a : EniAttributes) (table : String) :
    (fireAll (ofAttributes a dpus table, c)).2.1.Relieved may c.dpus := by
  have bare : ∀ r ∈ (ofAttributes a dpus table).rules, r.nextHop = none := by
    intro r member
    obtain ⟨role, -, rfl⟩ := List.mem_map.1 member
    rfl
  exact fireAll_relieved (ofAttributes_tidy a dpus table).sound
    (fun r member _ holds => absurd (bare r member) holds)
    (fun r member stuck => absurd (bare r member) stuck.holds)

theorem destroy_relieved (relieved : eni.Relieved may dpus) (c : Context) :
    (destroy (eni, c)).2.1.Relieved may dpus := by
  intro r' member
  rw [destroy_attributes]
  obtain ⟨r, among, c', rfl⟩ := destroy_turns eni c r' member
  exact Rule.destroy_relieved c' (relieved r among)

end Eni

namespace Reconciler

/-- The fields give the ENI under the key a primary, and with it this rule of the ENI gets stuck. -/
def Strands (key : EniKey) (fields : Fields) (r : Rule) (s : Reconciler) : Prop :=
  ∃ eni primary, s.enis.get? key = some eni ∧ r ∈ eni.rules ∧
    orFail (fields.require UInt64 EniAttributes.primaryField) = .ok primary ∧
    r.Stuck (eni.withPrimary primary).attributes s.ctx.dpus

theorem Strands.waits {key : EniKey} {fields : Fields} {r : Rule} {s : Reconciler}
    (strands : Strands key fields r s) : r.state = .pending := by
  obtain ⟨eni, primary, there, member, required, stuck⟩ := strands
  exact stuck.waits

def Relieved (may : EniKey → Rule → Prop) (s : Reconciler) : Prop :=
  ∀ key eni, s.enis.get? key = some eni → eni.Relieved (may key) s.ctx.dpus

/-- No failed rule is left with a next hop that it may not hold. -/
structure Relieves (may : EniKey → Rule → Prop) (s s' : Reconciler) : Prop where
  advances : Advances s s'
  relieved : s.Lawful → s.Relieved may → s'.Relieved may

section relieves

variable {may : EniKey → Rule → Prop} {s s' : Reconciler} {key : EniKey} {eni : Eni}

instance : Std.Refl (Relieves may) := ⟨fun s => ⟨refl s, fun _ relieved => relieved⟩⟩

instance : IsTrans Reconciler (Relieves may) := by
  constructor
  intro s s' s'' first second
  refine ⟨IsTrans.trans _ _ _ first.advances second.advances, fun lawful relieved => ?_⟩
  exact second.relieved (lawful.advance first.advances).1 (first.relieved lawful relieved)

theorem Relieved.of_eq (relieved : s.Relieved may) (enis : s'.enis = s.enis)
    (dpus : s'.ctx.dpus = s.ctx.dpus) : s'.Relieved may := by
  intro key eni there
  rw [dpus]
  exact relieved key eni (enis ▸ there)

theorem Relieved.insert (relieved : s.Relieved may) (fits : eni.Relieved (may key) s.ctx.dpus)
    (enis : s'.enis = s.enis.insert key eni) (dpus : s'.ctx.dpus = s.ctx.dpus) :
    s'.Relieved may := by
  intro other found there
  rw [enis, SortedMap.get?_insert_ite] at there
  rw [dpus]
  split at there
  next same =>
    cases there
    exact same ▸ fits
  next => exact relieved other found there

theorem Relieved.excused (relieved : s.Relieved may) (there : s.enis.get? key = some eni) :
    ∀ r ∈ eni.rules, r.state = .failed → r.nextHop ≠ none → may key r :=
  fun r member => (relieved key eni there r member).excused

theorem Relieved.not_stuck (relieved : s.Relieved may) (there : s.enis.get? key = some eni)
    {r : Rule} (member : r ∈ eni.rules) : ¬ r.Stuck eni.attributes s.ctx.dpus := by
  rintro ⟨waits, -, e, invalid⟩
  obtain ⟨t, aimed⟩ := (relieved key eni there r member).aimed waits
  cases aimed.symm.trans invalid

theorem Beside.relieves (beside : Beside s s') : Relieves may s s' :=
  ⟨beside.advances, fun _ relieved =>
    relieved.of_eq beside.enis beside.still.1.dpus⟩

theorem ensureInitialized_relieves (s : Reconciler) : Relieves may s (ensureInitialized s).2 := by
  refine ⟨ensureInitialized_advances s, fun lawful relieved => ?_⟩
  cases ready : s.initialized with
  | true => rwa [ensureInitialized_of_ready ready]
  | false =>
    -- before it is prepared there are no ENIs
    have calm : Calm s (ensureInitialized s).2 := (ensureInitialized_calm s).1
    intro key eni there
    rw [calm.enis] at there
    cases ((lawful.inOrder.unready ready).1 key).symm.trans there

theorem surround_relieves (inventory : Inventory) (faults : Faults) (rejectsAcl rejectsTunnels : Bool)
    (s : Reconciler) : Relieves may s (s.surround inventory faults rejectsAcl rejectsTunnels) :=
  ⟨surround_advances inventory faults rejectsAcl rejectsTunnels s, fun _ relieved => relieved⟩

/-- A rule that waits has its target with the present primary, so a neighbor strands nothing. -/
theorem wake_relieves (added : Bool) (key : EniKey) (s : Reconciler) :
    Relieves may s (wake added key s).2 := by
  refine ⟨wake_advances added key s, fun lawful relieved => ?_⟩
  rcases wake_cases added key s with same | ⟨eni, there, same⟩ <;> rw [same]
  · exact relieved
  · have sound := lawful.kept.sound there
    have fits : (Eni.fireAll (eni, s.ctx)).2.1.Relieved (may key) s.ctx.dpus :=
      Eni.fireAll_relieved sound (relieved.excused there)
        fun r member stuck => absurd stuck (relieved.not_stuck there member)
    exact relieved.insert fits rfl (Eni.fireAll_steady eni s.ctx sound).dpus

theorem set_known_relieved (lawful : s.Lawful) (relieved : s.Relieved may)
    (there : s.enis.get? key = some eni) {fields : Fields}
    (allowed : ∀ r, Strands key fields r s → may key { r with state := .failed }) :
    (set key fields s).2.Relieved may := by
  generalize updated : Eni.update fields (eni, s.ctx) = outcome
  obtain ⟨result, eni', c⟩ := outcome
  obtain ⟨counter, run⟩ := run_set_known (lawful.inOrder.ready there) there updated
  rw [run]
  have stays := relieved key eni there
  rw [Eni.run_update] at updated
  split at updated
  next =>
    cases updated
    exact relieved.insert stays rfl rfl
  next primary required =>
    split at updated
    next =>
      cases updated
      exact relieved.insert stays rfl rfl
    next =>
      have sound : ∀ r ∈ (eni.withPrimary primary).rules, r.Sound := (lawful.kept.sound there :)
      have excused : ∀ r ∈ (eni.withPrimary primary).rules,
          r.state = .failed → r.nextHop ≠ none → may key r := (relieved.excused there :)
      have fits := Eni.fireAll_relieved sound excused fun r member stuck =>
        allowed r ⟨eni, primary, there, member, required, stuck⟩
      have dpus := (Eni.fireAll_steady (eni.withPrimary primary) s.ctx sound).dpus
      rw [updated] at fits dpus
      exact relieved.insert fits rfl dpus

theorem create_relieved (relieved : s.Relieved may) (key : EniKey) (a : EniAttributes) :
    (create key (Eni.ofAttributes a s.ctx.dpus s.ctx.table) s).2.Relieved may := by
  have tidy := Eni.ofAttributes_tidy a s.ctx.dpus s.ctx.table
  have dpus := (Eni.fireAll_steady _ s.ctx tidy.sound).dpus
  have fits : (Eni.fireAll (Eni.ofAttributes a s.ctx.dpus s.ctx.table, s.ctx)).2.1.Relieved (may key)
      s.ctx.dpus := Eni.fireAll_new_relieved a s.ctx.table
  rcases create_cases key (Eni.ofAttributes a s.ctx.dpus s.ctx.table) s with
    ⟨eni, c, fired, ends⟩ |
      ⟨e, eni, c, fired, ⟨undone, c', taken, ends⟩ | ⟨e', left, c', stuck, ends⟩⟩ <;>
    rw [fired] at dpus fits <;> rw [ends]
  · exact relieved.insert fits rfl dpus
  · have dpus' := (Eni.destroy_steady eni c).dpus.trans dpus
    rw [taken] at dpus'
    exact relieved.of_eq rfl dpus'
  · have dpus' := (Eni.destroy_steady eni c).dpus.trans dpus
    have fits' := Eni.destroy_relieved fits c
    rw [stuck] at dpus' fits'
    exact relieved.insert fits' rfl dpus'

theorem set_new_relieved (ready : s.initialized = true) (absent : s.enis.get? key = none)
    (relieved : s.Relieved may) (fields : Fields) : (set key fields s).2.Relieved may := by
  rw [run_set_new ready absent]
  split
  next => exact relieved
  next eni declared =>
    obtain ⟨a, -, rfl⟩ := Eni.declare_spec declared
    exact create_relieved relieved key a

theorem set_relieves {fields : Fields}
    (allowed : ∀ r, Strands key fields r s → may key { r with state := .failed }) :
    Relieves may s (set key fields s).2 := by
  refine ⟨set_advances key fields s, fun lawful relieved => ?_⟩
  cases there : s.enis.get? key with
  | some eni => exact set_known_relieved lawful relieved there allowed
  | none =>
    have prepared : (ensureInitialized s).2.Relieved may :=
      (ensureInitialized_relieves s).relieved lawful relieved
    have calm : Calm s (ensureInitialized s).2 := (ensureInitialized_calm s).1
    have absent := (congrArg (·.get? key) calm.enis).trans there
    have ready := ensureInitialized_ready s
    rw [run_set]
    generalize ensureInitialized s = outcome at prepared absent ready
    obtain ⟨_ | _, s'⟩ := outcome
    · exact prepared
    · exact set_new_relieved (ready s' rfl) absent prepared fields

theorem delete_relieves (key : EniKey) (s : Reconciler) : Relieves may s (delete key s).2 := by
  refine ⟨act_advances (.delete key) s, fun lawful relieved => ?_⟩
  cases there : s.enis.get? key with
  | none => rwa [run_delete_unknown there]
  | some eni =>
    have dpus := (Eni.destroy_steady eni s.ctx).dpus
    have left := Eni.destroy_relieved (relieved key eni there) s.ctx
    generalize destroyed : Eni.destroy (eni, s.ctx) = outcome at dpus left
    obtain ⟨result, eni', c⟩ := outcome
    rw [run_delete_known there destroyed]
    cases result with
    | error e => exact relieved.insert left rfl dpus
    | ok _ =>
      intro other found there'
      have there' : (s.enis.erase key).get? other = some found := there'
      have dpus : (forget key { s with ctx := c }).ctx.dpus = s.ctx.dpus := dpus
      rw [SortedMap.get?_erase] at there'
      rw [dpus]
      split at there'
      · cases there'
      · exact relieved other found there'

/-- A next hop is left to a failed rule only where a declaration strands it. -/
theorem Visits.relieves {requests : List Request} (visits : Visits s requests s') :
    Relieves (fun key r => ∃ fields t, (.set key fields, t) ∈ deeds s requests ∧
      Strands key fields { r with state := .pending } t) s s' := by
  refine visits.related Beside.relieves ensureInitialized_relieves
    (onNeighbor_related Beside.relieves wake_relieves) surround_relieves ?_
  rintro (⟨key, fields⟩ | ⟨key⟩) t member
  · refine set_relieves fun r strands => ⟨fields, t, member, ?_⟩
    have waits : r.state = .pending := strands.waits
    have same : ({ r with state := .pending } : Rule) = r := by rw [← waits]
    exact same.symm ▸ strands
  · exact delete_relieves key t

end relieves

section strands

variable {may : EniKey → Rule → Prop} {s : Reconciler} {key : EniKey} {fields : Fields} {r : Rule}

theorem set_strands (lawful : s.Lawful) (relieved : s.Relieved may)
    (strands : Strands key fields r s) :
    HasRule key { r with state := .failed } (set key fields s).2 := by
  obtain ⟨eni, primary, there, member, required, stuck⟩ := strands
  -- the rule is not stuck with the primary that the ENI has, so this is another one
  have other : primary ≠ eni.attributes.primary := by
    rintro rfl
    exact relieved.not_stuck there member stuck
  have sound : ∀ r ∈ (eni.withPrimary primary).rules, r.Sound := (lawful.kept.sound there :)
  have stays := Eni.fireAll_strands sound member stuck
  have updated : Eni.update fields (eni, s.ctx) = Eni.fireAll (eni.withPrimary primary, s.ctx) := by
    rw [Eni.run_update, required]
    exact if_neg fun same => other same.1
  generalize Eni.fireAll (eni.withPrimary primary, s.ctx) = outcome at updated stays
  obtain ⟨result, eni', c⟩ := outcome
  obtain ⟨counter, run⟩ := run_set_known (lawful.inOrder.ready there) there updated
  rw [run]
  exact ⟨eni', SortedMap.get?_insert_self _ _ _, stays⟩

theorem contains_of_held (reachable : World.Reachable (· < UInt32.size) s.world)
    (has : HasRule key r s) {hop : TunnelHop} (held : r.hop? = some hop) :
    s.ctx.env.switch.tunnels.contains hop.render = true := by
  obtain ⟨eni, there, member⟩ := has
  have coherent : s.world.Coherent := reachable.coherent
  have exact_ : s.ctx.Exact := (reachable.counting reachable.countable).exact_
  have mirrored : s.ctx.Mirrored := coherent.mirrored
  have holder : 1 ≤ s.holders hop := List.countP_pos_iff.2
    ⟨r, List.mem_flatMap.2 ⟨eni, SortedMap.mem_values_of_get? there, member⟩, by simp [held]⟩
  have known := (contains_iff_held coherent exact_ hop).2 holder
  have counted : (s.ctx.tunnels.refs? hop).isSome = true := by
    simpa [SortedMap.refs?, SortedMap.contains] using known
  exact (mirrored.contains_iff hop.render).2 ⟨hop, counted, rfl⟩

end strands

/-- A rule that has failed holds a next hop only if a declaration of the run has stranded it, which
gave its ENI a primary that leads nowhere while the rule waited with that next hop; and a tunnel next
hop that it holds is in the switch. Each declaration that strands a rule leaves it so, and it stays
so, whatever else is asked for, as long as nobody asks for the deletion of the ENI. -/
theorem failed_holds_iff_stranded (config : Config) (inventory : Inventory)
    (requests : List Request) {s : Reconciler}
    (visits : Visits (fresh config inventory) requests s) :
    (∀ key r, HasRule key r s → r.state = .failed → r.nextHop ≠ none →
      (∃ fields t, (.set key fields, t) ∈ deeds (fresh config inventory) requests ∧
        Strands key fields { r with state := .pending } t) ∧
      ((∀ n ∈ (fresh config inventory).headcounts requests, n < UInt32.size) →
        ∀ hop, r.hop? = some hop → s.ctx.env.switch.tunnels.contains hop.render = true)) ∧
    ∀ key fields r, Strands key fields r s → ∀ later s', Visits (set key fields s).2 later s' →
      (∀ t, (.delete key, t) ∉ deeds (set key fields s).2 later) →
        HasRule key { r with state := .failed } s' := by
  have relieves := visits.relieves
  have grounded : s.Grounded := (fresh_grounded config inventory).advance relieves.advances
  have relieved := relieves.relieved (fresh_lawful config inventory) fun key eni there => by
    cases there
  constructor
  · rintro key r ⟨eni, there, member⟩ failed holds
    refine ⟨relieved.excused there r member failed holds, fun few hop held => ?_⟩
    exact contains_of_held (visits.reachable few).2 ⟨eni, there, member⟩ held
  · intro key fields r strands later s' onward kept
    have stranded := set_strands grounded.lawful relieved strands
    have idle : StaysIdle key { r with state := .failed } := fun _ _ _ _ _ _ =>
      Rule.idle_of_failed rfl
    have spares := onward.sparesIdle idle kept
    exact (spares.rule (grounded.advance (set_advances key fields s)) stranded).1

def withoutVip : Inventory :=
  ((Inventory.empty.addDpu 1 "local" "10.0.0.1" "20.0.0.1").addDpu 2 "cluster" "10.0.0.2"
    "20.0.0.2").addVnet "Vnet_1000" ⟨some 1234, some "mock_tunnel"⟩

/-- The ENI goes from one DPU to the other, where its rules wait for the VIP. -/
def sampleWithoutVip : List Request :=
  [.set sampleEni [("vdpu_ids", "1,2"), ("primary_vdpu", "1")],
    .set sampleEni [("primary_vdpu", "2")]]

def unknownPrimary : Fields := [("primary_vdpu", "42")]

theorem sample_strands :
    let s := (fresh {} withoutVip).run sampleWithoutVip
    ∃ r, Strands sampleEni unknownPrimary r s ∧ r.role = .outbound ∧
      r.hop? = some ⟨.v4 ⟨20, 0, 0, 2⟩, "mock_tunnel"⟩ := by
  have facts :
      let s := (fresh {} withoutVip).run sampleWithoutVip
      ((s.enis.get? sampleEni).any fun eni => eni.rules.any fun r =>
        decide (r.role = .outbound) && decide (r.state = .pending) &&
          decide (r.hop? = some ⟨.v4 ⟨20, 0, 0, 2⟩, "mock_tunnel"⟩) &&
          !(Rule.target r.role (eni.withPrimary 42).attributes s.ctx.dpus).isOk) = true := by
    decide +kernel
  intro s
  obtain ⟨eni, there, some_rule⟩ := (Option.any_eq_true _ _).1 facts
  obtain ⟨r, member, fits⟩ := List.any_eq_true.1 some_rule
  simp only [Bool.and_eq_true, decide_eq_true_eq, Bool.not_eq_true'] at fits
  obtain ⟨⟨⟨role, waits⟩, held⟩, lost⟩ := fits
  have holds : r.nextHop ≠ none := fun free => by simp [Rule.hop?, free] at held
  have lost : ∃ e, Rule.target r.role (eni.withPrimary 42).attributes s.ctx.dpus = .error e := by
    cases aimed : Rule.target r.role (eni.withPrimary 42).attributes s.ctx.dpus with
    | error e => exact ⟨e, rfl⟩
    | ok t => simp [s, aimed, Except.isOk, Except.toBool] at lost
  exact ⟨r, ⟨eni, 42, there, member, by decide +kernel, waits, holds, lost⟩, role, held⟩

theorem sample_failed_holds :
    let s := (fresh {} withoutVip).run (sampleWithoutVip ++ [.set sampleEni unknownPrimary])
    ∃ r, HasRule sampleEni r s ∧ r.state = .failed ∧
      r.hop? = some ⟨.v4 ⟨20, 0, 0, 2⟩, "mock_tunnel"⟩ ∧
      (∃ fields t, Strands sampleEni fields { r with state := .pending } t) ∧
      s.ctx.env.switch.tunnels.contains "20.0.0.2@mock_tunnel" = true := by
  obtain ⟨r, strands, -, held⟩ := sample_strands
  have few : ∀ n ∈ (fresh {} withoutVip).headcounts
      (sampleWithoutVip ++ [.set sampleEni unknownPrimary]), n < UInt32.size := by
    decide +kernel
  have left := (failed_holds_iff_stranded {} withoutVip sampleWithoutVip (.inl rfl)).2
  have only := (failed_holds_iff_stranded {} withoutVip
    (sampleWithoutVip ++ [.set sampleEni unknownPrimary]) (.inl rfl)).1
  have after : (fresh {} withoutVip).run (sampleWithoutVip ++ [.set sampleEni unknownPrimary]) =
      (set sampleEni unknownPrimary ((fresh {} withoutVip).run sampleWithoutVip)).2 :=
    List.foldl_append
  rw [after] at only ⊢
  generalize (fresh {} withoutVip).run sampleWithoutVip = s at strands left only ⊢
  have has := left sampleEni unknownPrimary r strands [] _ (.inl rfl) (by simp [deeds])
  have holds : r.nextHop ≠ none := fun free => by simp [Rule.hop?, free] at held
  obtain ⟨⟨fields, t, -, stranded⟩, present⟩ := only sampleEni { r with state := .failed } has rfl holds
  exact ⟨{ r with state := .failed }, has, rfl, held, ⟨fields, t, stranded⟩,
    present few ⟨.v4 ⟨20, 0, 0, 2⟩, "mock_tunnel"⟩ held⟩

/-- Nothing but failed rules keeps the tunnel next hop in the switch. -/
theorem failed_rules_keep_tunnel :
    let s := (fresh {} withoutVip).run (sampleWithoutVip ++ [.set sampleEni unknownPrimary])
    s.ctx.env.switch.tunnels.keys = ["20.0.0.2@mock_tunnel"] ∧
      (s.rules.filter fun r => decide (r.hop?.isSome = true)).map Rule.state = [.failed, .failed] := by
  decide +kernel

end Reconciler

end EniForwarding
