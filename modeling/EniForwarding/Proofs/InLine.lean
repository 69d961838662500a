import EniForwarding.Proofs.Turns

/-! Every ENI has what it asks for.

With an inventory in which everything that ENIs need can be found, and a switch that refuses
nothing, the rules of an ENI are always those that its attributes ask for, each installed and
leading where they say. How the ENI came by them makes no difference: a rule that followed an
earlier primary has become the one that a new ENI with the present primary has.
-/

set_option autoImplicit false

namespace EniForwarding

open Relation Tables

namespace Inventory

def registry (i : Inventory) : Dpus := (Dpus.populate ∅ i.dpuRows).2

def view (i : Inventory) (dpus : Dpus) : Outlook := ⟨dpus, i, i.alias?, i.vip?⟩

/-- The VIP can be read, and every DPU on the switch is reached behind its interface. -/
structure Ample (i : Inventory) : Prop where
  vip : ∃ vip, i.vip? = .ok vip
  hosts : ∀ dpu ∈ i.registry.locals, ∀ ip, dpu.pa = some ip →
    ∃ name, i.alias? ip = some name ∧ i.isResolved ⟨ip, name⟩ = true

/-- A DPU that is registered, with a network address if it is elsewhere in the cluster. -/
def Serves (i : Inventory) (id : UInt64) : Prop :=
  ∃ dpu, i.registry.get? id = some dpu ∧ (dpu.placement = .inCluster → dpu.npu.isSome = true)

instance (i : Inventory) (id : UInt64) : Decidable (i.Serves id) :=
  decidable_of_iff ((i.registry.get? id).any fun dpu =>
    decide (dpu.placement = .inCluster → dpu.npu.isSome = true)) <| by
    rw [Option.any_eq_true]
    exact exists_congr fun dpu => and_congr Iff.rfl decide_eq_true_iff

def ServesAll (i : Inventory) (fields : Fields) : Prop :=
  ∀ fv ∈ fields, fv.1 = EniAttributes.primaryField →
    ∀ id ∈ (FromText.ofText? (Text.trim fv.2) : Option UInt64), i.Serves id

-- At most one number is tried: there is also an instance that would try each one.
instance (i : Inventory) (read : Option UInt64) : Decidable (∀ id ∈ read, i.Serves id) :=
  Option.decidableForallMem read

instance (i : Inventory) (fields : Fields) : Decidable (i.ServesAll fields) :=
  inferInstanceAs (Decidable (∀ fv ∈ fields, _))

def Tunnels (i : Inventory) (vnet : String) : Prop := (i.tunnel? vnet).isSome = true

instance (i : Inventory) (vnet : String) : Decidable (i.Tunnels vnet) :=
  inferInstanceAs (Decidable (_ = true))

end Inventory

variable {i : Inventory}

theorem Inventory.ServesAll.of_require {fields : Fields} {id : UInt64} (serves : i.ServesAll fields)
    (required : orFail (fields.require UInt64 EniAttributes.primaryField) = .ok id) : i.Serves id := by
  cases read : fields.require UInt64 EniAttributes.primaryField with
  | error e =>
    rw [read] at required
    cases required
  | ok value =>
    rw [read] at required
    cases required
    obtain ⟨raw, member, parsed⟩ := Eni.mem_of_require read
    exact serves _ member rfl _ parsed

structure EniAttributes.Served (i : Inventory) (a : EniAttributes) : Prop where
  tunnel : i.Tunnels a.key.vnet
  primary : i.Serves a.primary

/-- The DPU that the rule of a role leads to: the first of the list that is on the switch, if the
rule ends tunnels, and else the primary. -/
def EniAttributes.leader (i : Inventory) (a : EniAttributes) (role : Role) : Option UInt64 :=
  if role.isTerm then a.endpoints.find? i.registry.isLocal else some a.primary

/-- The way there: directly if the DPU is on the switch, and through the tunnel of the VNET if it
is not. -/
def EniAttributes.destination (i : Inventory) (a : EniAttributes) (role : Role) : Option NextHop := do
  let dpu ← i.registry.get? (← a.leader i role)
  match dpu.placement with
  | .onSwitch => dpu.pa.map fun pa => .direct pa true
  | .inCluster => do
    let npu ← dpu.npu
    let tunnel ← i.tunnel? a.key.vnet
    return .tunnelled npu a.key.vnet (some tunnel)

/-- The rules that the attributes of an ENI ask for. -/
def EniAttributes.rules (i : Inventory) (table : String) (a : EniAttributes) : List Rule :=
  (Eni.roles a i.registry).map fun role =>
    ⟨role, a.key.ruleKey table role, .installed, a.destination i role⟩

theorem Inventory.registered_registry (i : Inventory) : Registered i.registry :=
  registered_populate (fun _ _ known => by cases known) i.dpuRows

section destination

variable {a : EniAttributes} {role : Role}

theorem Inventory.Ample.reaches (ample : i.Ample) {id : UInt64} {dpu : Dpu} {ip : Net.Address}
    (known : i.registry.get? id = some dpu) (placed : dpu.placement = .onSwitch)
    (pa : dpu.pa = some ip) : (i.view i.registry).reaches ip = true := by
  have here : dpu ∈ i.registry.locals := Dpus.mem_locals.2 ⟨⟨id, known⟩, by simp [Dpu.isLocal, placed]⟩
  obtain ⟨name, before, resolved⟩ := ample.hosts dpu here ip pa
  simp [Outlook.reaches, Inventory.view, before, resolved]

theorem EniAttributes.Served.dpu (served : a.Served i) (has : role ∈ Eni.roles a i.registry) :
    ∃ id dpu, Rule.targetDpu role a i.registry = .ok id ∧ a.leader i role = some id ∧
      i.registry.get? id = some dpu ∧ (dpu.placement = .inCluster → dpu.npu.isSome = true) := by
  cases term : role.isTerm with
  | false =>
    obtain ⟨dpu, known, npu⟩ := served.primary
    exact ⟨a.primary, dpu, by simp [Rule.targetDpu, term],
      by simp [EniAttributes.leader, term], known, npu⟩
  | true =>
    have first : (a.localEndpoint i.registry).isSome = true := by
      have allowed := (List.mem_filter.1 has).2
      simpa [term] using (Bool.and_eq_true_iff.1 allowed).1
    obtain ⟨id, endpoint⟩ := Option.isSome_iff_exists.1 first
    have here : i.registry.isLocal id = true := List.find?_some endpoint
    obtain ⟨dpu, known, placed⟩ := (Option.any_eq_true _ _).1 here
    refine ⟨id, dpu, by simp [Rule.targetDpu, term, endpoint], ?_, known, fun elsewhere => ?_⟩
    · simpa [EniAttributes.leader, term, EniAttributes.localEndpoint] using endpoint
    · simp [Dpu.isLocal, elsewhere] at placed

theorem EniAttributes.destination_spec (ample : i.Ample) (served : a.Served i)
    (has : role ∈ Eni.roles a i.registry) :
    ∃ t hop, Rule.target role a i.registry = .ok t ∧ a.destination i role = some hop ∧
      (NextHop.toward t.placement t.address a.key.vnet).settled (i.view i.registry) = hop ∧
      hop.isResolved = true := by
  obtain ⟨id, dpu, followed, chosen, known, npu⟩ := served.dpu has
  have destination : a.destination i role =
      match dpu.placement with
      | .onSwitch => dpu.pa.map fun pa => .direct pa true
      | .inCluster => do
        let npu ← dpu.npu
        let tunnel ← i.tunnel? a.key.vnet
        return .tunnelled npu a.key.vnet (some tunnel) := by
    rw [EniAttributes.destination, chosen]
    simp only [Option.bind_eq_bind, Option.bind_some, known]
  rw [destination]
  simp only [Rule.target, followed, bind, Except.bind, known]
  cases placed : dpu.placement with
  | onSwitch =>
    obtain ⟨pa, found⟩ := Option.isSome_iff_exists.1 (i.registered_registry id dpu known).2
    have reached := ample.reaches known placed found
    simp only [found]
    refine ⟨⟨.onSwitch, pa⟩, .direct pa true, rfl, rfl, ?_, rfl⟩
    simp [NextHop.toward, NextHop.settled, reached]
  | inCluster =>
    obtain ⟨address, found⟩ := Option.isSome_iff_exists.1 (npu placed)
    obtain ⟨tunnel, there⟩ := Option.isSome_iff_exists.1 served.tunnel
    simp only [found, there]
    refine ⟨⟨.inCluster, address⟩, .tunnelled address a.key.vnet (some tunnel), rfl, rfl, ?_, rfl⟩
    simp [NextHop.toward, NextHop.settled, Inventory.view, there]

theorem Rule.aim_ofRole_eq (ample : i.Ample) (served : a.Served i)
    (has : role ∈ Eni.roles a i.registry) (key : String) :
    (ofRole role key).aim (i.view i.registry) a =
      ⟨role, key, .installed, a.destination i role⟩ := by
  obtain ⟨t, hop, aimed, there, settles, resolved⟩ := EniAttributes.destination_spec ample served has
  rw [aim_ofRole (o := i.view i.registry) aimed, settles, there]
  simp [arrived, ofRole, resolved]

end destination

theorem EniAttributes.aim_rules (ample : i.Ample) {a : EniAttributes} (served : a.Served i)
    (primary : UInt64) (serves : i.Serves primary) (table : String) :
    (a.rules i table).map (Rule.aim (i.view i.registry) { a with primary := primary }) =
      ({ a with primary := primary } : EniAttributes).rules i table := by
  unfold EniAttributes.rules
  rw [List.map_map]
  have served' : ({ a with primary := primary } : EniAttributes).Served i := ⟨served.tunnel, serves⟩
  -- the primary has no part in what roles there are
  refine List.map_congr_left fun role has => ?_
  obtain ⟨t, -, aimed, -⟩ := EniAttributes.destination_spec ample served has
  obtain ⟨t', -, aimed', -⟩ := EniAttributes.destination_spec ample served' has
  have anew := @Rule.aim_anew (i.view i.registry) a t role (a.key.ruleKey table role)
    { a with primary := primary } t' rfl aimed aimed'
  rw [Rule.aim_ofRole_eq ample served has, Rule.aim_ofRole_eq ample served' has] at anew
  exact anew

/-- The ENI can be served, and its rules are those that it asks for. -/
structure Eni.Answered (i : Inventory) (table : String) (eni : Eni) : Prop where
  served : eni.attributes.Served i
  rules : eni.rules = eni.attributes.rules i table

def Deed.Served (i : Inventory) : Deed → Prop
  | .set key fields => i.Tunnels key.vnet ∧ i.ServesAll fields
  | .delete _ => True

/-- An entry that asks for nothing but that, also if its key cannot be read. -/
def Entry.Served (i : Inventory) (separator : Char) (e : Entry) : Prop :=
  e.isSet = true → (∀ key, EniKey.read separator e.key = .ok key → i.Tunnels key.vnet) ∧
    i.ServesAll e.fields

theorem Entry.Served.merge {separator : Char} {last entry : Entry} (written : last.isSet = true)
    (written' : entry.isSet = true) (served : last.Served i separator)
    (served' : entry.Served i separator) :
    Served i separator { last with fields := last.fields.merge entry.fields } := by
  intro _
  obtain ⟨tunnel, serves⟩ := served written
  refine ⟨tunnel, fun fv member => ?_⟩
  rcases Fields.mem_merge member with older | newer
  · exact serves fv older
  · exact (served' written').2 fv newer

/-- A request under unchanging surroundings that asks for nothing but that. -/
def Request.Served (i : Inventory) (separator : Char) : Request → Prop
  | .enqueue entries => ∀ e ∈ entries, e.Served i separator
  | .set key fields => i.Tunnels key.vnet ∧ i.ServesAll fields
  | .surroundings .. => False
  | .doTask | .delete _ | .prepare | .neighbor _ => True

namespace Reconciler

/-- Every ENI has what it asks for, and nothing stands in the way of the next one. -/
structure InLine (i : Inventory) (s : Reconciler) : Prop where
  kept : s.Kept
  coherent : s.world.Coherent
  willing : s.ctx.Willing
  outlook : s.ctx.outlook = i.view s.ctx.dpus
  dpus : s.ctx.dpus = if s.initialized then i.registry else ∅
  enis : ∀ key eni, s.enis.get? key = some eni → s.initialized = true ∧ eni.Answered i s.config.table

section inLine

variable {s s' : Reconciler} {key : EniKey} {eni : Eni}

theorem InLine.advance (inLine : s.InLine i) (follows : Follows (fun _ => True) s s')
    (steady : s.ctx.Steady s'.ctx) (same : s'.initialized = s.initialized)
    (enis : ∀ key eni, s'.enis.get? key = some eni →
      s.initialized = true ∧ eni.Answered i s.config.table) : s'.InLine i := by
  obtain ⟨kept, config, steps⟩ := follows inLine.kept
  have dpus : s'.ctx.dpus = s.ctx.dpus := steady.dpus
  refine ⟨kept, steps.coherent inLine.coherent, steady.willing inLine.willing, ?_, ?_, ?_⟩
  · rw [steady.outlook, inLine.outlook, dpus]
  · rw [dpus, inLine.dpus, same]
  · rw [same, config]
    exact enis

theorem InLine.advance_put (inLine : s.InLine i) (ready : s.initialized = true)
    (follows : Follows (fun _ => True) s s') (steady : s.ctx.Steady s'.ctx)
    (same : s'.initialized = s.initialized) (enis : s'.enis = s.enis.insert key eni)
    (answered : eni.Answered i s.config.table) : s'.InLine i := by
  refine inLine.advance follows steady same fun other found at_other => ?_
  rw [enis, SortedMap.get?_insert_ite] at at_other
  split at at_other
  · cases at_other
    exact ⟨ready, answered⟩
  · exact inLine.enis other found at_other

theorem InLine.outlook_eq (inLine : s.InLine i) (ready : s.initialized = true) :
    s.ctx.outlook = i.view i.registry := by
  rw [inLine.outlook, inLine.dpus, ready]
  rfl

theorem InLine.obliging (ample : i.Ample) (inLine : s.InLine i) (ready : s.initialized = true) :
    s.ctx.Obliging :=
  ⟨inLine.willing, inLine.coherent.mirrored, by rw [inLine.outlook_eq ready]; exact ample.vip⟩

theorem InLine.fires (ample : i.Ample) (inLine : s.InLine i) (ready : s.initialized = true)
    (eni : Eni) (sound : ∀ r ∈ eni.rules, r.Sound) (served : eni.attributes.Served i)
    (aims : eni.rules.map (Rule.aim (i.view i.registry) eni.attributes) =
      eni.attributes.rules i s.config.table) :
    ∃ eni' c, Eni.fireAll (eni, s.ctx) = (.ok (), eni', c) ∧ s.ctx.Steady c ∧
      eni'.Answered i s.config.table := by
  have outlook := inLine.outlook_eq ready
  obtain ⟨⟨⟩, succeeds⟩ := Eni.fireAll_succeeds eni s.ctx (inLine.obliging ample ready) sound
  have steady := Eni.fireAll_steady eni s.ctx sound
  rcases Eni.fireAll_outcome eni s.ctx sound with ⟨c, fired, -⟩ | ⟨e, rules, c, failed, -⟩
  · rw [fired] at steady
    refine ⟨_, c, fired, steady, served, ?_⟩
    rw [outlook]
    exact aims
  · rw [failed] at succeeds
    cases succeeds

theorem InLine.fires_primary (ample : i.Ample) (inLine : s.InLine i)
    (there : s.enis.get? key = some eni) {primary : UInt64} (serves : i.Serves primary) :
    ∃ eni' c, Eni.fireAll (eni.withPrimary primary, s.ctx) = (.ok (), eni', c) ∧ s.ctx.Steady c ∧
      eni'.Answered i s.config.table := by
  obtain ⟨ready, answered⟩ := inLine.enis key eni there
  have sound := inLine.kept.sound there
  refine inLine.fires ample ready (eni.withPrimary primary) sound
    ⟨answered.served.tunnel, serves⟩ ?_
  have aims := EniAttributes.aim_rules ample answered.served primary serves s.config.table
  rw [← answered.rules] at aims
  exact aims

theorem InLine.beside (beside : Beside s s') (inLine : s.InLine i) : s'.InLine i := by
  have advances : Advances s s' := beside.advances
  refine inLine.advance advances.follows beside.still.1.toSteady beside.initialized
    fun key eni there => ?_
  exact inLine.enis key eni (beside.enis ▸ there)

theorem InLine.prepare (inLine : s.InLine i) :
    (ensureInitialized s).1 = .ok () ∧ (ensureInitialized s).2.InLine i ∧
      (ensureInitialized s).2.initialized = true := by
  cases ready : s.initialized with
  | true =>
    rw [ensureInitialized_of_ready ready]
    exact ⟨rfl, inLine, ready⟩
  | false =>
    have follows : Follows (fun _ => True) s (ensureInitialized s).2 :=
      (ensureInitialized_calm s).1.follows
    rcases ensureInitialized_cases ready with ⟨-, -, -, -, unwilling⟩ | ⟨s', done, steady, tables⟩
    · exact absurd inLine.willing unwilling
    rw [done] at follows ⊢
    obtain ⟨kept, config, steps⟩ := follows inLine.kept
    have nothing : s.ctx.dpus = ∅ := by
      rw [inLine.dpus, ready]
      rfl
    have inventory : s.ctx.env.inventory = i := congrArg Outlook.inventory inLine.outlook
    have loads : s.loaded = i.registry := by
      rw [loaded, nothing, inventory]
      rfl
    have dpus : s'.ctx.dpus = i.registry := (congrArg Tables.dpus tables).trans loads
    have enis : s'.enis = s.enis := congrArg Tables.enis tables
    have initialized : s'.initialized = true := congrArg Tables.initialized tables
    have outlook : s.load.ctx.outlook = { s.ctx.outlook with dpus := s.loaded } := rfl
    refine ⟨rfl, ⟨kept, steps.coherent inLine.coherent, steady.willing (load_willing inLine.willing),
      ?_, ?_, fun key eni there => ?_⟩, initialized⟩
    · rw [steady.outlook, outlook, inLine.outlook, loads, dpus]
      rfl
    · rw [dpus, initialized]
      rfl
    · -- there was no ENI before
      obtain ⟨already, -⟩ := inLine.enis key eni (enis ▸ there)
      simp [ready] at already

theorem InLine.wake (ample : i.Ample) (inLine : s.InLine i) (added : Bool) (key : EniKey) :
    (wake added key s).2.InLine i := by
  have follows : Follows (fun _ => True) s (Reconciler.wake added key s).2 := (wake_leads added key s).1
  cases there : s.enis.get? key with
  | none => rwa [run_wake_unknown added there]
  | some eni =>
    rw [run_wake added there] at follows ⊢
    cases added with
    | false => exact inLine
    | true =>
      obtain ⟨ready, answered⟩ := inLine.enis key eni there
      obtain ⟨eni', c, fired, steady, answered'⟩ :=
        inLine.fires_primary ample there answered.served.primary
      have fired : Eni.fireAll (eni, s.ctx) = (.ok (), eni', c) := fired
      simp only [fired, if_true] at follows ⊢
      exact inLine.advance_put ready follows steady rfl rfl answered'

theorem InLine.onNeighbor (ample : i.Ample) (u : NeighborUpdate) (inLine : s.InLine i) :
    (onNeighbor u s).2.InLine i := by
  rw [run_onNeighbor]
  split
  · exact inLine
  next dpu _ =>
    have counted : ({ s with neighborUpdates := s.neighborUpdates.bump } : Reconciler).InLine i :=
      .beside (s := s) ⟨rfl, rfl, rfl, rfl, rfl, .inl rfl⟩ inLine
    generalize ({ s with neighborUpdates := s.neighborUpdates.bump } : Reconciler) = s₀ at counted
    generalize s.hostedOn dpu = keys
    induction keys generalizing s₀ with
    | nil => exact counted
    | cons key rest ih => exact ih _ (counted.wake ample u.added key)

theorem InLine.update (ample : i.Ample) (inLine : s.InLine i) (there : s.enis.get? key = some eni)
    {fields : Fields} (serves : i.ServesAll fields) : (set key fields s).2.InLine i := by
  obtain ⟨ready, answered⟩ := inLine.enis key eni there
  have follows : Follows (fun _ => True) s (set key fields s).2 :=
    (set_leads key fields trivial).1
  have stays : Eni.update fields (eni, s.ctx) = ((Eni.update fields (eni, s.ctx)).1, eni, s.ctx) ∨
      ∃ primary, i.Serves primary ∧
        Eni.update fields (eni, s.ctx) = Eni.fireAll (eni.withPrimary primary, s.ctx) := by
    rw [Eni.run_update]
    cases required : orFail (fields.require UInt64 EniAttributes.primaryField) with
    | error e => exact .inl rfl
    | ok primary =>
      dsimp only
      split
      · exact .inl rfl
      · exact .inr ⟨primary, serves.of_require required, rfl⟩
  rcases stays with same | ⟨primary, serve, fires⟩
  · obtain ⟨counter, run⟩ := run_set_known ready there same
    rw [run] at follows ⊢
    exact inLine.advance_put ready follows (refl s.ctx) rfl rfl answered
  · obtain ⟨eni', c, fired, steady, answered'⟩ := inLine.fires_primary ample there serve
    obtain ⟨counter, run⟩ := run_set_known ready there (fires.trans fired)
    rw [run] at follows ⊢
    exact inLine.advance_put ready follows steady rfl rfl answered'

theorem InLine.create (ample : i.Ample) (inLine : s.InLine i) (ready : s.initialized = true)
    (absent : s.enis.get? key = none) {fields : Fields} (serves : i.ServesAll fields)
    (tunnel : i.Tunnels key.vnet) : (set key fields s).2.InLine i := by
  have follows : Follows (fun _ => True) s (set key fields s).2 :=
    (set_leads key fields trivial).1
  rw [run_set_new ready absent] at follows ⊢
  split at follows
  next e failed => simpa only [failed] using inLine
  next eni declared =>
    obtain ⟨a, named, rfl⟩ := Eni.declare_spec declared
    have served : a.Served i := ⟨named ▸ tunnel, serves.of_require (Eni.require_of_declare declared)⟩
    have tidy := Eni.ofAttributes_tidy a s.ctx.dpus s.ctx.table
    have aims : (Eni.ofAttributes a s.ctx.dpus s.ctx.table).rules.map
        (Rule.aim (i.view i.registry) a) = a.rules i s.config.table := by
      have dpus : s.ctx.dpus = i.registry := by
        rw [inLine.dpus, ready]
        rfl
      rw [Eni.ofAttributes, List.map_map, dpus, inLine.kept.table]
      exact List.map_congr_left fun role has => Rule.aim_ofRole_eq ample served has _
    obtain ⟨eni', c, fired, steady, answered⟩ := inLine.fires ample ready
      (Eni.ofAttributes a s.ctx.dpus s.ctx.table) tidy.sound served aims
    simp only [Reconciler.create, fired] at follows ⊢
    exact inLine.advance_put ready follows steady rfl rfl answered

theorem InLine.delete (ample : i.Ample) (inLine : s.InLine i) (key : EniKey) :
    (delete key s).2.InLine i := by
  have follows : Follows (fun _ => True) s (Reconciler.delete key s).2 :=
    (delete_leads key s).1
  cases there : s.enis.get? key with
  | none => rwa [run_delete_unknown there]
  | some eni =>
    obtain ⟨ready, -⟩ := inLine.enis key eni there
    obtain ⟨⟨⟩, succeeds⟩ := Eni.destroy_succeeds eni s.ctx (inLine.obliging ample ready)
    have steady := Eni.destroy_steady eni s.ctx
    generalize destroyed : Eni.destroy (eni, s.ctx) = outcome at succeeds steady
    obtain ⟨result, eni', c⟩ := outcome
    cases succeeds
    rw [run_delete_known there destroyed] at follows ⊢
    refine inLine.advance follows steady rfl fun other found at_other => ?_
    by_cases same : other = key
    · have gone : (s.enis.erase key).get? key = none := SortedMap.get?_erase_self _ _
      rw [same] at at_other
      cases gone.symm.trans at_other
    · exact inLine.enis other found ((SortedMap.get?_erase_ne _ same).symm.trans at_other)

theorem InLine.act (ample : i.Ample) (inLine : s.InLine i) {deed : Deed} (served : deed.Served i) :
    (deed.act s).2.InLine i := by
  cases deed with
  | delete key => exact inLine.delete ample key
  | set key fields =>
    obtain ⟨tunnel, serves⟩ := served
    obtain ⟨prepared, inLine', ready⟩ := inLine.prepare
    rw [Deed.act, run_set]
    generalize ensureInitialized s = outcome at prepared inLine' ready
    obtain ⟨result, s'⟩ := outcome
    cases prepared
    show (Reconciler.set key fields s').2.InLine i
    cases there : s'.enis.get? key with
    | some eni => exact InLine.update ample inLine' there serves
    | none => exact InLine.create ample inLine' ready there serves tunnel

end inLine

end Reconciler

end EniForwarding
