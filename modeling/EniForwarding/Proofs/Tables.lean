import EniForwarding.Proofs.Deeds
import EniForwarding.Proofs.Eni.Detour
import EniForwarding.Proofs.Loading

/-! The tables of the reconciler, and the turns that they take.

Apart from the context that the rules share, a reconciler keeps a table of ENIs, the DPU at
each address, and the ENIs that each DPU hosts. The tables change in few ways, and each
is named here: the DPUs are loaded and watched before the first ENI, an ENI is put there,
fired or removed, and a deletion that fails leaves a spoilt one behind. What holds of the
tables in every run is proved by induction over these turns.
-/

set_option autoImplicit false

namespace EniForwarding

open Relation

structure Tables where
  config : Config
  dpus : Dpus
  enis : SortedMap EniKey Eni
  owners : SortedMap Net.Address UInt64
  hosted : SortedMap UInt64 (SortedSet EniKey)
  initialized : Bool

namespace Reconciler

def tables (s : Reconciler) : Tables :=
  ⟨s.config, s.ctx.dpus, s.enis, s.owners, s.hosted, s.initialized⟩

end Reconciler

namespace Tables

def noteOwner (owners : SortedMap Net.Address UInt64) (dpu : Dpu) : SortedMap Net.Address UInt64 :=
  match dpu.pa with
  | none => owners
  | some ip => owners.insert ip dpu.id

def keep (t : Tables) (key : EniKey) (eni : Eni) : Tables :=
  { t with
    enis := t.enis.insert key eni
    hosted := Reconciler.host t.hosted key (eni.localEndpoint t.dpus) }

def forget (t : Tables) (key : EniKey) : Tables :=
  { t with
    enis := t.enis.erase key
    hosted := (t.hosted.map (·.erase key)).filter fun _ keys => !keys.isEmpty }

inductive Turn : Tables → Tables → Prop
  | load (t : Tables) (rows : List (String × Fields)) (unready : t.initialized = false) :
      Turn t { t with dpus := (Dpus.populate t.dpus rows).2 }
  | watch (t : Tables) (unready : t.initialized = false) :
      Turn t { t with
        owners := t.dpus.locals.foldl noteOwner t.owners
        initialized := true }
  | declare {t : Tables} {key : EniKey} {a : EniAttributes} {table : String} {c c' : Context}
      {eni : Eni} (ready : t.initialized = true) (absent : t.enis.get? key = none)
      (named : a.key = key) (knows : c.dpus = t.dpus)
      (fired : Eni.fireAll (Eni.ofAttributes a t.dpus table, c) = (.ok (), eni, c')) :
      Turn t (t.keep key eni)
  /-- An ENI that could neither be set up nor be taken down again is kept. -/
  | abide {t : Tables} {key : EniKey} {a : EniAttributes} {table : String} {c c' c'' : Context}
      {e e' : Failure} {eni eni' : Eni} (ready : t.initialized = true)
      (absent : t.enis.get? key = none) (named : a.key = key) (knows : c.dpus = t.dpus)
      (failed : Eni.fireAll (Eni.ofAttributes a t.dpus table, c) = (.error e, eni, c'))
      (stuck : Eni.destroy (eni, c') = (.error e', eni', c'')) : Turn t (t.keep key eni')
  | fire {t : Tables} {key : EniKey} {eni : Eni} {primary : UInt64} {c : Context}
      (there : t.enis.get? key = some eni) (sound : ∀ r ∈ eni.rules, r.Sound)
      (knows : c.dpus = t.dpus) :
      Turn t { t with
        enis := t.enis.insert key (Eni.fireAll (eni.withPrimary primary, c)).2.1 }
  | spoil {t : Tables} {key : EniKey} {eni eni' : Eni} {e : Failure} {c c' : Context}
      (there : t.enis.get? key = some eni)
      (stuck : Eni.destroy (eni, c) = (.error e, eni', c')) :
      Turn t { t with enis := t.enis.insert key eni' }
  | remove (t : Tables) (key : EniKey) : Turn t (t.forget key)

abbrev Turns : Tables → Tables → Prop := ReflTransGen Turn

/-- The ENI is among those that a DPU hosts. -/
def Hosts (hosted : SortedMap UInt64 (SortedSet EniKey)) (dpu : UInt64) (key : EniKey) : Prop :=
  ∃ keys, hosted.get? dpu = some keys ∧ keys.contains key = true

section hosts

variable {hosted : SortedMap UInt64 (SortedSet EniKey)} {dpu : UInt64} {key other : EniKey}

theorem hosts_host {endpoint : Option UInt64} :
    Hosts (Reconciler.host hosted key endpoint) dpu other ↔
      Hosts hosted dpu other ∨ endpoint = some dpu ∧ other = key := by
  cases endpoint with
  | none => simp [Reconciler.host]
  | some id =>
    unfold Hosts Reconciler.host
    simp only [SortedMap.get?_insert_ite]
    by_cases same : dpu = id
    · subst same
      cases known : hosted.get? dpu with
      | none =>
        have nothing : (∅ : SortedSet EniKey).contains other = false := rfl
        simp [SortedMap.contains_add, nothing]
      | some keys => simp [SortedMap.contains_add, or_comm]
    · simp [same, Ne.symm same]

theorem hosts_forget :
    Hosts ((hosted.map (·.erase key)).filter fun _ keys => !keys.isEmpty) dpu other ↔
      Hosts hosted dpu other ∧ other ≠ key := by
  have erased : ∀ keys : SortedSet EniKey,
      (keys.erase key).contains other = true ↔ keys.contains other = true ∧ other ≠ key := by
    intro keys
    by_cases same : other = key
    · simp [same, SortedMap.contains]
    · simp [same, SortedMap.contains, SortedMap.get?_erase_ne]
  constructor
  · rintro ⟨keys, found, there⟩
    obtain ⟨found, -⟩ := SortedMap.get?_filter.1 found
    rw [SortedMap.get?_map] at found
    obtain ⟨before, known, rfl⟩ := Option.map_eq_some_iff.1 found
    obtain ⟨there, apart⟩ := (erased before).1 there
    exact ⟨⟨before, known, there⟩, apart⟩
  · rintro ⟨⟨keys, known, there⟩, apart⟩
    have still := (erased keys).2 ⟨there, apart⟩
    refine ⟨keys.erase key, SortedMap.get?_filter.2 ⟨?_, ?_⟩, still⟩
    · rw [SortedMap.get?_map, known]
      rfl
    · simp [SortedMap.isEmpty_of_contains still]

/-- A DPU is listed only with ENIs that it hosts. -/
def Filled (hosted : SortedMap UInt64 (SortedSet EniKey)) : Prop :=
  ∀ dpu keys, hosted.get? dpu = some keys → ∃ key, keys.contains key = true

theorem Filled.host (filled : Filled hosted) (key : EniKey) (endpoint : Option UInt64) :
    Filled (Reconciler.host hosted key endpoint) := by
  cases endpoint with
  | none => exact filled
  | some id =>
    intro dpu keys listed
    rw [Reconciler.host, SortedMap.get?_insert_ite] at listed
    split at listed
    · cases listed
      exact ⟨key, SortedMap.contains_add.2 (.inl rfl)⟩
    · exact filled dpu keys listed

theorem filled_forget :
    Filled ((hosted.map (·.erase key)).filter fun _ keys => !keys.isEmpty) := by
  intro dpu keys listed
  obtain ⟨-, some_left⟩ := SortedMap.get?_filter.1 listed
  by_contra nobody
  have empty : keys.isEmpty = true := by
    refine SortedMap.isEmpty_of_absent fun key => ?_
    by_contra there
    exact nobody ⟨key, Option.isSome_iff_ne_none.2 there⟩
  simp [empty] at some_left

theorem Filled.listed {hosted' : SortedMap UInt64 (SortedSet EniKey)} (filled : Filled hosted)
    (same : ∀ dpu key, Hosts hosted dpu key → Hosts hosted' dpu key) {keys : SortedSet EniKey}
    (listed : hosted.get? dpu = some keys) : ∃ keys', hosted'.get? dpu = some keys' := by
  obtain ⟨key, there⟩ := filled dpu keys listed
  obtain ⟨keys', listed', -⟩ := same dpu key ⟨keys, listed, there⟩
  exact ⟨keys', listed'⟩

/-- The ENIs that each DPU hosts tell the table of them. -/
theorem Filled.ext {hosted' : SortedMap UInt64 (SortedSet EniKey)} (filled : Filled hosted)
    (filled' : Filled hosted') (same : ∀ dpu key, Hosts hosted dpu key ↔ Hosts hosted' dpu key) :
    hosted = hosted' := by
  apply SortedMap.ext_get?
  intro dpu
  cases listed : hosted.get? dpu with
  | none =>
    cases listed' : hosted'.get? dpu with
    | none => rfl
    | some keys' =>
      obtain ⟨keys, there⟩ := filled'.listed (fun dpu key => (same dpu key).2) listed'
      cases listed.symm.trans there
  | some keys =>
    obtain ⟨keys', listed'⟩ := filled.listed (fun dpu key => (same dpu key).1) listed
    have members : ∀ key, keys.contains key = keys'.contains key := by
      intro key
      have agree := same dpu key
      unfold Hosts at agree
      rw [Bool.eq_iff_iff]
      simpa [listed, listed'] using agree
    rw [listed', SortedMap.ext_contains members]

end hosts

end Tables

namespace Eni

/-- The ENI has its rules, and they hold and wait for what they may. -/
structure InOrder (dpus : Dpus) (eni : Eni) : Prop where
  roles : eni.rules.map Rule.role = roles eni.attributes dpus
  bare : Rule.Bare eni.rules
  waits : ∀ r ∈ eni.rules, r.Waits eni.attributes dpus

def Settled (dpus : Dpus) (eni : Eni) : Prop := ∀ r ∈ eni.rules, r.Settled eni.attributes dpus

theorem roles_of_labels {rules rules' : List Rule}
    (labels : rules'.map Rule.label = rules.map Rule.label) :
    rules'.map Rule.role = rules.map Rule.role := by
  have roles := congrArg (List.map Prod.snd) labels
  simpa [Function.comp_def, Rule.label] using roles

section turn

variable {dpus : Dpus} {eni eni' : Eni} {c c' : Context} {result : Except Failure Unit} {e : Failure}

/-- Whatever comes of firing an ENI, afterwards it is in order; and it is settled unless it is to be
fired again. -/
theorem fireAll_inOrder (sound : ∀ r ∈ eni.rules, r.Sound) (knows : c.dpus = dpus)
    (roles_eq : eni.rules.map Rule.role = roles eni.attributes dpus) (bare : Rule.Bare eni.rules)
    (run : fireAll (eni, c) = (result, eni', c')) :
    eni'.attributes = eni.attributes ∧ eni'.InOrder dpus ∧
      (eni'.needsRefire = false → eni'.Settled dpus) ∧ (result = .ok () ∨ eni'.needsRefire = true) := by
  have waits := fireAll_waits eni c sound
  rw [run, knows] at waits
  rcases fireAll_outcome eni c sound with ⟨c', fired, pursuit⟩ | ⟨e, rules, c', fired, pursuit⟩
  · rw [run] at fired
    cases fired
    refine ⟨rfl, ⟨(roles_of_labels pursuit.labels).trans roles_eq, pursuit.bare bare, waits⟩,
      fun _ r member => ?_, .inl rfl⟩
    obtain ⟨before, -, rfl⟩ := List.mem_map.1 member
    exact knows ▸ Rule.aim_settled c.outlook eni.attributes before
  · rw [run] at fired
    cases fired
    refine ⟨rfl, ⟨(roles_of_labels pursuit.labels).trans roles_eq, pursuit.bare bare, waits⟩, ?_,
      .inr rfl⟩
    simp

theorem InOrder.destroy (inOrder : eni.InOrder dpus)
    (stuck : Eni.destroy (eni, c) = (.error e, eni', c')) :
    eni'.attributes = eni.attributes ∧ eni'.needsRefire = eni.needsRefire ∧ eni'.InOrder dpus := by
  rcases destroy_outcome eni c with ⟨c', done, -⟩ | ⟨e, rules, c', failed, clearing⟩
  · rw [stuck] at done
    cases done
  · rw [stuck] at failed
    cases failed
    exact ⟨rfl, rfl, (roles_of_labels clearing.labels).trans inOrder.roles,
      clearing.bare inOrder.bare, clearing.waits _ _ inOrder.waits⟩

end turn

theorem ofAttributes_roles (a : EniAttributes) (dpus : Dpus) (table : String) :
    (ofAttributes a dpus table).rules.map Rule.role = roles a dpus := by
  simp [ofAttributes, Function.comp_def, Rule.ofRole]

end Eni

theorem Dpus.mem_locals {dpus : Dpus} {dpu : Dpu} :
    dpu ∈ dpus.locals ↔ (∃ id, dpus.get? id = some dpu) ∧ dpu.isLocal = true := by
  rw [locals, List.mem_filter]
  constructor
  · exact fun ⟨member, here⟩ => ⟨SortedMap.exists_get?_of_mem_values member, here⟩
  · exact fun ⟨⟨id, found⟩, here⟩ => ⟨SortedMap.mem_values_of_get? found, here⟩

namespace Tables

variable {t t' : Tables}

/-- A DPU is registered under its identifier, and has an address. -/
def Registered (dpus : Dpus) : Prop :=
  ∀ id dpu, dpus.get? id = some dpu → dpu.id = id ∧ dpu.pa.isSome = true

theorem registered_populate {dpus : Dpus} (registered : Registered dpus)
    (rows : List (String × Fields)) : Registered (Dpus.populate dpus rows).2 := by
  unfold Dpus.populate
  induction rows generalizing dpus with
  | nil => exact registered
  | cons row rest ih =>
    refine ih fun id dpu there => ?_
    rcases Dpus.get?_register.1 there with ⟨describes, own⟩ | ⟨-, before⟩
    · exact ⟨own, describes.pa⟩
    · exact registered id dpu before

section owners

variable {dpus : List Dpu} {ip : Net.Address}

theorem owner_of_noted {owners : SortedMap Net.Address UInt64} {id : UInt64}
    (noted : (dpus.foldl noteOwner owners).get? ip = some id) :
    owners.get? ip = some id ∨ ∃ dpu ∈ dpus, dpu.id = id ∧ dpu.pa = some ip := by
  induction dpus generalizing owners with
  | nil => exact .inl noted
  | cons dpu rest ih =>
    rcases ih noted with before | ⟨other, later, same⟩
    · unfold noteOwner at before
      split at before
      next => exact .inl before
      next address pa =>
        rw [SortedMap.get?_insert_ite] at before
        split at before
        next here =>
          cases before
          exact .inr ⟨dpu, List.mem_cons_self, rfl, by rw [pa, here]⟩
        next => exact .inl before
    · exact .inr ⟨other, List.mem_cons_of_mem _ later, same⟩

theorem noted_of_noted {owners : SortedMap Net.Address UInt64} (noted : (owners.get? ip).isSome = true) :
    ((dpus.foldl noteOwner owners).get? ip).isSome = true := by
  induction dpus generalizing owners with
  | nil => exact noted
  | cons dpu rest ih =>
    apply ih
    unfold noteOwner
    split
    · exact noted
    · rw [SortedMap.get?_insert_ite]
      split
      · rfl
      · exact noted

theorem noted_of_mem {dpu : Dpu} (owners : SortedMap Net.Address UInt64) (member : dpu ∈ dpus)
    (pa : dpu.pa = some ip) : ((dpus.foldl noteOwner owners).get? ip).isSome = true := by
  induction dpus generalizing owners with
  | nil => cases member
  | cons first rest ih =>
    rcases List.mem_cons.1 member with rfl | later
    · rw [List.foldl_cons]
      apply noted_of_noted
      simp [noteOwner, pa, SortedMap.get?_insert_self]
    · exact ih (noteOwner owners first) later

end owners

/-- A DPU of this identifier is on the switch and has this address. -/
def Local (dpus : Dpus) (id : UInt64) (ip : Net.Address) : Prop :=
  ∃ dpu, dpus.get? id = some dpu ∧ dpu.isLocal = true ∧ dpu.pa = some ip

/-- The tables agree with each other. -/
structure InOrder (t : Tables) : Prop where
  unready : t.initialized = false → (∀ key, t.enis.get? key = none) ∧ ∀ ip, t.owners.get? ip = none
  registered : Registered t.dpus
  owners : t.initialized = true → ∀ ip, (∀ id, t.owners.get? ip = some id → Local t.dpus id ip) ∧
    ∀ id, Local t.dpus id ip → (t.owners.get? ip).isSome = true
  hosts : ∀ dpu key, Hosts t.hosted dpu key ↔
    ∃ eni, t.enis.get? key = some eni ∧ eni.localEndpoint t.dpus = some dpu
  enis : ∀ key eni, t.enis.get? key = some eni → eni.attributes.key = key ∧ eni.InOrder t.dpus

theorem InOrder.put {key : EniKey} {eni : Eni} {hosted : SortedMap UInt64 (SortedSet EniKey)}
    (inOrder : t.InOrder) (ready : t.initialized = true) (named : eni.attributes.key = key)
    (fits : eni.InOrder t.dpus)
    (hosts : ∀ dpu other, Hosts hosted dpu other ↔
      other ≠ key ∧ Hosts t.hosted dpu other ∨ other = key ∧ eni.localEndpoint t.dpus = some dpu) :
    InOrder { t with enis := t.enis.insert key eni, hosted := hosted } where
  unready unready := by simp [ready] at unready
  registered := inOrder.registered
  owners := inOrder.owners
  hosts dpu other := by
    rw [hosts, SortedMap.get?_insert_ite, inOrder.hosts]
    by_cases same : other = key <;> simp [same]
  enis other found at_other := by
    rw [SortedMap.get?_insert_ite] at at_other
    split at at_other
    next same =>
      cases at_other
      exact ⟨named.trans same.symm, fits⟩
    next => exact inOrder.enis other found at_other

section hosts

variable {key : EniKey} {eni eni' : Eni} (inOrder : t.InOrder)

include inOrder

theorem InOrder.ready (there : t.enis.get? key = some eni) : t.initialized = true := by
  by_contra unready
  simp [(inOrder.unready (by simpa using unready)).1 key] at there

/-- An ENI that is there is hosted by its local endpoint and by no other DPU. -/
theorem InOrder.hosts_iff (there : t.enis.get? key = some eni) (dpu : UInt64) :
    Hosts t.hosted dpu key ↔ eni.localEndpoint t.dpus = some dpu := by
  refine (inOrder.hosts dpu key).trans ⟨?_, fun endpoint => ⟨eni, there, endpoint⟩⟩
  rintro ⟨eni', there', endpoint⟩
  cases there.symm.trans there'
  exact endpoint

theorem InOrder.hosts_keep (absent : t.enis.get? key = none) (dpu : UInt64) (other : EniKey) :
    Hosts (Reconciler.host t.hosted key (eni.localEndpoint t.dpus)) dpu other ↔
      other ≠ key ∧ Hosts t.hosted dpu other ∨
        other = key ∧ eni.localEndpoint t.dpus = some dpu := by
  rw [hosts_host]
  by_cases same : other = key
  · simp [same, inOrder.hosts, absent]
  · simp [same]

theorem InOrder.hosts_same (there : t.enis.get? key = some eni)
    (endpoint : eni'.localEndpoint t.dpus = eni.localEndpoint t.dpus) (dpu : UInt64)
    (other : EniKey) : Hosts t.hosted dpu other ↔
      other ≠ key ∧ Hosts t.hosted dpu other ∨
        other = key ∧ eni'.localEndpoint t.dpus = some dpu := by
  by_cases same : other = key
  · simp [same, inOrder.hosts, there, endpoint]
  · simp [same]

end hosts

section turns

variable (inOrder : t.InOrder)

include inOrder

/-- While there are no ENIs yet, it does not matter which DPUs are known. -/
theorem InOrder.load (rows : List (String × Fields)) (unready : t.initialized = false) :
    InOrder { t with dpus := (Dpus.populate t.dpus rows).2 } := by
  obtain ⟨empty, nobody⟩ := inOrder.unready unready
  constructor
  case unready => exact inOrder.unready
  case registered => exact registered_populate inOrder.registered rows
  case owners => exact fun ready => by simp [unready] at ready
  case hosts =>
    intro dpu key
    rw [inOrder.hosts]
    simp [empty]
  case enis => exact fun key eni there => by simp [empty] at there

theorem InOrder.watch (unready : t.initialized = false) :
    InOrder { t with
      owners := t.dpus.locals.foldl noteOwner t.owners
      initialized := true } where
  unready ready := by cases ready
  registered := inOrder.registered
  owners _ ip := by
    constructor
    · intro id noted
      rcases owner_of_noted noted with before | ⟨dpu, member, rfl, pa⟩
      · simp [(inOrder.unready unready).2] at before
      · obtain ⟨⟨id, found⟩, here⟩ := Dpus.mem_locals.1 member
        obtain ⟨same, -⟩ := inOrder.registered id dpu found
        exact ⟨dpu, same ▸ found, here, pa⟩
    · rintro id ⟨dpu, found, here, pa⟩
      exact noted_of_mem t.owners (Dpus.mem_locals.2 ⟨⟨id, found⟩, here⟩) pa
  hosts := inOrder.hosts
  enis := inOrder.enis

theorem InOrder.remove (key : EniKey) : (t.forget key).InOrder := by
  have left : ∀ other eni, (t.enis.erase key).get? other = some eni ↔
      t.enis.get? other = some eni ∧ other ≠ key := by
    intro other eni
    by_cases same : other = key
    · simp [same]
    · simp [SortedMap.get?_erase_ne _ same, same]
  constructor
  case unready =>
    intro unready
    obtain ⟨empty, nobody⟩ := inOrder.unready unready
    refine ⟨fun other => ?_, nobody⟩
    by_contra there
    obtain ⟨eni, there⟩ := Option.ne_none_iff_exists'.1 there
    simpa [empty] using ((left other eni).1 there).1
  case registered => exact inOrder.registered
  case owners => exact inOrder.owners
  case hosts =>
    intro dpu other
    simp only [forget, hosts_forget, left, inOrder.hosts]
    constructor
    · exact fun ⟨⟨eni, there, here⟩, apart⟩ => ⟨eni, ⟨there, apart⟩, here⟩
    · exact fun ⟨eni, ⟨there, apart⟩, here⟩ => ⟨⟨eni, there, here⟩, apart⟩
  case enis => exact fun other eni there => inOrder.enis other eni ((left other eni).1 there).1

end turns

theorem Turn.inOrder (turn : Turn t t') (inOrder : t.InOrder) : t'.InOrder := by
  cases turn with
  | load rows unready => exact inOrder.load rows unready
  | watch unready => exact inOrder.watch unready
  | @declare key a table c c' eni ready absent named knows fired =>
    have tidy := Eni.ofAttributes_tidy a t.dpus table
    obtain ⟨attributes, fits, -⟩ := Eni.fireAll_inOrder tidy.sound knows
      (Eni.ofAttributes_roles a t.dpus table) (Eni.ofAttributes_new a t.dpus table).bare fired
    have named' : eni.attributes.key = key := by rw [attributes]; exact named
    exact inOrder.put ready named' fits (inOrder.hosts_keep absent)
  | @abide key a table c c' c'' e e' eni eni' ready absent named knows failed stuck =>
    have tidy := Eni.ofAttributes_tidy a t.dpus table
    obtain ⟨attributes, fits, -⟩ := Eni.fireAll_inOrder tidy.sound knows
      (Eni.ofAttributes_roles a t.dpus table) (Eni.ofAttributes_new a t.dpus table).bare failed
    obtain ⟨attributes', -, fits'⟩ := fits.destroy stuck
    have named' : eni'.attributes.key = key := by rw [attributes', attributes]; exact named
    exact inOrder.put ready named' fits' (inOrder.hosts_keep absent)
  | @fire key eni primary c there sound knows =>
    obtain ⟨named, fits⟩ := inOrder.enis key eni there
    generalize run : Eni.fireAll (eni.withPrimary primary, c) = outcome
    obtain ⟨result, eni', c'⟩ := outcome
    have sound' : ∀ r ∈ (eni.withPrimary primary).rules, r.Sound := sound
    obtain ⟨attributes, fits', -⟩ := Eni.fireAll_inOrder sound' knows fits.roles fits.bare run
    have named' : eni'.attributes.key = key := by rw [attributes]; exact named
    refine inOrder.put (inOrder.ready there) named' fits' ?_
    apply inOrder.hosts_same there
    rw [Eni.localEndpoint, attributes]
    rfl
  | @spoil key eni eni' e c c' there stuck =>
    obtain ⟨named, fits⟩ := inOrder.enis key eni there
    obtain ⟨attributes, -, fits'⟩ := fits.destroy stuck
    have named' : eni'.attributes.key = key := by rw [attributes, named]
    refine inOrder.put (inOrder.ready there) named' fits' ?_
    apply inOrder.hosts_same there
    rw [Eni.localEndpoint, attributes]
    rfl
  | remove key => exact inOrder.remove key

theorem Turn.filled (turn : Turn t t') (filled : Filled t.hosted) : Filled t'.hosted := by
  cases turn with
  | load | watch | fire | spoil => exact filled
  | declare | abide => exact filled.host _ _
  | remove key => exact filled_forget

theorem Turns.filled (turns : Turns t t') (filled : Filled t.hosted) : Filled t'.hosted := by
  induction turns with
  | refl => exact filled
  | tail _ turn ih => exact turn.filled ih

theorem Turns.inOrder (turns : Turns t t') (inOrder : t.InOrder) :
    t'.InOrder := by
  induction turns with
  | refl => exact inOrder
  | tail _ turn ih => exact turn.inOrder ih

/-- Nothing changes in the tables that are frozen once all is prepared. -/
theorem Turn.frozen (turn : Turn t t') (ready : t.initialized = true) :
    t'.initialized = true ∧ t'.dpus = t.dpus ∧ t'.owners = t.owners := by
  cases turn with
  | load _ unready | watch unready => simp [ready] at unready
  | declare | abide | fire | spoil | remove => exact ⟨ready, rfl, rfl⟩

theorem Turns.frozen (turns : Turns t t') (ready : t.initialized = true) :
    t'.initialized = true ∧ t'.dpus = t.dpus ∧ t'.owners = t.owners := by
  induction turns with
  | refl => exact ⟨ready, rfl, rfl⟩
  | tail _ turn ih =>
    obtain ⟨ready, dpus, owners⟩ := ih
    obtain ⟨ready', dpus', owners'⟩ := turn.frozen ready
    exact ⟨ready', dpus'.trans dpus, owners'.trans owners⟩

end Tables

end EniForwarding
