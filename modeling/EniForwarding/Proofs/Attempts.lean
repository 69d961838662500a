import EniForwarding.Proofs.Eni.Detour
import EniForwarding.Proofs.Lawful

/-! What becomes of an ENI when something is tried again and again.

An attempt that fails may leave an ENI that is not set up, set up in part, on its way to
another DPU or taken down in part, and the next attempt may take another path. But each
goes on from where the last has stopped: the rules still become what they would have
become, and the tunnel next hops get the users that they would have had.
-/

set_option autoImplicit false

namespace EniForwarding

open Relation Tables

theorem Eni.declare_eq {c c' : Context} (outlook : c'.outlook = c.outlook)
    (table : c'.table = c.table) (key : EniKey) (fields : Fields) :
    declare key fields c' = declare key fields c := by
  have inventory : c'.env.inventory = c.env.inventory := congrArg Outlook.inventory outlook
  have dpus : c'.dpus = c.dpus := congrArg Outlook.dpus outlook
  simp only [declare, inventory, dpus, table]

namespace Reconciler

/-- Calls may be lost or refused from now on; what can be looked up stays. -/
def beset (faults : Faults) (rejectsAcl rejectsTunnels : Bool) (s : Reconciler) : Reconciler :=
  s.surround s.ctx.env.inventory faults rejectsAcl rejectsTunnels

/-- Something is tried again and again, until for the first time it succeeds; in each attempt any
calls may fail, and between two attempts a failure may be recorded. -/
inductive Persists (x : Step Unit) : Reconciler → Reconciler → Prop
  | done {s s' : Reconciler} (faults : Faults) (rejectsAcl rejectsTunnels : Bool)
      (succeeds : x (s.beset faults rejectsAcl rejectsTunnels) = (.ok (), s')) : Persists x s s'
  | again {s s₁ s₂ s' : Reconciler} {e : Failure} (faults : Faults)
      (rejectsAcl rejectsTunnels : Bool)
      (fails : x (s.beset faults rejectsAcl rejectsTunnels) = (.error e, s₁))
      (beside : Beside s₁ s₂) (later : Persists x s₂ s') : Persists x s s'

/-- The same ENIs are there with the same rules, and tunnel next hops have the same users. -/
structure Agree (s t : Reconciler) : Prop where
  enis : t.enis = s.enis
  hosted : t.hosted = s.hosted
  outlook : t.ctx.outlook = s.ctx.outlook
  users : ∀ hop, t.ctx.users hop = s.ctx.users hop

structure Alike (s t : Reconciler) : Prop extends Agree s t where
  config : t.config = s.config
  initialized : t.initialized = s.initialized
  table : t.ctx.table = s.ctx.table

instance : Std.Refl Alike := ⟨fun _ => ⟨⟨rfl, rfl, rfl, fun _ => rfl⟩, rfl, rfl, rfl⟩⟩

instance : IsTrans Reconciler Alike := by
  constructor
  intro s t u first second
  exact ⟨⟨second.enis.trans first.enis, second.hosted.trans first.hosted,
    second.outlook.trans first.outlook, fun hop => (second.users hop).trans (first.users hop)⟩,
    second.config.trans first.config, second.initialized.trans first.initialized,
    second.table.trans first.table⟩

section alike

variable {x : Step Unit} {s s₁ s₂ s' t : Reconciler}

theorem beset_alike (faults : Faults) (rejectsAcl rejectsTunnels : Bool) (s : Reconciler) :
    Alike s (s.beset faults rejectsAcl rejectsTunnels) :=
  ⟨⟨rfl, rfl, rfl, fun _ => rfl⟩, rfl, rfl, rfl⟩

theorem Beside.alike (beside : Beside s t) : Alike s t := by
  obtain ⟨still, table⟩ := beside.still
  exact ⟨⟨beside.enis, beside.hosted, still.outlook, still.users⟩, beside.config,
    beside.initialized, table⟩

/-- What fails at every attempt and leaves all as it was is never done. -/
theorem Persists.not_stuck (persists : Persists x s s') :
    ¬ ∀ t, Alike s t → ∃ e t', x t = (.error e, t') ∧ Alike t t' := by
  induction persists with
  | @done s s' faults acl tunnels succeeds =>
    intro stuck
    obtain ⟨e, t', failed, -⟩ := stuck _ (s.beset_alike faults acl tunnels)
    cases succeeds.symm.trans failed
  | @again s s₁ s₂ s' e faults acl tunnels fails beside later ih =>
    intro stuck
    have tried := s.beset_alike faults acl tunnels
    obtain ⟨e, t', failed, left⟩ := stuck _ tried
    cases fails.symm.trans failed
    have same : Alike s s₂ := IsTrans.trans _ _ _ tried (IsTrans.trans _ _ _ left beside.alike)
    exact ih fun t alike => stuck t (IsTrans.trans _ _ _ same alike)

theorem Persists.of_idle (persists : Persists x s s')
    (idle : ∀ t, Alike s t → ∃ t', x t = (.ok (), t') ∧ Alike t t') : Alike s s' := by
  cases persists with
  | done faults acl tunnels succeeds =>
    have tried := s.beset_alike faults acl tunnels
    obtain ⟨t', done, left⟩ := idle _ tried
    cases succeeds.symm.trans done
    exact IsTrans.trans _ _ _ tried left
  | again faults acl tunnels fails =>
    obtain ⟨t', done, -⟩ := idle _ (s.beset_alike faults acl tunnels)
    cases fails.symm.trans done

theorem Lawful.beset (lawful : s.Lawful) (faults : Faults) (rejectsAcl rejectsTunnels : Bool) :
    (s.beset faults rejectsAcl rejectsTunnels).Lawful :=
  (lawful.advance (s.surround_advances _ faults rejectsAcl rejectsTunnels)).1

theorem Lawful.act (lawful : s.Lawful) (deed : Deed) :
    (deed.act s).2.Lawful ∧ (deed.act s).2.config = s.config :=
  lawful.advance (act_advances deed s)

theorem Lawful.attempt (lawful : s.Lawful) (deed : Deed) {faults : Faults} {acl tunnels : Bool}
    {result : Except Failure Unit} (tried : deed.act (s.beset faults acl tunnels) = (result, s₁)) :
    s₁.Lawful ∧ s₁.config = s.config := by
  have acted := (lawful.beset faults acl tunnels).act deed
  rw [tried] at acted
  exact acted

theorem Lawful.again (lawful : s.Lawful) (deed : Deed) {faults : Faults} {acl tunnels : Bool}
    {e : Failure} (fails : deed.act (s.beset faults acl tunnels) = (.error e, s₁))
    (beside : Beside s₁ s₂) : s₂.Lawful ∧ s₂.config = s.config := by
  obtain ⟨lawful₁, config₁⟩ := lawful.attempt deed fails
  obtain ⟨lawful₂, config₂⟩ := lawful₁.advance beside.advances
  exact ⟨lawful₂, config₂.trans config₁⟩

theorem Persists.lawful {deed : Deed} (persists : Persists deed.act s s') (lawful : s.Lawful) :
    s'.Lawful ∧ s'.config = s.config := by
  induction persists with
  | done faults acl tunnels succeeds => exact lawful.attempt deed succeeds
  | again faults acl tunnels fails beside later ih =>
    obtain ⟨lawful₂, config₂⟩ := lawful.again deed fails beside
    obtain ⟨lawful', config'⟩ := ih lawful₂
    exact ⟨lawful', config'.trans config₂⟩

end alike

section deletion

variable {s s' : Reconciler} {key : EniKey} {eni : Eni}

/-- However often it is tried, a deletion takes away the ENI and all that its rules hold. -/
theorem Persists.deletion (persists : Persists (delete key) s s')
    (there : s.enis.get? key = some eni) :
    s'.enis = s.enis.erase key ∧
      s'.hosted = (s.hosted.map (·.erase key)).filter (fun _ keys => !keys.isEmpty) ∧
      s'.ctx.outlook = s.ctx.outlook ∧
      ∀ hop, s'.ctx.users hop = s.ctx.users hop - Rule.holdings eni.rules hop := by
  -- each attempt goes on with the rules that the last has left
  induction persists generalizing eni with
  | @done s s' faults acl tunnels succeeds =>
    rcases Eni.destroy_outcome eni (s.beset faults acl tunnels).ctx with
      ⟨c, destroyed, outlook, falls⟩ | ⟨e, rules, c, failed, -⟩
    · rw [run_delete_known (s := s.beset faults acl tunnels) there destroyed] at succeeds
      cases succeeds
      exact ⟨rfl, rfl, outlook, fun hop => (falls hop).2⟩
    · rw [run_delete_known (s := s.beset faults acl tunnels) there failed] at succeeds
      cases succeeds
  | @again s s₁ s₂ s' e faults acl tunnels fails beside later ih =>
    have alike := beside.alike
    rcases Eni.destroy_outcome eni (s.beset faults acl tunnels).ctx with
      ⟨c, destroyed, -⟩ | ⟨e, rules, c, failed, clearing⟩
    · rw [run_delete_known (s := s.beset faults acl tunnels) there destroyed] at fails
      cases fails
    · rw [run_delete_known (s := s.beset faults acl tunnels) there failed] at fails
      cases fails
      have left : s₂.enis.get? key = some { eni with rules := rules } := by
        rw [alike.enis]
        exact SortedMap.get?_insert_self _ _ _
      obtain ⟨enis, hosted, outlook, users⟩ := ih left
      refine ⟨?_, ?_, outlook.trans (alike.outlook.trans clearing.outlook), fun hop => ?_⟩
      · rw [enis, alike.enis]
        exact SortedMap.erase_insert _ _ _
      · rw [hosted, alike.hosted]
        rfl
      · have falls : Context.Falls hop (Rule.holdings eni.rules hop) s.ctx
          (Rule.holdings rules hop) c := clearing.falls hop
        have before : s₂.ctx.users hop = c.users hop := alike.users hop
        rw [users, before]
        unfold Context.Falls at falls
        dsimp only
        omega

end deletion

section update

variable {s s' : Reconciler} {key : EniKey} {eni : Eni} {fields : Fields} {primary : UInt64}

theorem update_outcome (kept : s.Kept) (ready : s.initialized = true)
    (there : s.enis.get? key = some eni)
    (required : orFail (fields.require UInt64 EniAttributes.primaryField) = .ok primary)
    (due : ¬ (primary = eni.attributes.primary ∧ eni.needsRefire = false)) :
    (∃ c counter, set key fields s = (.ok (), { s with
        enis := s.enis.insert key ((eni.withPrimary primary).settled s.ctx.outlook)
        ctx := c
        enisUpdated := counter }) ∧
      Rule.Pursuit (eni.withPrimary primary).attributes (eni.rules, s.ctx)
        (((eni.withPrimary primary).settled s.ctx.outlook).rules, c)) ∨
    ∃ e rules c counter, set key fields s = (.error e, { s with
        enis := s.enis.insert key
          { eni.withPrimary primary with rules := rules, needsRefire := true }
        ctx := c
        enisUpdated := counter }) ∧
      Rule.Pursuit (eni.withPrimary primary).attributes (eni.rules, s.ctx) (rules, c) := by
  have updated : Eni.update fields (eni, s.ctx) = Eni.fireAll (eni.withPrimary primary, s.ctx) := by
    rw [Eni.run_update, required]
    exact if_neg due
  have sound : ∀ r ∈ eni.rules, r.Sound := kept.sound there
  rcases Eni.fireAll_outcome (eni.withPrimary primary) s.ctx sound with
    ⟨c, fired, pursuit⟩ | ⟨e, rules, c, failed, pursuit⟩
  · obtain ⟨counter, run⟩ := run_set_known ready there (updated.trans fired)
    exact .inl ⟨c, counter, run, pursuit⟩
  · obtain ⟨counter, run⟩ := run_set_known ready there (updated.trans failed)
    exact .inr ⟨e, rules, c, counter, run, pursuit⟩

/-- However often it is tried, an update gets the rules of the ENI where they aim. -/
theorem Persists.update (persists : Persists (set key fields) s s') (lawful : s.Lawful)
    (ready : s.initialized = true) (there : s.enis.get? key = some eni)
    (required : orFail (fields.require UInt64 EniAttributes.primaryField) = .ok primary)
    (due : ¬ (primary = eni.attributes.primary ∧ eni.needsRefire = false)) :
    s'.enis = s.enis.insert key ((eni.withPrimary primary).settled s.ctx.outlook) ∧
      s'.hosted = s.hosted ∧
      Rule.Pursuit (eni.withPrimary primary).attributes (eni.rules, s.ctx)
        (((eni.withPrimary primary).settled s.ctx.outlook).rules, s'.ctx) := by
  induction persists generalizing eni with
  | @done s s' faults acl tunnels succeeds =>
    rcases update_outcome (lawful.beset faults acl tunnels).kept ready there required due with
      ⟨c, counter, run, pursuit⟩ | ⟨e, rules, c, counter, run, -⟩
    · cases succeeds.symm.trans run
      exact ⟨rfl, rfl, pursuit.of_alike rfl fun _ => rfl⟩
    · cases succeeds.symm.trans run
  | @again s s₁ s₂ s' e faults acl tunnels fails beside later ih =>
    have alike := beside.alike
    rcases update_outcome (lawful.beset faults acl tunnels).kept ready there required due with
      ⟨c, counter, run, -⟩ | ⟨e, rules, c, counter, run, pursuit⟩
    · cases fails.symm.trans run
    · have lawful₂ := (lawful.again (.set key fields) fails beside).1
      cases fails.symm.trans run
      have left : s₂.enis.get? key =
          some { eni.withPrimary primary with rules := rules, needsRefire := true } := by
        rw [alike.enis]
        exact SortedMap.get?_insert_self _ _ _
      -- the ENI has its new primary now, but it is marked
      obtain ⟨enis, hosted, last⟩ := ih lawful₂ (alike.initialized.trans ready) left (by simp)
      have outlook : s₂.ctx.outlook = s.ctx.outlook := alike.outlook.trans pursuit.outlook
      have settles : ((({ eni.withPrimary primary with rules := rules, needsRefire := true } :
          Eni).withPrimary primary).settled s₂.ctx.outlook) =
          (eni.withPrimary primary).settled s.ctx.outlook := by
        rw [outlook, Eni.settled, Eni.settled]
        exact congrArg (Eni.mk _ · false) pursuit.aims
      rw [settles] at enis last
      refine ⟨?_, hosted.trans alike.hosted, ?_⟩
      · rw [enis, alike.enis]
        exact SortedMap.insert_insert _ _ _ _
      · have first := pursuit.of_alike (c := s.ctx) rfl fun _ => rfl
        exact IsTrans.trans _ _ _ first (last.of_alike alike.outlook alike.users)

theorem Persists.required (persists : Persists (set key fields) s s')
    (ready : s.initialized = true) (there : s.enis.get? key = some eni) :
    ∃ primary, orFail (fields.require UInt64 EniAttributes.primaryField) = .ok primary := by
  cases read : orFail (fields.require UInt64 EniAttributes.primaryField) with
  | ok primary => exact ⟨primary, rfl⟩
  | error e =>
    refine absurd (fun t alike => ?_) persists.not_stuck
    have there' : t.enis.get? key = some eni := by rw [alike.enis, there]
    have updated : Eni.update fields (eni, t.ctx) = (.error e, eni, t.ctx) := by
      rw [Eni.run_update, read]
    obtain ⟨counter, run⟩ := run_set_known (alike.initialized.trans ready) there' updated
    rw [SortedMap.insert_of_get? there'] at run
    exact ⟨e, _, run, ⟨⟨rfl, rfl, rfl, fun _ => rfl⟩, rfl, rfl, rfl⟩⟩

theorem Persists.skips (persists : Persists (set key fields) s s') (ready : s.initialized = true)
    (there : s.enis.get? key = some eni)
    (required : orFail (fields.require UInt64 EniAttributes.primaryField) = .ok primary)
    (same : primary = eni.attributes.primary ∧ eni.needsRefire = false) : Alike s s' := by
  refine persists.of_idle fun t alike => ?_
  have there' : t.enis.get? key = some eni := by rw [alike.enis, there]
  have updated : Eni.update fields (eni, t.ctx) = (.ok (), eni, t.ctx) := by
    rw [Eni.run_update, required]
    exact if_pos same
  obtain ⟨counter, run⟩ := run_set_known (alike.initialized.trans ready) there' updated
  rw [SortedMap.insert_of_get? there'] at run
  exact ⟨_, run, ⟨⟨rfl, rfl, rfl, fun _ => rfl⟩, rfl, rfl, rfl⟩⟩

end update

section creation

variable {s s' : Reconciler} {key : EniKey} {eni : Eni} {fields : Fields}

theorem Persists.declared (persists : Persists (set key fields) s s')
    (ready : s.initialized = true) (absent : s.enis.get? key = none) :
    ∃ eni, Eni.declare key fields s.ctx = .ok eni := by
  cases read : Eni.declare key fields s.ctx with
  | ok eni => exact ⟨eni, rfl⟩
  | error e =>
    refine absurd (fun t alike => ?_) persists.not_stuck
    refine ⟨e, t, ?_, refl t⟩
    rw [run_set_new (alike.initialized.trans ready) (by rw [alike.enis, absent]),
      Eni.declare_eq alike.outlook alike.table, read]

theorem create_outcome (key : EniKey) (s : Reconciler) (sound : ∀ r ∈ eni.rules, r.Sound) :
    (∃ c counter, create key eni s = (.ok (), { s with
        enis := s.enis.insert key (eni.settled s.ctx.outlook)
        hosted := host s.hosted key (eni.localEndpoint s.ctx.dpus)
        ctx := c
        enisCreated := counter }) ∧
      Rule.Pursuit eni.attributes (eni.rules, s.ctx) ((eni.settled s.ctx.outlook).rules, c)) ∨
    ∃ e rules c, Rule.Pursuit eni.attributes (eni.rules, s.ctx) (rules, c) ∧
      ((∃ c', create key eni s = (.error e, { s with ctx := c' }) ∧ c'.outlook = c.outlook ∧
          ∀ hop, Context.Falls hop (Rule.holdings rules hop) c 0 c') ∨
        ∃ rules' c', create key eni s = (.error e, { s with
            enis := s.enis.insert key { eni with rules := rules', needsRefire := true }
            hosted := host s.hosted key (eni.localEndpoint s.ctx.dpus)
            ctx := c' }) ∧
          Rule.Clearing (rules, c) (rules', c')) := by
  unfold create
  rcases Eni.fireAll_outcome eni s.ctx sound with
    ⟨c, fired, pursuit⟩ | ⟨e, rules, c, failed, pursuit⟩
  · have dpus : c.dpus = s.ctx.dpus := congrArg Outlook.dpus pursuit.outlook
    simp only [fired, keep, Eni.settled, Eni.localEndpoint, dpus]
    exact .inl ⟨c, _, rfl, pursuit⟩
  · refine .inr ⟨e, rules, c, pursuit, ?_⟩
    rcases Eni.destroy_outcome { eni with rules := rules, needsRefire := true } c with
      ⟨c', destroyed, outlook, falls⟩ | ⟨e', rules', c', stuck, clearing⟩
    · simp only [failed, destroyed]
      exact .inl ⟨c', rfl, outlook, falls⟩
    · have outlook : c'.outlook = s.ctx.outlook := clearing.outlook.trans pursuit.outlook
      have dpus : c'.dpus = s.ctx.dpus := congrArg Outlook.dpus outlook
      simp only [failed, stuck, keep, Eni.localEndpoint, dpus]
      exact .inr ⟨rules', c', rfl, clearing⟩

theorem set_creates (faults : Faults) (acl tunnels : Bool) (ready : s.initialized = true)
    (absent : s.enis.get? key = none) (declared : Eni.declare key fields s.ctx = .ok eni) :
    set key fields (s.beset faults acl tunnels) = create key eni (s.beset faults acl tunnels) := by
  have tried := s.beset_alike faults acl tunnels
  rw [run_set_new (s := s.beset faults acl tunnels) ready absent,
    Eni.declare_eq tried.outlook tried.table, declared]

/-- An ENI that was to be set up, and was left behind, is updated to what it was to become. -/
theorem Persists.takes_over {c c₁ c₂ : Context} {rules rules' : List Rule}
    (persists : Persists (set key fields) s s') (lawful : s.Lawful) (ready : s.initialized = true)
    (left : s.enis.get? key = some { eni with rules := rules', needsRefire := true })
    (required : orFail (fields.require UInt64 EniAttributes.primaryField) = .ok eni.attributes.primary)
    (new : Rule.New eni.rules) (first : Rule.Pursuit eni.attributes (eni.rules, c) (rules, c₁))
    (clearing : Rule.Clearing (rules, c₁) (rules', c₂)) (outlook : s.ctx.outlook = c₂.outlook)
    (users : ∀ hop, s.ctx.users hop = c₂.users hop) :
    s'.enis = s.enis.insert key (eni.settled c.outlook) ∧ s'.hosted = s.hosted ∧
      Rule.Pursuit eni.attributes (eni.rules, c) ((eni.settled c.outlook).rules, s'.ctx) := by
  obtain ⟨enis, hosted, last⟩ := persists.update lawful ready left required (by simp)
  have settles : ((({ eni with rules := rules', needsRefire := true } :
      Eni).withPrimary eni.attributes.primary).settled s.ctx.outlook) = eni.settled c.outlook := by
    rw [outlook, clearing.outlook, first.outlook]
    exact congrArg (Eni.mk _ · false) (first.aims_of_clearing new clearing)
  rw [settles] at enis last
  exact ⟨enis, hosted, first.detour new clearing.outlook clearing.falls
    (clearing.bare (first.bare new.bare)) (last.of_alike outlook users)⟩

/-- However often it is tried, an ENI that is set up gets its rules where they aim, although an
attempt that fails may leave it behind. -/
theorem Persists.creation (persists : Persists (set key fields) s s') (lawful : s.Lawful)
    (ready : s.initialized = true) (absent : s.enis.get? key = none)
    (declared : Eni.declare key fields s.ctx = .ok eni) :
    s'.enis = s.enis.insert key (eni.settled s.ctx.outlook) ∧
      s'.hosted = host s.hosted key (eni.localEndpoint s.ctx.dpus) ∧
      Rule.Pursuit eni.attributes (eni.rules, s.ctx) ((eni.settled s.ctx.outlook).rules, s'.ctx) := by
  have untouched : Rule.New eni.rules ∧ ∀ r ∈ eni.rules, r.Sound := by
    obtain ⟨a, -, rfl⟩ := Eni.declare_spec declared
    exact ⟨Eni.ofAttributes_new _ _ _, (Eni.ofAttributes_tidy _ _ _).sound⟩
  obtain ⟨new, sound⟩ := untouched
  induction persists with
  | @done s s' faults acl tunnels succeeds =>
    rw [set_creates faults acl tunnels ready absent declared] at succeeds
    rcases create_outcome key (s.beset faults acl tunnels) sound with
      ⟨c, counter, run, pursuit⟩ | ⟨e, rules, c, -, ⟨c', run, -⟩ | ⟨rules', c', run, -⟩⟩
    · cases succeeds.symm.trans run
      exact ⟨rfl, rfl, pursuit.of_alike rfl fun _ => rfl⟩
    · cases succeeds.symm.trans run
    · cases succeeds.symm.trans run
  | @again s s₁ s₂ s' e faults acl tunnels fails beside later ih =>
    have alike := beside.alike
    obtain ⟨lawful₂, config₂⟩ := lawful.again (.set key fields) fails beside
    rw [set_creates faults acl tunnels ready absent declared] at fails
    rcases create_outcome key (s.beset faults acl tunnels) sound with
      ⟨c, counter, run, -⟩ | ⟨e, rules, c, pursuit, undone⟩
    · cases fails.symm.trans run
    have first : Rule.Pursuit eni.attributes (eni.rules, s.ctx) (rules, c) :=
      pursuit.of_alike rfl fun _ => rfl
    rcases undone with ⟨c', run, outlook, falls⟩ | ⟨rules', c', run, clearing⟩
    · -- the ENI was forgotten, and is set up anew
      cases fails.symm.trans run
      have outlook₂ : s₂.ctx.outlook = s.ctx.outlook :=
        alike.outlook.trans (outlook.trans first.outlook)
      have table : s₂.ctx.table = s.ctx.table := by
        rw [lawful₂.kept.table, config₂, lawful.kept.table]
      have absent₂ : s₂.enis.get? key = none := by
        rw [alike.enis]
        exact absent
      obtain ⟨enis, hosted, last⟩ := ih lawful₂ (alike.initialized.trans ready) absent₂
        ((Eni.declare_eq outlook₂ table key fields).trans declared)
      have dpus : s₂.ctx.dpus = s.ctx.dpus := congrArg Outlook.dpus outlook₂
      rw [outlook₂] at enis last
      rw [dpus] at hosted
      refine ⟨by rw [enis, alike.enis]; rfl, by rw [hosted, alike.hosted]; rfl, ?_⟩
      refine first.detour new outlook (fun hop => ?_) new.bare (last.of_alike alike.outlook alike.users)
      rw [new.holdings_eq_zero]
      exact falls hop
    · -- the ENI was kept, and is updated
      cases fails.symm.trans run
      have left : s₂.enis.get? key = some { eni with rules := rules', needsRefire := true } := by
        rw [alike.enis]
        exact SortedMap.get?_insert_self _ _ _
      obtain ⟨enis, hosted, last⟩ := later.takes_over lawful₂ (alike.initialized.trans ready) left
        (Eni.require_of_declare declared) new first clearing alike.outlook alike.users
      refine ⟨?_, hosted.trans alike.hosted, last⟩
      rw [enis, alike.enis]
      exact SortedMap.insert_insert _ _ _ _

end creation

end Reconciler

end EniForwarding
