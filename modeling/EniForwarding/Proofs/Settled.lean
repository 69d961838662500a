import EniForwarding.Proofs.Happenings
import EniForwarding.Proofs.Isolation

/-! When an unchanged declaration may be skipped.

A declaration that changes nothing about an ENI fires it only if a flag says that the last
firing has failed. So an ENI without the flag should have nothing left to do. That holds
except after a deletion that fails, which gives up rules and does not set the flag. Such a
deletion leaves a mark here until the ENI is declared anew, fired or removed. As long as the
mark stands, the rules that were given up are the only ones that need not be settled.
-/

set_option autoImplicit false

namespace EniForwarding

open Tables

namespace Rule

/-- The rule is off the switch, or has no next hop. -/
def GivenUp (r : Rule) : Prop := r.state = .uninstalled ∨ r.nextHop = none

theorem dropNextHop_eq_or_givenUp (r : Rule) (c : Context) :
    (dropNextHop (r, c)).2.1 = r ∨ (dropNextHop (r, c)).2.1.GivenUp := by
  rcases dropNextHop_outcome r c with ⟨e, c', run, -⟩ | ⟨c', run, -⟩ <;> rw [run]
  · exact .inl rfl
  · exact .inr (.inr rfl)

theorem destroy_eq_or_givenUp (r : Rule) (c : Context) :
    (destroy (r, c)).2.1 = r ∨ (destroy (r, c)).2.1.GivenUp := by
  simp only [destroy, Action.run_bind, Action.run_get]
  split
  · rw [Action.run_bind]
    rcases uninstall_outcome .resourceDelete r c with ⟨e, c', run, -⟩ | ⟨c', run, -⟩ <;> rw [run]
    · exact .inl rfl
    · right
      rcases dropNextHop_eq_or_givenUp { r with state := .uninstalled } c' with same | gone
      · exact .inl (congrArg state same)
      · exact gone
  · exact dropNextHop_eq_or_givenUp r c

end Rule

namespace Eni

/-- Nothing is left to be done, but for rules that have been given up if that is excused. -/
def SettledUnless (excused : Bool) (dpus : Dpus) (eni : Eni) : Prop :=
  ∀ r ∈ eni.rules, r.Settled eni.attributes dpus ∨ excused = true ∧ r.GivenUp

theorem settledUnless_false {dpus : Dpus} {eni : Eni} :
    eni.SettledUnless false dpus ↔ eni.Settled dpus := by
  simp [SettledUnless, Settled]

/-- Whether a declaration fires the ENI: it names another primary, or the last firing has failed. -/
def heeds (fields : Fields) (eni : Eni) : Bool :=
  match orFail (fields.require UInt64 EniAttributes.primaryField) with
  | .error _ => false
  | .ok primary => !decide (primary = eni.attributes.primary ∧ eni.needsRefire = false)

theorem update_cases (fields : Fields) (eni : Eni) (c : Context) :
    eni.heeds fields = false ∧ (update fields (eni, c)).2 = (eni, c) ∨
      ∃ primary, update fields (eni, c) = fireAll (eni.withPrimary primary, c) := by
  rw [run_update, heeds]
  cases orFail (fields.require UInt64 EniAttributes.primaryField) with
  | error e => exact .inl ⟨rfl, rfl⟩
  | ok primary =>
    dsimp only
    split
    next same => exact .inl ⟨by simp [same], rfl⟩
    next => exact .inr ⟨primary, rfl⟩

theorem SettledUnless.destroy {excused : Bool} {dpus : Dpus} {eni eni' : Eni} {c c' : Context}
    {e : Failure} (settled : eni.SettledUnless excused dpus)
    (stuck : Eni.destroy (eni, c) = (.error e, eni', c')) : eni'.SettledUnless true dpus := by
  have turns := destroy_turns eni c
  rw [stuck] at turns
  have same : eni'.attributes = eni.attributes := by
    rw [run_destroy] at stuck
    generalize Action.sweep Rule.destroy (eni.rules, c) = outcome at stuck
    obtain ⟨_ | _, rules, c'⟩ := outcome <;> cases stuck
    rfl
  intro r' member
  obtain ⟨r, among, c₁, rfl⟩ := turns r' member
  rcases Rule.destroy_eq_or_givenUp r c₁ with stays | gone
  · rw [stays, same]
    exact (settled r among).imp_right fun given => ⟨rfl, given.2⟩
  · exact .inr ⟨rfl, gone⟩

end Eni

namespace Reconciler

namespace Happening

def interrupts (key : EniKey) (s : Reconciler) : Happening → Bool
  | .deed (.delete other) => decide (other = key) && !(delete key s).1.isOk
  | _ => false

/-- The ENI is declared, fired or removed. A declaration leaves it alone if it is there with the same
primary and without the flag. -/
def renews (key : EniKey) (s : Reconciler) : Happening → Bool
  | .deed (.delete other) => decide (other = key) && (delete key s).1.isOk
  | .deed (.set other fields) => decide (other = key) && (s.enis.get? key).all (Eni.heeds fields)
  | .news u =>
    u.added && (s.owners.get? u.neighbor.ip).any fun dpu => decide (key ∈ s.hostedOn dpu)

end Happening

/-- The mark that a deletion which fails leaves on an ENI until the ENI is renewed. -/
def mark (key : EniKey) (marked : Bool) (moment : Happening × Reconciler) : Bool :=
  moment.1.interrupts key moment.2 || marked && !moment.1.renews key moment.2

theorem mark_of_ignored {key : EniKey} {marked : Bool} {s : Reconciler} {happening : Happening}
    (intact : happening.interrupts key s = false) (ignored : happening.renews key s = false) :
    mark key marked (happening, s) = marked := by
  simp [mark, intact, ignored]

/-- A deletion of the ENI has failed, and since then it was not declared, fired or removed. -/
def interrupted (key : EniKey) (past : List (Happening × Reconciler)) : Bool :=
  past.foldl (mark key) false

section set

variable {s s' : Reconciler} {key : EniKey} {fields : Fields}

/-- An ENI with the primary that the fields name, not to be fired again. -/
def Entered (fields : Fields) (eni : Eni) : Prop :=
  eni.needsRefire = false ∧
    orFail (fields.require UInt64 EniAttributes.primaryField) = .ok eni.attributes.primary

theorem entered_of_fireAll {eni eni' : Eni} {c c' : Context}
    (fired : Eni.fireAll (eni, c) = (.ok (), eni', c'))
    (named : orFail (fields.require UInt64 EniAttributes.primaryField) = .ok eni.attributes.primary) :
    Entered fields eni' := by
  rw [Eni.run_fireAll] at fired
  generalize Action.sweep (Rule.fire eni.attributes) (eni.rules, c) = outcome at fired
  obtain ⟨_ | _, rules, c₁⟩ := outcome <;> cases fired
  exact ⟨rfl, named⟩

theorem entered_of_update {eni eni' : Eni} {c c' : Context}
    (updated : Eni.update fields (eni, c) = (.ok (), eni', c')) : Entered fields eni' := by
  rw [Eni.run_update] at updated
  split at updated
  next => cases updated
  next primary named =>
    split at updated
    next same =>
      cases updated
      exact ⟨same.2, by rw [named, same.1]⟩
    next => exact entered_of_fireAll updated named

theorem entered_of_set (succeeds : set key fields s = (.ok (), s')) :
    s'.initialized = true ∧ ∃ eni, s'.enis.get? key = some eni ∧ Entered fields eni := by
  have ready := ensureInitialized_ready s
  rw [run_set] at succeeds
  generalize ensureInitialized s = outcome at succeeds ready
  obtain ⟨_ | _, s₁⟩ := outcome
  · cases succeeds
  have ready : s₁.initialized = true := ready s₁ rfl
  have succeeds : set key fields s₁ = (.ok (), s') := succeeds
  cases there : s₁.enis.get? key with
  | some eni =>
    generalize updated : Eni.update fields (eni, s₁.ctx) = outcome
    obtain ⟨result, eni', c⟩ := outcome
    obtain ⟨counter, run⟩ := run_set_known ready there updated
    cases succeeds.symm.trans run
    exact ⟨ready, eni', SortedMap.get?_insert_self _ _ _, entered_of_update updated⟩
  | none =>
    rw [run_set_new ready there] at succeeds
    split at succeeds
    next => cases succeeds
    next eni declared =>
      unfold create at succeeds
      split at succeeds
      next eni' c fired =>
        cases succeeds
        exact ⟨ready, eni', SortedMap.get?_insert_self _ _ _,
          entered_of_fireAll fired (Eni.require_of_declare declared)⟩
      next => split at succeeds <;> cases succeeds

theorem calm_of_set (succeeds : set key fields s = (.ok (), s')) :
    ∃ eni, s'.enis.get? key = some eni ∧ eni.needsRefire = false := by
  obtain ⟨-, eni, there, calm, -⟩ := entered_of_set succeeds
  exact ⟨eni, there, calm⟩

end set

section upToDate

variable {s s' : Reconciler} {key : EniKey} {eni : Eni} {marked : Bool}

/-- If the ENI is there and not to be fired again, it is settled up to what the mark excuses. -/
def UpToDate (key : EniKey) (marked : Bool) (s : Reconciler) : Prop :=
  ∀ eni, s.enis.get? key = some eni → eni.needsRefire = false → eni.SettledUnless marked s.ctx.dpus

theorem upToDate_of_absent (absent : s.enis.get? key = none) : UpToDate key marked s := by
  intro eni there
  cases absent.symm.trans there

theorem upToDate_of_settled (there : s.enis.get? key = some eni)
    (settled : eni.needsRefire = false → eni.Settled s.ctx.dpus) : UpToDate key marked s := by
  intro eni' there' calm r member
  cases there.symm.trans there'
  exact .inl (settled calm r member)

/-- An ENI stays up to date as long as it stays the same. -/
theorem UpToDate.spared (upToDate : UpToDate key marked s) (lawful : s.Lawful)
    (advances : Advances s s') (spared : Spared key s s') : UpToDate key marked s' := by
  intro eni there calm
  have there : s.enis.get? key = some eni := spared ▸ there
  rw [lawful.dpus_eq advances there]
  exact upToDate eni there calm

theorem fire_upToDate {c : Context} (lawful : s.Lawful) (advances : Advances s s')
    (there : s.enis.get? key = some eni) (knows : c.dpus = s.ctx.dpus) (primary : UInt64)
    (fired : s'.enis.get? key = some (Eni.fireAll (eni.withPrimary primary, c)).2.1) :
    UpToDate key marked s' := by
  have fits := (lawful.inOrder.enis key eni there).2
  have sound : ∀ r ∈ eni.rules, r.Sound := lawful.kept.sound there
  have sound : ∀ r ∈ (eni.withPrimary primary).rules, r.Sound := sound
  obtain ⟨-, -, settled, -⟩ :=
    Eni.fireAll_inOrder sound knows fits.roles fits.bare (Prod.ext rfl (Prod.ext rfl rfl))
  exact upToDate_of_settled fired (lawful.dpus_eq advances there ▸ settled)

/-- Whatever comes of setting up an ENI, it is not there, is to be fired again, or is settled. -/
theorem create_upToDate (a : EniAttributes) (absent : s.enis.get? key = none) :
    UpToDate key marked (create key (Eni.ofAttributes a s.ctx.dpus s.ctx.table) s).2 := by
  have tidy := Eni.ofAttributes_tidy a s.ctx.dpus s.ctx.table
  have steady := (Eni.fireAll_steady _ s.ctx tidy.sound).dpus
  have known : ∀ (eni : Eni) (s : Reconciler), (keep key eni s).enis.get? key = some eni :=
    fun eni s => SortedMap.get?_insert_self s.enis key eni
  rcases create_cases key (Eni.ofAttributes a s.ctx.dpus s.ctx.table) s with
    ⟨eni, c, fired, ends⟩ |
      ⟨e, eni, c, fired, ⟨undone, c', taken, ends⟩ | ⟨e', left, c', stuck, ends⟩⟩ <;> rw [ends]
  · obtain ⟨-, -, settled, -⟩ := Eni.fireAll_inOrder tidy.sound rfl
      (Eni.ofAttributes_roles a _ _) (Eni.ofAttributes_new a _ _).bare fired
    rw [fired] at steady
    exact upToDate_of_settled (known eni { s with ctx := c }) (steady ▸ settled)
  · exact upToDate_of_absent absent
  · obtain ⟨-, fits, -, again⟩ := Eni.fireAll_inOrder tidy.sound rfl
      (Eni.ofAttributes_roles a _ _) (Eni.ofAttributes_new a _ _).bare fired
    obtain ⟨-, flag, -⟩ := fits.destroy stuck
    refine upToDate_of_settled (known left { s with ctx := c' }) fun calm => ?_
    -- firing has failed, so the ENI is to be fired again
    rw [flag, again.resolve_left (by simp)] at calm
    cases calm

theorem set_upToDate_of_absent (absent : s.enis.get? key = none) (fields : Fields) :
    UpToDate key marked (set key fields s).2 := by
  have ready := ensureInitialized_ready s
  have calm := (ensureInitialized_calm s).1
  rw [run_set]
  generalize ensureInitialized s = outcome at ready calm
  obtain ⟨_ | _, s'⟩ := outcome
  all_goals
    have absent : s'.enis.get? key = none := by rw [calm.enis, absent]
  · exact upToDate_of_absent absent
  · have same : set key fields s' = _ := run_set_new (ready s' rfl) absent
    dsimp only
    rw [same]
    split
    next => exact upToDate_of_absent absent
    next eni declared =>
      obtain ⟨a, -, rfl⟩ := Eni.declare_spec declared
      exact create_upToDate a absent

theorem set_upToDate (lawful : s.Lawful) (upToDate : UpToDate key marked s) (fields : Fields) :
    UpToDate key (mark key marked (.deed (.set key fields), s)) (set key fields s).2 := by
  cases there : s.enis.get? key with
  | none => exact set_upToDate_of_absent there fields
  | some eni =>
    generalize updated : Eni.update fields (eni, s.ctx) = outcome
    obtain ⟨result, eni', c⟩ := outcome
    obtain ⟨counter, run⟩ := run_set_known (lawful.inOrder.ready there) there updated
    have entered : (set key fields s).2.enis.get? key = some eni' := by
      rw [run]
      exact SortedMap.get?_insert_self _ _ _
    have advances := set_advances key fields s
    rcases Eni.update_cases fields eni s.ctx with ⟨ignored, same⟩ | ⟨primary, fires⟩
    · rw [updated] at same
      cases same
      rw [mark_of_ignored rfl (by simp [Happening.renews, there, ignored])]
      exact upToDate.spared lawful advances (entered.trans there.symm)
    · rw [updated] at fires
      refine fire_upToDate lawful advances there rfl primary ?_
      rw [entered, ← fires]

theorem delete_upToDate (lawful : s.Lawful) (upToDate : UpToDate key marked s) :
    UpToDate key (mark key marked (.deed (.delete key), s)) (delete key s).2 := by
  cases there : s.enis.get? key with
  | none =>
    rw [run_delete_unknown there]
    exact upToDate_of_absent there
  | some eni =>
    generalize destroyed : Eni.destroy (eni, s.ctx) = outcome
    obtain ⟨result, eni', c⟩ := outcome
    have run := run_delete_known there destroyed
    cases result with
    | ok _ =>
      rw [run]
      exact upToDate_of_absent (SortedMap.get?_erase_self _ _)
    | error e =>
      have fails : (delete key s).1.isOk = false := by rw [run]; rfl
      have marks : mark key marked (.deed (.delete key), s) = true := by
        simp [mark, Happening.interrupts, fails]
      rw [marks]
      intro eni'' there' calm
      rw [run] at there'
      cases (SortedMap.get?_insert_self s.enis key eni').symm.trans there'
      rw [lawful.dpus_eq (delete_advances key s) there]
      have flag : eni'.needsRefire = eni.needsRefire :=
        ((lawful.inOrder.enis key eni there).2.destroy destroyed).2.1
      exact (upToDate eni there (flag ▸ calm)).destroy destroyed

/-- News fires the ENI under a key, or leaves it as it is. -/
theorem news_cases (lawful : s.Lawful) (key : EniKey) (u : NeighborUpdate) :
    Happening.renews key s (.news u) = false ∧ Spared key s (onNeighbor u s).2 ∨
      ∃ eni c, s.enis.get? key = some eni ∧ c.dpus = s.ctx.dpus ∧
        (onNeighbor u s).2.enis.get? key = some (Eni.fireAll (eni, c)).2.1 := by
  obtain ⟨⟨ip, name⟩, added⟩ := u
  cases owned : s.owners.get? ip with
  | none =>
    have enis := (onNeighbor_idle (u := ⟨⟨ip, name⟩, added⟩) (.inr owned)).2
    exact .inl ⟨by simp [Happening.renews, owned], by rw [Spared, enis]⟩
  | some dpu =>
    by_cases hosted : key ∈ s.hostedOn dpu
    · cases added with
      | false =>
        have enis := (onNeighbor_idle (s := s) (u := ⟨⟨ip, name⟩, false⟩) (.inl rfl)).2
        exact .inl ⟨rfl, by rw [Spared, enis]⟩
      | true =>
        obtain ⟨eni, there, -⟩ := (lawful.inOrder.hosts dpu key).1 (mem_hostedOn.1 hosted)
        obtain ⟨c, onward, fired, -⟩ := onNeighbor_fireAll lawful.kept owned hosted there name
        exact .inr ⟨eni, c, there, congrArg Outlook.dpus onward.outlook, fired⟩
    · exact .inl ⟨by simp [Happening.renews, owned, hosted], onNeighbor_spares owned hosted _ rfl⟩

theorem news_upToDate (lawful : s.Lawful) (upToDate : UpToDate key marked s) (u : NeighborUpdate) :
    UpToDate key (mark key marked (.news u, s)) (onNeighbor u s).2 := by
  have advances := onNeighbor_advances u s
  rcases news_cases lawful key u with ⟨ignored, spared⟩ | ⟨eni, c, there, knows, fired⟩
  · rw [mark_of_ignored rfl ignored]
    exact upToDate.spared lawful advances spared
  · exact fire_upToDate lawful advances there knows eni.attributes.primary fired

/-- Whatever happens, an ENI stays up to date but for what the mark excuses then. -/
theorem act_upToDate (lawful : s.Lawful) (upToDate : UpToDate key marked s) (happening : Happening) :
    UpToDate key (mark key marked (happening, s)) (happening.act s).2 := by
  cases happening with
  | news u => exact news_upToDate lawful upToDate u
  | deed d =>
    by_cases same : d.key = key
    · subst same
      cases d with
      | set key fields => exact set_upToDate lawful upToDate fields
      | delete key => exact delete_upToDate lawful upToDate
    · have ignored : Happening.interrupts key s (.deed d) = false ∧
          Happening.renews key s (.deed d) = false := by
        cases d <;> rw [Deed.key] at same <;> simp [Happening.interrupts, Happening.renews, same]
      rw [mark_of_ignored ignored.1 ignored.2]
      exact upToDate.spared lawful (act_advances d s) (act_spared same s).1

end upToDate

theorem visits_upToDate {config : Config} {inventory : Inventory} {requests : List Request}
    {past : List (Happening × Reconciler)} {s : Reconciler}
    (visits : VisitsAfter (fresh config inventory) requests past s) (key : EniKey) :
    s.Lawful ∧ UpToDate key (interrupted key past) s := by
  refine visits.holds (P := fun past s => s.Lawful ∧ UpToDate key (interrupted key past) s)
    ?_ ?_ ?_ ?_ ?_
  · rintro past s s' beside ⟨lawful, upToDate⟩
    exact ⟨(lawful.advance beside.advances).1,
      upToDate.spared lawful beside.advances (by rw [Spared, beside.enis])⟩
  · rintro past s ⟨lawful, upToDate⟩
    have advances := ensureInitialized_advances s
    exact ⟨(lawful.advance advances).1,
      upToDate.spared lawful advances (by rw [Spared, (ensureInitialized_calm s).1.enis])⟩
  · rintro inventory faults acl tunnels past s ⟨lawful, upToDate⟩
    have advances := s.surround_advances inventory faults acl tunnels
    exact ⟨(lawful.advance advances).1, upToDate.spared lawful advances rfl⟩
  · rintro happening past s ⟨lawful, upToDate⟩
    have advances : Advances s (happening.act s).2 := by
      cases happening with
      | deed d => exact act_advances d s
      | news u => exact onNeighbor_advances u s
    rw [interrupted, List.foldl_append]
    exact ⟨(lawful.advance advances).1, act_upToDate lawful upToDate happening⟩
  · exact ⟨fresh_lawful config inventory, upToDate_of_absent rfl⟩

/-- In every state that a run goes through, an ENI that is not to be fired again is settled, and so
is any ENI right after a declaration of it that succeeds; unless a deletion of it has failed and
it was not declared, fired or removed since then. In that case too, whatever rule is not settled
is one that has been given up. -/
theorem settled_unless_interrupted (config : Config) (inventory : Inventory)
    (requests : List Request) (past : List (Happening × Reconciler)) (s : Reconciler)
    (visits : VisitsAfter (fresh config inventory) requests past s) (key : EniKey) :
    (∀ eni, s.enis.get? key = some eni → eni.needsRefire = false →
      eni.SettledUnless (interrupted key past) s.ctx.dpus) ∧
    ∀ fields s', set key fields s = (.ok (), s') → ∃ eni, s'.enis.get? key = some eni ∧
      eni.SettledUnless (interrupted key (past ++ [(.deed (.set key fields), s)])) s'.ctx.dpus := by
  obtain ⟨lawful, upToDate⟩ := visits_upToDate visits key
  refine ⟨upToDate, fun fields s' succeeds => ?_⟩
  obtain ⟨eni, there, calm⟩ := calm_of_set succeeds
  have upToDate' := set_upToDate lawful upToDate fields
  rw [succeeds] at upToDate'
  rw [interrupted, List.foldl_append]
  exact ⟨eni, there, upToDate' eni there calm⟩

/-- The sample is declared, and in its deletion the first call to take a rule off the switch is lost. -/
def interruptedDeletion : List Request :=
  [.set sampleEni [("vdpu_ids", "2"), ("primary_vdpu", "2")],
    .surroundings sampleInventory (Faults.none.plan .deleteRule (.window 0 (some 1) "lost")) false false,
    .delete sampleEni]

/-- The deletion leaves a mark. With another primary the sample is fired, which takes the mark away
and settles what the deletion had given up. -/
theorem sample_settled_again :
    let requests := interruptedDeletion ++ [.set sampleEni [("primary_vdpu", "3")]]
    let s := (fresh {} sampleInventory).run requests
    interrupted sampleEni ((fresh {} sampleInventory).happenings interruptedDeletion) = true ∧
      interrupted sampleEni ((fresh {} sampleInventory).happenings requests) = false ∧
      ∃ eni, s.enis.get? sampleEni = some eni ∧ eni.needsRefire = false ∧ eni.Settled s.ctx.dpus := by
  intro requests s
  have marks : interrupted sampleEni ((fresh {} sampleInventory).happenings interruptedDeletion) = true ∧
      interrupted sampleEni ((fresh {} sampleInventory).happenings requests) = false ∧
      (s.enis.get? sampleEni).map Eni.needsRefire = some false := by
    decide +kernel
  obtain ⟨before, after, flag⟩ := marks
  obtain ⟨eni, there, calm⟩ := Option.map_eq_some_iff.1 flag
  have settled := (settled_unless_interrupted {} sampleInventory requests
    ((fresh {} sampleInventory).happenings requests) s (.inl ⟨rfl, rfl⟩) sampleEni).1 eni there calm
  rw [after] at settled
  exact ⟨before, after, eni, there, calm, Eni.settledUnless_false.1 settled⟩

/-- After a deletion that has failed, a declaration succeeds and leaves a rule off the switch
for good: the rule is neither installed nor waiting, and no flag says so. -/
theorem unsettled_after_interrupted_deletion :
    let s := (fresh {} sampleInventory).run interruptedDeletion
    let after := set sampleEni [("vdpu_ids", "2"), ("primary_vdpu", "2")] s
    after.1.isOk = true ∧ ∃ eni, s.enis.get? sampleEni = some eni ∧
      after.2.enis.get? sampleEni = some eni ∧ eni.needsRefire = false ∧ ¬ eni.Settled s.ctx.dpus := by
  intro s after
  have left : ((s.enis.get? sampleEni).any fun eni => !eni.needsRefire && eni.rules.any fun r =>
      decide (r.state = .uninstalled) && (Rule.target r.role eni.attributes s.ctx.dpus).isOk) = true := by
    decide +kernel
  have same : after.1.isOk = true ∧ after.2.enis.get? sampleEni = s.enis.get? sampleEni := by
    decide +kernel
  obtain ⟨eni, there, found⟩ := (Option.any_eq_true _ _).1 left
  simp only [Bool.and_eq_true, Bool.not_eq_true', List.any_eq_true, decide_eq_true_eq] at found
  obtain ⟨calm, r, member, off, valid⟩ := found
  refine ⟨same.1, eni, there, same.2.trans there, calm, fun settled => ?_⟩
  rcases settled r member with failed | ⟨e, invalid⟩ | ⟨t, hop, -, -, -, on | waiting⟩
  · simp [off] at failed
  · rw [invalid] at valid
    cases valid
  · simp [off] at on
  · simp [off] at waiting

end Reconciler

end EniForwarding
