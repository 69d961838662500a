import EniForwarding.Proofs.Rollback
import EniForwarding.Proofs.Turns

/-! How many ENIs there are.

An ENI comes into the table when it has been set up, and also when it could be neither set up
nor taken down again. Only the first is counted as a creation, while every ENI that leaves the
table is counted as a removal. So the creations make up for the removals and for the ENIs that
are there, but for those that were left behind when they were declared.
-/

set_option autoImplicit false

namespace EniForwarding

/-- How a deed changes the number of ENIs in the table. -/
inductive Shift where
  | created
  /-- A new ENI could be neither set up nor taken down again. -/
  | leftBehind
  | removed
  deriving DecidableEq

namespace Reconciler

/-- What a deed changes, told by whether its ENI is in the table before it and after it. -/
def shift? (deed : Deed) (s : Reconciler) : Option Shift :=
  match s.enis.contains deed.key, (deed.act s).2.enis.contains deed.key with
  | false, true => if (deed.act s).1.isOk then some .created else some .leftBehind
  | true, false => some .removed
  | _, _ => none

abbrev shiftsOf (ds : List (Deed × Reconciler)) : List Shift := ds.filterMap fun e => shift? e.1 e.2

/-- The table and the counters differ by these shifts. -/
structure Shifted (shifts : List Shift) (s s' : Reconciler) : Prop where
  present : s'.enis.size + shifts.count .removed =
    s.enis.size + shifts.count .created + shifts.count .leftBehind
  created : ∀ times, s.enisCreated.Shows times →
    s'.enisCreated.Shows (times + shifts.count .created)
  removed : ∀ times, s.enisRemoved.Shows times →
    s'.enisRemoved.Shows (times + shifts.count .removed)

variable {s s' s'' : Reconciler} {key : EniKey} {eni eni' : Eni} {deed : Deed}

theorem Shifted.still (size : s'.enis.size = s.enis.size) (created : s'.enisCreated = s.enisCreated)
    (removed : s'.enisRemoved = s.enisRemoved) : Shifted [] s s' :=
  ⟨size, fun _ shows_ => created ▸ shows_, fun _ shows_ => removed ▸ shows_⟩

theorem Shifted.join {first second : List Shift} (before : Shifted first s s')
    (after : Shifted second s' s'') : Shifted (first ++ second) s s'' := by
  constructor
  · have start := before.present
    have present := after.present
    simp only [List.count_append]
    omega
  · intro times shows_
    rw [List.count_append, ← Nat.add_assoc]
    exact after.created _ (before.created _ shows_)
  · intro times shows_
    rw [List.count_append, ← Nat.add_assoc]
    exact after.removed _ (before.removed _ shows_)

instance : Std.Refl (Shifted []) := ⟨fun _ => .still rfl rfl rfl⟩

instance : IsTrans Reconciler (Shifted []) := ⟨fun _ _ _ => Shifted.join⟩

section shifts

variable {c : Context}

theorem shift?_of_stays
    (stays : (deed.act s).2.enis.contains deed.key = s.enis.contains deed.key) :
    shift? deed s = none := by
  unfold shift?
  rw [stays]
  cases s.enis.contains deed.key <;> rfl

theorem shift?_congr (enis : s'.enis = s.enis) (run : deed.act s = deed.act s') :
    shift? deed s = shift? deed s' := by
  unfold shift?
  rw [run, enis]

theorem shift?_eq_leftBehind_iff : shift? deed s = some .leftBehind ↔
    s.enis.get? deed.key = none ∧ (∃ e, (deed.act s).1 = .error e) ∧
      (deed.act s).2.enis.contains deed.key = true := by
  unfold shift? SortedMap.contains
  cases s.enis.get? deed.key <;> cases (deed.act s).2.enis.get? deed.key <;>
    cases (deed.act s).1 <;> simp [Except.isOk, Except.toBool]

theorem act_shifted_of_put (there : s.enis.get? deed.key = some eni)
    (enis : (deed.act s).2.enis = s.enis.insert deed.key eni')
    (created : (deed.act s).2.enisCreated = s.enisCreated)
    (removed : (deed.act s).2.enisRemoved = s.enisRemoved) :
    Shifted (shift? deed s).toList s (deed.act s).2 := by
  rw [shift?_of_stays]
  · exact .still (by rw [enis, SortedMap.size_insert_of_present there]) created removed
  · simp [enis, SortedMap.contains, SortedMap.get?_insert_self, there]

/-- A new ENI that is kept is one more, and is counted as a creation only if it could be set up. -/
theorem create_shifted (absent : s.enis.get? key = none) {fresh : Eni}
    (run : deed.act s = create key fresh s) (own : deed.key = key) :
    Shifted (shift? deed s).toList s (deed.act s).2 := by
  have before : s.enis.contains deed.key = false := by rw [own, SortedMap.contains, absent]; rfl
  have kept : ∀ eni c, (keep key eni { s with ctx := c }).enis.contains deed.key = true := by
    intro eni c
    rw [own]
    simp [keep, SortedMap.contains, SortedMap.get?_insert_self]
  have size : ∀ eni c, (keep key eni { s with ctx := c }).enis.size = s.enis.size + 1 :=
    fun eni c => SortedMap.size_insert_of_absent absent eni
  rcases create_cases key fresh s with
    ⟨eni, c, -, done⟩ | ⟨e, eni, c, -, ⟨undone, c', -, ends⟩ | ⟨e', left, c', -, ends⟩⟩
  · have shift : shift? deed s = some .created := by
      simp [shift?, before, run, done, kept, Except.isOk, Except.toBool]
    rw [shift, run, done]
    exact ⟨size eni c, fun _ shows_ => shows_.bump, fun _ shows_ => shows_⟩
  · rw [shift?_of_stays (by rw [run, ends]), run, ends]
    exact .still rfl rfl rfl
  · have shift : shift? deed s = some .leftBehind := by
      simp [shift?, before, run, ends, kept, Except.isOk, Except.toBool]
    rw [shift, run, ends]
    exact ⟨size left c', fun _ shows_ => shows_, fun _ shows_ => shows_⟩

theorem set_shifted (ready : s.initialized = true) (key : EniKey) (fields : Fields) :
    Shifted (shift? (.set key fields) s).toList s (set key fields s).2 := by
  cases there : s.enis.get? key with
  | some eni =>
    generalize updated : Eni.update fields (eni, s.ctx) = outcome
    obtain ⟨result, eni', c⟩ := outcome
    obtain ⟨counter, run⟩ := run_set_known ready there updated
    exact act_shifted_of_put there (by rw [Deed.act, run]; rfl)
      (by rw [Deed.act, run]) (by rw [Deed.act, run])
  | none =>
    have run : set key fields s = _ := run_set_new ready there
    cases declared : Eni.declare key fields s.ctx with
    | error e =>
      simp only [declared] at run
      rw [shift?_of_stays (by rw [Deed.act, run]), run]
      exact .still rfl rfl rfl
    | ok fresh =>
      simp only [declared] at run
      exact create_shifted there run rfl

theorem delete_shifted (key : EniKey) (s : Reconciler) :
    Shifted (shift? (.delete key) s).toList s (delete key s).2 := by
  cases there : s.enis.get? key with
  | none =>
    have run := run_delete_unknown there
    rw [shift?_of_stays (by rw [Deed.act, run]), run]
    exact .still rfl rfl rfl
  | some eni =>
    generalize destroyed : Eni.destroy (eni, s.ctx) = outcome
    obtain ⟨result, eni', c⟩ := outcome
    have run := run_delete_known there destroyed
    cases result with
    | error e =>
      exact act_shifted_of_put there (by rw [Deed.act, run]; rfl)
        (by rw [Deed.act, run]) (by rw [Deed.act, run])
    | ok _ =>
      have shift : shift? (.delete key) s = some .removed := by
        simp [shift?, Deed.act, Deed.key, run, forget, SortedMap.contains, there,
          SortedMap.get?_erase_self]
      have size : (forget key { s with ctx := c }).enis.size + 1 = s.enis.size :=
        SortedMap.size_erase_of_present there
      rw [shift, run]
      exact ⟨size, fun _ shows_ => shows_, fun _ shows_ => shows_.bump⟩

theorem prepares_shifted (prepares : Prepares s s') : Shifted [] s s' ∧ s'.enis = s.enis := by
  obtain ⟨c, owners, ready, rfl⟩ := prepares
  exact ⟨.still rfl rfl rfl, rfl⟩

theorem act_shifted (deed : Deed) (s : Reconciler) :
    Shifted (shift? deed s).toList s (deed.act s).2 := by
  cases deed with
  | delete key => exact delete_shifted key s
  | set key fields =>
    obtain ⟨prepared, enis⟩ := prepares_shifted (ensureInitialized_prepares s)
    have ready := ensureInitialized_ready s
    have run := run_set key fields s
    generalize ensureInitialized s = outcome at prepared enis ready run
    obtain ⟨e | _, s'⟩ := outcome
    · have run : set key fields s = (.error e, s') := run
      rw [shift?_of_stays (by rw [Deed.act, run, enis]), Deed.act, run]
      exact prepared
    · have run : set key fields s = set key fields s' := run
      have same : shift? (.set key fields) s = shift? (.set key fields) s' := shift?_congr enis run
      rw [same, Deed.act, run]
      exact prepared.join (set_shifted (ready s' rfl) key fields)

theorem wake_shifted (added : Bool) (key : EniKey) (s : Reconciler) :
    Shifted [] s (wake added key s).2 := by
  rcases wake_cases added key s with same | ⟨eni, there, same⟩ <;> rw [same]
  · exact refl s
  · exact .still (SortedMap.size_insert_of_present there _) rfl rfl

/-- Only a declaration leaves an ENI behind: one that fails, and that has put its ENI in the table. -/
theorem leftBehind_not_mem_iff {ds : List (Deed × Reconciler)} : Shift.leftBehind ∉ shiftsOf ds ↔
    ∀ key fields t, (.set key fields, t) ∈ ds → t.enis.get? key = none →
      (∃ e, (set key fields t).1 = .error e) → (set key fields t).2.enis.get? key = none := by
  rw [List.mem_filterMap]
  constructor
  · intro nobody key fields t member absent failed
    by_contra there
    have left : shift? (.set key fields) t = some .leftBehind :=
      shift?_eq_leftBehind_iff.2 ⟨absent, failed, Option.isSome_iff_ne_none.2 there⟩
    exact nobody ⟨_, member, left⟩
  · rintro each ⟨⟨deed, t⟩, member, left⟩
    obtain ⟨absent, failed, there⟩ := shift?_eq_leftBehind_iff.1 left
    cases deed with
    | set key fields =>
      have gone := each key fields t member absent failed
      exact Option.isSome_iff_ne_none.1 there gone
    | delete key =>
      -- the deletion of an unknown ENI succeeds
      obtain ⟨e, failed⟩ := failed
      have failed : (delete key t).1 = .error e := failed
      have absent : t.enis.get? key = none := absent
      rw [run_delete_unknown absent] at failed
      cases failed

theorem run_shifted (requests : List Request) (s : Reconciler) :
    Shifted (shiftsOf (deeds s requests)) s (s.run requests) := by
  refine run_along (R := fun ds => Shifted (shiftsOf ds)) ?_ ?_ ?_ ?_ ?_ ?_ requests s ?_
  · intro ds ds' s s' s'' first second
    rw [shiftsOf, List.filterMap_append]
    exact first.join second
  · exact fun s b => .still rfl rfl rfl
  · exact fun entry e s => .still rfl rfl rfl
  · intro d s
    have one := act_shifted d s
    cases shift : shift? d s <;> simpa [shiftsOf, shift] using one
  · exact fun s => (prepares_shifted (ensureInitialized_prepares s)).1
  · intro u s
    have woken : Shifted [] s (onNeighbor u s).2 :=
      onNeighbor_of_wake (fun s n => .still rfl rfl rfl) wake_shifted u s
    exact woken
  · exact fun inventory faults acl tunnels _ s => .still rfl rfl rfl

end shifts

/-- As long as the counters are not full, what has been created makes up for what has been removed
and what is there, but for the ENIs that were left behind. So the counts balance just if no
declaration of the run has failed and yet put its ENI in the table. -/
theorem creations_balance (config : Config) (inventory : Inventory) (requests : List Request)
    (created : ((fresh config inventory).run requests).enisCreated.toNat < UInt64.size - 1)
    (removed : ((fresh config inventory).run requests).enisRemoved.toNat < UInt64.size - 1) :
    let s := (fresh config inventory).run requests
    let ds := deeds (fresh config inventory) requests
    s.enisCreated.toNat + (shiftsOf ds).count .leftBehind = s.enisRemoved.toNat + s.enis.size ∧
      (s.enisCreated.toNat = s.enisRemoved.toNat + s.enis.size ↔
        ∀ key fields t, (.set key fields, t) ∈ ds → t.enis.get? key = none →
          (∃ e, (set key fields t).1 = .error e) → (set key fields t).2.enis.get? key = none) := by
  have shifted := run_shifted requests (fresh config inventory)
  generalize (fresh config inventory).run requests = s at created removed shifted ⊢
  generalize deeds (fresh config inventory) requests = ds at shifted ⊢
  have start : (0 : Counter).Shows 0 := rfl
  have empty : (fresh config inventory).enis.size = 0 := rfl
  have present := shifted.present
  have creations := shifted.created 0 start
  have removals := shifted.removed 0 start
  unfold Counter.Shows at creations removals
  have balance : s.enisCreated.toNat + (shiftsOf ds).count .leftBehind =
      s.enisRemoved.toNat + s.enis.size := by omega
  refine ⟨balance, ?_⟩
  rw [← leftBehind_not_mem_iff, ← List.count_eq_zero]
  omega

def vipless : Inventory :=
  (Inventory.empty.addDpu 2 "cluster" "10.0.0.2" "20.0.0.2").addVnet "Vnet_1000"
    ⟨some 1234, some "mock_tunnel"⟩

/-- No tunnel next hop can be removed while an ENI is declared. -/
def sampleDeclaration : List Request :=
  [.surroundings vipless (Faults.none.plan .removeTunnel (.window 0 none "busy")) false false,
    .set sampleEni [("vdpu_ids", "2"), ("primary_vdpu", "2")],
    .surroundings vipless Faults.none false false]

theorem sample_creations_balance :
    let s := (fresh {} vipless).run sampleDeclaration
    let s' := (fresh {} vipless).run (sampleDeclaration ++ [.delete sampleEni])
    s.enisCreated.toNat + 1 = s.enisRemoved.toNat + s.enis.size ∧
      s'.enisCreated.toNat + 1 = s'.enisRemoved.toNat + s'.enis.size := by
  have few :
      let s := (fresh {} vipless).run sampleDeclaration
      let s' := (fresh {} vipless).run (sampleDeclaration ++ [.delete sampleEni])
      s.enisCreated.toNat < UInt64.size - 1 ∧ s.enisRemoved.toNat < UInt64.size - 1 ∧
        s'.enisCreated.toNat < UInt64.size - 1 ∧ s'.enisRemoved.toNat < UInt64.size - 1 := by
    decide +kernel
  have one :
      (shiftsOf (deeds (fresh {} vipless) sampleDeclaration)).count .leftBehind = 1 ∧
        (shiftsOf (deeds (fresh {} vipless)
          (sampleDeclaration ++ [.delete sampleEni]))).count .leftBehind = 1 := by
    decide +kernel
  have balance := creations_balance {} vipless sampleDeclaration
  have balance' := creations_balance {} vipless (sampleDeclaration ++ [.delete sampleEni])
  generalize (fresh {} vipless).run sampleDeclaration = s at few balance ⊢
  generalize (fresh {} vipless).run (sampleDeclaration ++ [.delete sampleEni]) = s'
    at few balance' ⊢
  dsimp only at few balance balance' ⊢
  rw [one.1] at balance
  rw [one.2] at balance'
  exact ⟨(balance few.1 few.2.1).1, (balance' few.2.2.1 few.2.2.2).1⟩

/-- An ENI that is in the table has not been created, and its removal is counted without a creation. -/
theorem creations_fall_short :
    let s := (fresh {} vipless).run sampleDeclaration
    let s' := (fresh {} vipless).run (sampleDeclaration ++ [.delete sampleEni])
    (s.stats.enisCreated = 0 ∧ s.stats.enisRemoved = 0 ∧ s.enis.size = 1) ∧
      s'.stats.enisCreated = 0 ∧ s'.stats.enisRemoved = 1 ∧ s'.enis.size = 0 := by
  decide +kernel

end Reconciler

end EniForwarding
