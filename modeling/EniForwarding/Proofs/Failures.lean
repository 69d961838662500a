import EniForwarding.Proofs.Causes
import EniForwarding.Proofs.Initialization
import EniForwarding.Proofs.Isolation

/-! Which failures last, and which may pass.

A failure that lasts comes from reading an entry, before anything has been done about it but
to prepare. Whatever fails afterwards, in firing, in taking down or in preparing itself, has a
cause that may go away, and a pass keeps the entry. So no entry is dropped half done.
-/

set_option autoImplicit false

namespace EniForwarding

open Relation

theorem Context.same_of_quiet {c c' : Context} (quiet : ReflTransGen Quiet c c') :
    c'.env.switch.rules = c.env.switch.rules ∧ c'.env.switch.tunnels = c.env.switch.tunnels ∧
      c'.tunnels = c.tunnels := by
  induction quiet with
  | refl => exact ⟨rfl, rfl, rfl⟩
  | tail _ last ih =>
    obtain ⟨rules, hops, tunnels⟩ := ih
    obtain ⟨rules', hops', tunnels', -⟩ := last.same
    exact ⟨rules'.trans rules, hops'.trans hops, tunnels'.trans tunnels⟩

/-- A failure that lasts and is no matter of an endpoint: a key or a field cannot be read. -/
def Failure.OfEntry (e : Failure) : Prop :=
  (∃ key, e = .invalidKey key) ∨ (∃ field, e = .missingField field) ∨
    ∃ field value, e = .invalidField field value

theorem Failure.ofEntry_of_orFail {α : Type} {r : Except EntryError α} {e : Failure}
    (failed : orFail r = .error e) : e.OfEntry := by
  cases r with
  | ok a => cases failed
  | error entry =>
    cases failed
    cases entry with
    | missingField field => exact .inr (.inl ⟨field, rfl⟩)
    | invalidField field value => exact .inr (.inr ⟨field, value, rfl⟩)
    | invalidKey key => exact .inl ⟨key, rfl⟩

theorem Failure.OfEntry.lasts {e : Failure} (ofEntry : e.OfEntry) : e.isRetryable = false := by
  rcases ofEntry with ⟨key, rfl⟩ | ⟨field, rfl⟩ | ⟨field, value, rfl⟩ <;> rfl

theorem Failure.ne_invalidEndpoint {e : Failure} (kind : e.OfEntry ∨ e.isRetryable = true)
    (detail : String) : e ≠ .invalidEndpoint detail := by
  rintro rfl
  rcases kind with (⟨key, same⟩ | ⟨field, same⟩ | ⟨field, value, same⟩) | again
  · cases same
  · cases same
  · cases same
  · cases again

namespace Reconciler

/-- Nothing has been done, but that the reconciler may have been prepared just now; and that
concerns no ENI, no rule and no tunnel next hop. -/
structure Untouched (s s' : Reconciler) : Prop where
  prepared : s' = s ∨ s.initialized = false ∧ ensureInitialized s = (.ok (), s')
  enis : s'.enis = s.enis
  hosted : s'.hosted = s.hosted
  tunnels : s'.ctx.tunnels = s.ctx.tunnels
  rules : s'.ctx.env.switch.rules = s.ctx.env.switch.rules
  hops : s'.ctx.env.switch.tunnels = s.ctx.env.switch.tunnels

/-- The entry cannot be read: its key, the primary that it has for an ENI that is there, or what
it declares about a new one. -/
inductive Unreadable (entry : Entry) (s : Reconciler) : Failure → Prop
  | key {e : Failure} (unread : EniKey.read s.config.separator entry.key = .error e) :
      Unreadable entry s e
  | primary {key : EniKey} {eni : Eni} {e : Failure} (write : entry.op = .set)
      (read : EniKey.read s.config.separator entry.key = .ok key)
      (there : s.enis.get? key = some eni)
      (unread : orFail (entry.fields.require UInt64 EniAttributes.primaryField) = .error e) :
      Unreadable entry s e
  | declaration {key : EniKey} {e : Failure} (write : entry.op = .set)
      (read : EniKey.read s.config.separator entry.key = .ok key)
      (absent : s.enis.get? key = none)
      (unread : orFail (EniAttributes.ofFields key (s.ctx.env.inventory.vni? key.vnet)
        entry.fields) = .error e) : Unreadable entry s e

section follow

variable {s s' : Reconciler} {entry : Entry} {key : EniKey} {fields : Fields} {e : Failure}

theorem Unreadable.ofEntry (unreadable : Unreadable entry s e) : e.OfEntry := by
  cases unreadable with
  | key unread => exact .inl ⟨entry.key, eq_of_read unread⟩
  | primary _ _ _ unread => exact Failure.ofEntry_of_orFail unread
  | declaration _ _ _ unread => exact Failure.ofEntry_of_orFail unread

theorem untouched_refl (s : Reconciler) : Untouched s s := ⟨.inl rfl, rfl, rfl, rfl, rfl, rfl⟩

theorem inventory_ensureInitialized (s : Reconciler) :
    (ensureInitialized s).2.ctx.env.inventory = s.ctx.env.inventory := by
  cases ready : s.initialized with
  | true => rw [ensureInitialized_of_ready ready]
  | false =>
    rcases ensureInitialized_cases ready with ⟨e, s', failed, idles, -⟩ | ⟨s', done, steady, -⟩
    · rw [failed]
      exact congrArg Outlook.inventory idles.steady.outlook
    · rw [done]
      exact congrArg Outlook.inventory steady.outlook

theorem untouched_of_prepared (prepared : ensureInitialized s = (.ok (), s')) : Untouched s s' := by
  have calm : Calm s (ensureInitialized s).2 := (ensureInitialized_calm s).1
  have hosted := hosted_ensureInitialized s
  have whole : s' = s ∨ s.initialized = false ∧ ensureInitialized s = (.ok (), s') := by
    cases ready : s.initialized with
    | true =>
      rw [ensureInitialized_of_ready ready] at prepared
      cases prepared
      exact .inl rfl
    | false => exact .inr ⟨rfl, prepared⟩
  rw [prepared] at calm hosted
  obtain ⟨rules, hops, tunnels⟩ := Context.same_of_quiet calm.quiet
  exact ⟨whole, calm.enis, hosted, tunnels, rules, hops⟩

theorem update_lasting {eni : Eni} (ready : s.initialized = true)
    (there : s.enis.get? key = some eni) (run : set key fields s = (.error e, s'))
    (lasts : e.isRetryable = false) :
    s' = s ∧ orFail (fields.require UInt64 EniAttributes.primaryField) = .error e := by
  cases required : orFail (fields.require UInt64 EniAttributes.primaryField) with
  | error e' =>
    have updated : Eni.update fields (eni, s.ctx) = (.error e', eni, s.ctx) := by
      rw [Eni.run_update, required]
    rw [run_set_update ready there updated, SortedMap.insert_of_get? there] at run
    cases run
    exact ⟨rfl, rfl⟩
  | ok primary =>
    -- whatever fails now is of the firing
    exfalso
    have fired := (Eni.fireAll_works (eni.withPrimary primary, s.ctx)).2
    have updated := Eni.run_update eni s.ctx fields
    rw [required] at updated
    dsimp only at updated
    split at updated
    · rw [run_set_update ready there updated] at run
      cases run
    · generalize Eni.fireAll (eni.withPrimary primary, s.ctx) = outcome at fired updated
      obtain ⟨e' | _, eni', c⟩ := outcome
      · rw [run_set_update ready there updated] at run
        cases run
        simp [fired e rfl] at lasts
      · rw [run_set_update ready there updated] at run
        cases run

theorem creation_lasting (ready : s.initialized = true) (absent : s.enis.get? key = none)
    (run : set key fields s = (.error e, s')) (lasts : e.isRetryable = false) :
    s' = s ∧ orFail (EniAttributes.ofFields key (s.ctx.env.inventory.vni? key.vnet) fields) =
      .error e := by
  rw [run_set_new ready absent] at run
  cases declared : Eni.declare key fields s.ctx with
  | error e' =>
    rw [declared] at run
    cases run
    exact ⟨rfl, Eni.unread_of_declare declared⟩
  | ok eni =>
    rw [declared] at run
    have again := (create_works key eni s).2 e (congrArg Prod.fst run)
    simp [again] at lasts

theorem set_lasting (run : set key fields s = (.error e, s')) (lasts : e.isRetryable = false) :
    Untouched s s' ∧
      ((∃ eni, s.enis.get? key = some eni ∧
          orFail (fields.require UInt64 EniAttributes.primaryField) = .error e) ∨
        s.enis.get? key = none ∧
          orFail (EniAttributes.ofFields key (s.ctx.env.inventory.vni? key.vnet) fields) =
            .error e) := by
  have inventory := inventory_ensureInitialized s
  have failures := (ensureInitialized_attests s).2
  rw [run_set] at run
  cases prepared : ensureInitialized s with | mk result t =>
  rw [prepared] at run inventory failures
  cases result with
  | error e' =>
    -- preparing never fails for good
    cases run
    simp [failures e rfl] at lasts
  | ok _ =>
    have ready := ensureInitialized_ready s t prepared
    have untouched := untouched_of_prepared prepared
    rw [← untouched.enis, ← inventory]
    cases there : t.enis.get? key with
    | some eni =>
      obtain ⟨rfl, unread⟩ := update_lasting ready there run lasts
      exact ⟨untouched, .inl ⟨eni, rfl, unread⟩⟩
    | none =>
      obtain ⟨rfl, unread⟩ := creation_lasting ready there run lasts
      exact ⟨untouched, .inr ⟨rfl, unread⟩⟩

/-- What fails for good could not be read, and nothing else has been done about it. -/
theorem follow_lasting (run : follow entry s = (.error e, s')) (lasts : e.isRetryable = false) :
    Unreadable entry s e ∧ Untouched s s' := by
  rw [run_follow] at run
  cases asked : Deed.ofEntry s.config.separator entry with
  | error e' =>
    rw [asked] at run
    cases run
    exact ⟨.key (Deed.ofEntry_eq_error_iff.1 asked), untouched_refl s⟩
  | ok deed =>
    rw [asked] at run
    cases deed with
    | delete key =>
      have again := (delete_works key s).2 e (congrArg Prod.fst run)
      simp [again] at lasts
    | set key fields =>
      obtain ⟨read, write, rfl⟩ := Deed.ofEntry_eq_set_iff.1 asked
      obtain ⟨untouched, ⟨eni, there, unread⟩ | ⟨absent, unread⟩⟩ := set_lasting run lasts
      · exact ⟨.primary write read there unread, untouched⟩
      · exact ⟨.declaration write read absent unread, untouched⟩

end follow

/-- All that an operation fails for may pass, and shows a cause: a call that failed on the way, or
a VIP that cannot be read. -/
def Passing {σ : Type} (ctx : σ → Context) (x : Action σ Unit) : Prop :=
  ∀ s e, (x s).1 = .error e → e.isRetryable = true ∧ (ctx s).Cause (ctx (x s).2)

theorem passing_of_candid {σ : Type} {ctx : σ → Context} {may : Call → Prop} {x : Action σ Unit}
    (attests : x.Attests ctx may (·.isRetryable = true)) (candid : ∀ s, x.Candid ctx s) :
    Passing ctx x := by
  intro s e failed
  have again := (attests s).2 e failed
  exact ⟨again, (candid s).2 e failed again⟩

/-- Failures are told apart soundly. What fails for good is an entry whose key or fields cannot be
read, and then nothing has been done but to prepare. What fails in firing, in taking down or in
preparing may pass, and an entry that fails so waits after the pass. A failure of an entry is
never that of an endpoint. -/
theorem failures_told_apart (s : Reconciler) :
    (∀ entry e s', follow entry s = (.error e, s') →
      (∀ detail, e ≠ .invalidEndpoint detail) ∧
      (e.isRetryable = true → s.ctx.Cause s'.ctx) ∧
      (e.isRetryable = false → e.OfEntry ∧ Unreadable entry s e ∧ Untouched s s')) ∧
    ((∀ a, Passing Prod.snd (Rule.fire a)) ∧ Passing Prod.snd Rule.destroy ∧
      Passing Prod.snd Eni.fireAll ∧ Passing Prod.snd Eni.destroy ∧ Passing ctx ensureInitialized) ∧
    ∀ entry t e, (entry, t) ∈ s.passLog → failed? (entry, t) = some e →
      e.isRetryable = true ∧ entry ∈ s.doTask.backlog.queue entry.key ∨
        e.OfEntry ∧ Unreadable entry t e ∧ Untouched t (follow entry t).2 := by
  refine ⟨fun entry e s' run => ?_, ⟨fun a => ?_, ?_, ?_, ?_, ?_⟩, fun entry t e attempted failed => ?_⟩
  · have lasting := follow_lasting run
    have cause := (follow_candid s entry).2 e
    rw [run] at cause
    refine ⟨Failure.ne_invalidEndpoint ?_, cause rfl, fun lasts => ?_⟩
    · cases kind : e.isRetryable with
      | true => exact .inr rfl
      | false => exact .inl (lasting kind).1.ofEntry
    · obtain ⟨unreadable, untouched⟩ := lasting lasts
      exact ⟨unreadable.ofEntry, unreadable, untouched⟩
  · exact passing_of_candid (Rule.fire_works a) fun p => p.1.fire_candid p.2 a
  · exact passing_of_candid Rule.destroy_works fun p => p.1.destroy_candid p.2
  · exact passing_of_candid Eni.fireAll_works fun p => p.1.fireAll_candid p.2
  · exact passing_of_candid Eni.destroy_works fun p => p.1.destroy_candid p.2
  · exact passing_of_candid ensureInitialized_attests ensureInitialized_candid
  · cases kind : e.isRetryable with
    | true =>
      refine .inl ⟨rfl, ?_⟩
      rw [queue_doTask]
      refine List.mem_filter.2 ⟨waits_of_attempt attempted failed ?_, by simp⟩
      simp [Failure.status, kind, Status.isRetryable]
    | false =>
      have run : follow entry t = (.error e, (follow entry t).2) :=
        Prod.ext (failed?_eq_some.1 failed) rfl
      obtain ⟨unreadable, untouched⟩ := follow_lasting run kind
      exact .inr ⟨unreadable.ofEntry, unreadable, untouched⟩

def sampleIncomplete : Entry := ⟨"Vnet_1000:aa:bb:cc:dd:ee:ff", .set, [("vdpu_ids", "2,3")]⟩

theorem sample_told_apart :
    (follow sampleIncomplete (fresh {} sampleInventory)).2.initialized = true ∧
      Untouched (fresh {} sampleInventory)
        (follow sampleIncomplete (fresh {} sampleInventory)).2 ∧
      ∃ entry, entry ∈ ((fresh {} sampleInventory).run (sampleLate.take 2)).doTask.backlog.queue
        entry.key := by
  have incomplete : (follow sampleIncomplete (fresh {} sampleInventory)).1 =
      .error (.missingField "primary_vdpu") := by decide +kernel
  obtain ⟨lasting, -⟩ := failures_told_apart (fresh {} sampleInventory)
  obtain ⟨-, -, lasts⟩ := lasting sampleIncomplete _ _ (Prod.fst_eq_iff.1 incomplete)
  refine ⟨by decide +kernel, (lasts rfl).2.2, ?_⟩
  have refused : ∃ attempt ∈ ((fresh {} sampleInventory).run (sampleLate.take 2)).passLog,
      (failed? attempt).map Failure.isRetryable = some true := by decide +kernel
  obtain ⟨⟨entry, t⟩, attempted, refused⟩ := refused
  obtain ⟨e, failed, again⟩ := Option.map_eq_some_iff.1 refused
  obtain ⟨-, -, waits⟩ := failures_told_apart ((fresh {} sampleInventory).run (sampleLate.take 2))
  rcases waits entry t e attempted failed with ⟨-, waits⟩ | ⟨kind, -⟩
  · exact ⟨entry, waits⟩
  · cases again.symm.trans kind.lasts

end Reconciler

end EniForwarding
