import EniForwarding.Proofs.WakeUp

/-! Why an attempt may be worth repeating.

A failure that may pass has a cause that can be seen afterwards: there is no VIP to be read,
or the history shows a call that failed in the course of the attempt. No other step of the
work on an ENI fails in this way.
-/

set_option autoImplicit false

namespace EniForwarding

namespace Context

/-- The history goes on, the VIP is the same, and a willing switch stays so. -/
structure Continues (c c' : Context) : Prop where
  suffix : c.env.trace <:+ c'.env.trace
  vip? : c'.outlook.vip? = c.outlook.vip?
  willing : c.Willing → c'.Willing

instance : Std.Refl Continues := ⟨fun _ => ⟨List.suffix_rfl, rfl, id⟩⟩

instance : IsTrans Context Continues := by
  constructor
  intro c c' c'' first second
  exact ⟨first.suffix.trans second.suffix, second.vip?.trans first.vip?,
    second.willing ∘ first.willing⟩

theorem Steady.continues {c c' : Context} (steady : c.Steady c')
    (suffix : c.env.trace <:+ c'.env.trace) : c.Continues c' :=
  ⟨suffix, congrArg Outlook.vip? steady.outlook, steady.willing⟩

theorem continues_noted (c : Context) (e : Event) : c.Continues (c.noted e) :=
  (c.still_noted e).toSteady.continues (List.suffix_cons _ _)

/-- In between, this call failed when the history was as far as that. -/
def Failed (c c' : Context) (call : Call) (earlier : History) : Prop :=
  ∃ message, c.env.trace <:+ earlier ∧ .called call (some message) :: earlier <:+ c'.env.trace

def Blind (c : Context) : Prop := ∀ vip, c.outlook.vip? ≠ .ok vip

/-- What keeps an attempt from success that may succeed later. -/
def Cause (c c' : Context) : Prop := c.Blind ∨ ∃ call earlier, c.Failed c' call earlier

section cause

variable {c c' c'' : Context}

theorem Continues.blind (continues : c.Continues c') (blind : c'.Blind) : c.Blind := by
  intro vip readable
  exact blind vip (continues.vip?.trans readable)

theorem Cause.before (continues : c.Continues c') (cause : c'.Cause c'') : c.Cause c'' := by
  rcases cause with blind | ⟨call, earlier, message, before, after⟩
  · exact .inl (continues.blind blind)
  · exact .inr ⟨call, earlier, message, continues.suffix.trans before, after⟩

theorem Cause.after (cause : c.Cause c') (continues : c'.Continues c'') : c.Cause c'' := by
  rcases cause with blind | ⟨call, earlier, message, before, after⟩
  · exact .inl blind
  · exact .inr ⟨call, earlier, message, before, after.trans continues.suffix⟩

theorem cause_refused (c : Context) (call : Call) (message : String) :
    c.Cause (c.refused call message) :=
  .inr ⟨call, c.env.trace, message, List.suffix_rfl, List.suffix_rfl⟩

end cause

end Context

namespace Action

open Context (Continues Cause)

/-- However the action ends, the history goes on, and a failure that may pass has a cause. The
context is a part of the state that the action is about. -/
def Candid {σ α : Type} (ctx : σ → Context) (x : Action σ α) (s : σ) : Prop :=
  (ctx s).Continues (ctx (x s).2) ∧
    ∀ e, (x s).1 = .error e → e.isRetryable = true → (ctx s).Cause (ctx (x s).2)

namespace Candid

variable {σ α β : Type} {ctx : σ → Context} {x : Action σ α} {f : α → Action σ β} {s s' : σ}

theorem of_ok {a : α} (run : x s = (.ok a, s')) (on : (ctx s).Continues (ctx s')) :
    x.Candid ctx s := by
  rw [Candid, run]
  exact ⟨on, by simp⟩

theorem of_error {e : Failure} (run : x s = (.error e, s')) (on : (ctx s).Continues (ctx s'))
    (cause : e.isRetryable = true → (ctx s).Cause (ctx s')) : x.Candid ctx s := by
  rw [Candid, run]
  refine ⟨on, fun e' same => ?_⟩
  cases same
  exact cause

theorem pure (a : α) (s : σ) : (pure a : Action σ α).Candid ctx s := .of_ok rfl (refl _)

theorem modify {g : σ → σ} (on : (ctx s).Continues (ctx (g s))) : (Action.modify g).Candid ctx s :=
  .of_ok rfl on

theorem lift {r : Except Failure α} (lasting : ∀ e, r = .error e → e.isRetryable = false) (s : σ) :
    (Action.lift r).Candid ctx s := by
  refine ⟨refl _, fun e failed again => ?_⟩
  cases (lasting e failed).symm.trans again

theorem bind (first : x.Candid ctx s) (second : ∀ a s', (f a).Candid ctx s') :
    (x >>= f).Candid ctx s := by
  unfold Candid at first ⊢
  rw [run_bind]
  generalize x s = outcome at first ⊢
  obtain ⟨e | a, s'⟩ := outcome
  · refine ⟨first.1, fun e' same => ?_⟩
    cases same
    exact first.2 e rfl
  · obtain ⟨on, cause⟩ := second a s'
    refine ⟨IsTrans.trans _ _ _ first.1 on, fun e failed again => ?_⟩
    exact (cause e failed again).before first.1

theorem get_bind {f : σ → Action σ β} (second : (f s).Candid ctx s) :
    (Action.get >>= f).Candid ctx s :=
  second

theorem onFailure {note : Failure → σ → σ} (candid : x.Candid ctx s)
    (noted : ∀ e s, (ctx s).Continues (ctx (note e s))) : (x.onFailure note).Candid ctx s := by
  unfold Candid Action.onFailure at *
  generalize x s = outcome at candid ⊢
  obtain ⟨e | a, s'⟩ := outcome
  · refine ⟨IsTrans.trans _ _ _ candid.1 (noted e s'), fun e' same again => ?_⟩
    cases same
    exact (candid.2 e rfl again).after (noted e s')
  · exact candid

theorem onSecond {ρ : Type} {x : Action Context α} {c : Context} (candid : x.Candid id c) (r : ρ) :
    (Action.onSecond x).Candid Prod.snd (r, c) :=
  candid

theorem firstFailure {first second : Except Failure Unit} {c c' c'' : Context}
    (head : c.Continues c' ∧ ∀ e, first = .error e → e.isRetryable = true → c.Cause c')
    (tail : c'.Continues c'' ∧ ∀ e, second = .error e → e.isRetryable = true → c'.Cause c'') :
    c.Continues c'' ∧ ∀ e, Action.firstFailure first second = .error e → e.isRetryable = true →
      c.Cause c'' := by
  refine ⟨IsTrans.trans _ _ _ head.1 tail.1, fun e failed again => ?_⟩
  cases first with
  | error e' =>
    cases failed
    exact (head.2 e rfl again).after tail.1
  | ok _ => exact (tail.2 e failed again).before head.1

theorem sweep {ρ : Type} {x : Action (ρ × Context) Unit}
    (candid : ∀ r c, x.Candid Prod.snd (r, c)) (rules : List ρ) (c : Context) :
    (Action.sweep x).Candid Prod.snd (rules, c) := by
  induction rules generalizing c with
  | nil => exact .of_ok (sweep_nil x c) (refl c)
  | cons r rest ih =>
    unfold Candid
    rw [run_sweep_cons]
    exact firstFailure (candid r c) (ih _)

theorem visit {g : α → Action σ Unit} (candid : ∀ a s, (g a).Candid ctx s) (items : List α)
    (s : σ) : (Action.visit g items).Candid ctx s := by
  induction items generalizing s with
  | nil => exact .pure () s
  | cons a rest ih => exact firstFailure (candid a s) (ih (g a s).2)

end Candid

end Action

namespace Context

open EniForwarding.Action (Candid)

variable (c : Context)

section leaves

variable {c} {α : Type} {x : Action Context α} {c' : Context}

theorem candid_of_ok {a : α} (run : x c = (.ok a, c')) (steady : c.Steady c')
    (suffix : c.env.trace <:+ c'.env.trace) : x.Candid id c :=
  .of_ok run (steady.continues suffix)

theorem candid_of_error {e : Failure} (run : x c = (.error e, c')) (steady : c.Steady c')
    (suffix : c.env.trace <:+ c'.env.trace) (cause : c.Cause c') : x.Candid id c :=
  .of_error run (steady.continues suffix) fun _ => cause

theorem candid_modify {g : Context → Context} (steady : c.Steady (g c))
    (suffix : c.env.trace <:+ (g c).env.trace) : (Action.modify g).Candid id c :=
  .modify (steady.continues suffix)

end leaves

theorem call_candid (call : Call) (failure : String → Failure) :
    (Context.call call failure).Candid id c := by
  rcases c.call_cases call failure with ⟨message, run⟩ | ⟨switch, done, run⟩
  · exact candid_of_error run (c.still_refused call message).toSteady (List.suffix_cons _ _)
      (c.cause_refused call message)
  · exact candid_of_ok run (.of_accepted c done rfl rfl rfl) (List.suffix_cons _ _)

theorem audit_candid (r : Audit.Record) : (audit r).Candid id c :=
  .modify (c.continues_noted (.audited r))

theorem auditFailure_candid {α : Type} {r : Audit.Record} {x : Action Context α} {c : Context}
    (candid : x.Candid id c) : (auditFailure r x).Candid id c :=
  candid.onFailure fun _ c => c.continues_noted _

theorem setRule_candid (key : String) (fields : Fields) : (setRule key fields).Candid id c :=
  .bind (c.call_candid _ _) fun _ c => candid_modify (.of_eq c rfl rfl rfl) List.suffix_rfl

theorem deleteRule_candid (key : String) : (deleteRule key).Candid id c :=
  .bind (c.call_candid _ _) fun _ c => candid_modify (.of_eq c rfl rfl rfl) List.suffix_rfl

theorem findVip_candid : findVip.Candid id c := by
  have on : c.Continues (findVip c).2 :=
    (steadily_findVip c).1.toSteady.continues c.findVip_onward.suffix
  refine ⟨on, fun e failed _ => .inl fun vip readable => ?_⟩
  obtain ⟨found, succeeds⟩ := findVip_succeeds readable
  cases failed.symm.trans succeeds

theorem reach_candid (ip : Net.Address) : (NextHop.reach ip).Candid id c := by
  obtain ⟨answer, succeeds⟩ := reach_succeeds ip c
  have on : c.Continues (NextHop.reach ip c).2 :=
    (steadily_reach ip c).1.toSteady.continues (c.reach_onward ip).suffix
  exact .of_ok (Prod.ext succeeds rfl) on

theorem acquire_candid (hop : TunnelHop) : (acquire hop).Candid id c := by
  cases known : c.tunnels.get? hop with
  | some use =>
    exact candid_of_ok (acquire_known known) (.of_eq c rfl rfl rfl) (List.suffix_cons _ _)
  | none =>
    rcases acquire_unknown known with ⟨message, r, run⟩ | ⟨switch, done, run⟩
    · exact candid_of_error run (c.still_refusal _ _ _).toSteady ⟨[_, _], rfl⟩
        ((c.cause_refused _ message).after (continues_noted _ _))
    · exact candid_of_ok run (.of_accepted c done rfl rfl rfl) ⟨[_, _, _], rfl⟩

theorem release_candid (hop : TunnelHop) : (release hop).Candid id c := by
  cases known : c.tunnels.get? hop with
  | none => exact .of_ok (release_unknown known) (c.continues_noted _)
  | some use =>
    by_cases shared : 1 < use.refs
    · exact candid_of_ok (release_shared known shared) (.of_eq c rfl rfl rfl) (List.suffix_cons _ _)
    · rcases release_last known shared with ⟨message, r, run⟩ | ⟨switch, done, run⟩
      · exact candid_of_error run (c.still_refusal _ _ _).toSteady ⟨[_, _], rfl⟩
          ((c.cause_refused _ message).after (continues_noted _ _))
      · exact candid_of_ok run (.of_accepted c done rfl rfl rfl) ⟨[_, _, _], rfl⟩

end Context

namespace NextHop

variable (h : NextHop) (c : Context)

theorem resolve_candid : h.resolve.Candid id c := by
  rcases h with ⟨ip, resolved⟩ | ⟨ip, vnet, _ | tunnel⟩
  · exact .bind (c.reach_candid ip) fun _ c => .pure _ c
  · refine .get_bind ?_
    cases c.env.inventory.tunnel? vnet with
    | none => exact .pure _ c
    | some tunnel => exact .bind (c.acquire_candid _) fun _ c => .pure _ c
  · exact .pure _ c

theorem release_candid : h.release.Candid id c := by
  rcases h with ⟨ip, resolved⟩ | ⟨ip, vnet, _ | tunnel⟩
  · exact .pure _ c
  · exact .pure _ c
  · exact .bind (c.release_candid _) fun _ c => .pure _ c

end NextHop

namespace Rule

open EniForwarding.Action (Candid)

variable (r : Rule) (c : Context)

theorem update_candid (f : Rule → Rule) : (update f).Candid Prod.snd (r, c) := .modify (refl c)

theorem uninstall_candid (category : Audit.Category) :
    (uninstall category).Candid Prod.snd (r, c) := by
  refine .get_bind (.bind (.onSecond (Context.auditFailure_candid (c.deleteRule_candid _)) r) ?_)
  exact fun _ p => .bind (.onSecond (p.2.audit_candid _) p.1) fun _ p => update_candid p.1 p.2 _

theorem dropNextHop_candid : dropNextHop.Candid Prod.snd (r, c) := by
  refine .get_bind ?_
  dsimp only
  split
  · exact .pure _ _
  next hop _ => exact .bind (.onSecond (hop.release_candid c) r) fun _ p => update_candid p.1 p.2 _

theorem retarget_candid (t : Target) (vnet : String) : (retarget t vnet).Candid Prod.snd (r, c) :=
  .bind (dropNextHop_candid r c) fun _ p => update_candid p.1 p.2 _

theorem install_candid (a : EniAttributes) (change : Change) (redirect : String) :
    (install a change redirect).Candid Prod.snd (r, c) := by
  refine .bind (.onSecond c.findVip_candid r) fun vip p => .get_bind ?_
  refine .bind (.onSecond (Context.auditFailure_candid (p.2.setRule_candid _ _)) p.1) fun _ p => ?_
  exact .bind (.onSecond (p.2.audit_candid _) p.1) fun _ p => update_candid p.1 p.2 _

theorem settle_candid (a : EniAttributes) (change : Change) :
    (settle a change).Candid Prod.snd (r, c) := by
  refine .get_bind ?_
  dsimp only
  split
  · exact .pure _ _
  next hop _ =>
    refine .bind (.onSecond (hop.resolve_candid c) r) fun found p => ?_
    refine .bind (update_candid p.1 p.2 _) fun _ p => ?_
    split
    · exact install_candid p.1 p.2 a change _
    · exact update_candid p.1 p.2 _

theorem pursue_candid (a : EniAttributes) (t : Target) : (pursue a t).Candid Prod.snd (r, c) := by
  have renews : ∀ (change : Change) (p : Rule × Context),
      (do retarget t a.key.vnet; settle a change : Step Unit).Candid Prod.snd p := fun change p =>
    .bind (retarget_candid p.1 p.2 t _) fun _ p => settle_candid p.1 p.2 a change
  refine .get_bind ?_
  dsimp only
  split
  next => exact .pure _ _
  next => exact settle_candid r c a .refresh
  next => exact renews .create (r, c)
  next =>
    split
    · exact .bind (uninstall_candid r c _) fun _ p => renews .move p
    · exact renews .move (r, c)

theorem fire_candid (a : EniAttributes) : (fire a).Candid Prod.snd (r, c) := by
  refine .get_bind ?_
  dsimp only
  split
  next => exact .pure _ _
  next =>
    split
    next => exact pursue_candid r c a _
    next =>
      split
      · exact update_candid r c _
      · exact .pure _ _

theorem destroy_candid : destroy.Candid Prod.snd (r, c) := by
  refine .get_bind ?_
  dsimp only
  split
  · exact .bind (uninstall_candid r c _) fun _ p => dropNextHop_candid p.1 p.2
  · exact dropNextHop_candid r c

end Rule

namespace Eni

variable (eni : Eni) (c : Context)

theorem fireAll_candid : fireAll.Candid Prod.snd (eni, c) := by
  have swept := Action.Candid.sweep (fun r c => r.fire_candid c eni.attributes) eni.rules c
  unfold Action.Candid at *
  rw [run_fireAll]
  generalize Action.sweep (Rule.fire eni.attributes) (eni.rules, c) = outcome at swept
  obtain ⟨_ | _, rules, c'⟩ := outcome <;> exact swept

theorem destroy_candid : destroy.Candid Prod.snd (eni, c) := by
  have swept := Action.Candid.sweep Rule.destroy_candid eni.rules c
  unfold Action.Candid at *
  rw [run_destroy]
  generalize Action.sweep Rule.destroy (eni.rules, c) = outcome at swept
  obtain ⟨_ | _, rules, c'⟩ := outcome
  · exact swept
  · exact ⟨swept.1, by simp⟩

theorem lasting_of_orFail {α : Type} {r : Except EntryError α} {e : Failure}
    (failed : orFail r = .error e) : e.isRetryable = false := by
  cases r with
  | ok a => cases failed
  | error entry =>
    cases failed
    cases entry <;> rfl

theorem update_candid (fields : Fields) : (update fields).Candid Prod.snd (eni, c) := by
  refine .bind (.lift (fun _ => lasting_of_orFail) _) fun primary p => .get_bind ?_
  dsimp only
  split
  · exact .pure _ _
  · exact .bind (.modify (refl _)) fun _ p => fireAll_candid p.1 p.2

theorem onNeighbor_candid (added : Bool) : (onNeighbor added).Candid Prod.snd (eni, c) := by
  unfold onNeighbor
  split
  · exact fireAll_candid eni c
  · exact .pure _ _

theorem lasting_of_declare {key : EniKey} {fields : Fields} {e : Failure}
    (failed : declare key fields c = .error e) : e.isRetryable = false :=
  lasting_of_orFail (unread_of_declare failed)

end Eni

namespace Reconciler

open EniForwarding.Action (Candid)

variable (s : Reconciler)

theorem onContext_candid {α : Type} {x : Action Context α} {s : Reconciler}
    (candid : x.Candid id s.ctx) : (onContext x).Candid ctx s :=
  candid

theorem onEni_candid (key : EniKey) {eni : Eni} {x : Eni.Step Unit} {s : Reconciler}
    (candid : x.Candid Prod.snd (eni, s.ctx)) : (onEni key eni x).Candid ctx s :=
  candid

theorem createTable_candid : createTable.Candid ctx s := by
  refine .get_bind (.bind (onContext_candid (Context.auditFailure_candid ?_)) fun _ s => ?_)
  · exact s.ctx.call_candid _ _
  · exact onContext_candid (s.ctx.audit_candid _)

theorem watch_candid (dpu : Dpu) : (watch dpu).Candid ctx s := by
  unfold watch
  split
  · exact .pure _ _
  · exact .bind (.modify (refl _)) fun _ s =>
      .bind (onContext_candid (s.ctx.reach_candid _)) fun _ _ => .pure _ _

theorem watchAll_candid (dpus : List Dpu) : (dpus.forM watch : Step Unit).Candid ctx s := by
  induction dpus generalizing s with
  | nil => exact .pure _ _
  | cons dpu rest ih => exact .bind (watch_candid s dpu) fun _ s => ih s

theorem ensureInitialized_candid : ensureInitialized.Candid ctx s := by
  have populates : (onContext Context.populate).Candid ctx s :=
    onContext_candid (.of_ok rfl ⟨List.suffix_rfl, rfl, fun w => ⟨w.faultless, w.acl, w.tunnels⟩⟩)
  refine .get_bind ?_
  split
  · exact .pure _ _
  · refine .bind populates fun _ s => .get_bind ?_
    refine .bind (onContext_candid (s.ctx.call_candid _ _)) fun _ s => ?_
    refine .bind (createTable_candid s) fun _ s => .get_bind ?_
    refine .bind (watchAll_candid s _) fun _ s => .bind (.modify (refl _)) fun _ s => .get_bind ?_
    exact onContext_candid (s.ctx.audit_candid _)

/-- The failure of a creation is that of setting up, whatever taking down comes to. -/
theorem create_candid (key : EniKey) (eni : Eni) : (create key eni).Candid ctx s := by
  have fired := eni.fireAll_candid s.ctx
  unfold Candid create at *
  generalize Eni.fireAll (eni, s.ctx) = outcome at fired
  obtain ⟨e | _, eni', c⟩ := outcome
  · have destroyed := (eni'.destroy_candid c).1
    dsimp only
    generalize Eni.destroy (eni', c) = outcome at destroyed
    have on := IsTrans.trans _ _ _ fired.1 destroyed
    have cause : ∀ e', Except.error e = .error e' → e'.isRetryable = true → _ :=
      fun e' same again => (fired.2 e' same again).after destroyed
    obtain ⟨_ | _, eni'', c'⟩ := outcome <;> exact ⟨on, cause⟩
  · exact ⟨fired.1, by simp⟩

theorem act_candid (deed : Deed) : deed.act.Candid ctx s := by
  cases deed with
  | set key fields =>
    refine .bind (ensureInitialized_candid s) fun _ s => .get_bind ?_
    split
    next eni _ =>
      exact .bind (onEni_candid key (eni.update_candid s.ctx fields)) fun _ _ => .modify (refl _)
    next =>
      refine .bind (.lift (fun _ => Eni.lasting_of_declare s.ctx) s) fun eni s => ?_
      exact create_candid s key eni
  | delete key =>
    refine .get_bind ?_
    split
    next => exact .pure _ _
    next eni _ =>
      exact .bind (onEni_candid key (eni.destroy_candid s.ctx)) fun _ _ => .modify (refl _)

theorem wake_candid (added : Bool) (key : EniKey) : (wake added key).Candid ctx s := by
  refine .get_bind ?_
  split
  · exact .pure _ _
  next eni _ => exact onEni_candid key (eni.onNeighbor_candid s.ctx added)

theorem onNeighbor_candid (u : NeighborUpdate) : (onNeighbor u).Candid ctx s := by
  refine .get_bind ?_
  split
  · exact .pure _ _
  · refine .bind (.modify (refl _)) fun _ s => .get_bind ?_
    exact .visit (fun key s => wake_candid s u.added key) _ s

theorem eq_of_read {separator : Char} {text : String} {e : Failure}
    (failed : EniKey.read separator text = .error e) : e = .invalidKey text := by
  unfold EniKey.read at failed
  split at failed
  · cases failed
  · exact (Except.error.inj failed).symm

theorem lasting_of_ofEntry {separator : Char} {entry : Entry} {e : Failure}
    (failed : Deed.ofEntry separator entry = .error e) : e.isRetryable = false := by
  rw [eq_of_read (Deed.ofEntry_eq_error_iff.1 failed)]
  rfl

/-- An entry that has to wait has a cause to wait for. -/
theorem follow_candid (entry : Entry) : (follow entry).Candid ctx s := by
  cases read : Deed.ofEntry s.config.separator entry with
  | error e =>
    have run : follow entry s = (.error e, s) := by rw [run_follow, read]
    refine .of_error run (refl _) fun again => ?_
    cases (lasting_of_ofEntry read).symm.trans again
  | ok deed =>
    have acted := act_candid s deed
    have run : follow entry s = deed.act s := by rw [run_follow, read]
    unfold Candid at *
    rwa [run]

end Reconciler

end EniForwarding
