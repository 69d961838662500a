import EniForwarding.Proofs.Requests

/-! What the trace tells of the work.

Each call on a rule, a tunnel next hop or the rule table is followed at once by the record of
what came of it. So what any operation adds to the trace is a sequence of episodes: a call with
its record, a call of the one sort that is not recorded, or a remark that is about no call.
Along with this goes which calls an operation may make and with which failures it may end.
-/

set_option autoImplicit false

namespace EniForwarding

/-- What a record says about an action, apart from the circumstances. -/
structure Audit.Notice where
  action : String
  object : Option String
  outcome : Audit.Outcome
  error : Option String
  deriving DecidableEq

def Audit.Record.notice (r : Audit.Record) : Audit.Notice := ⟨r.action, r.objectId, r.outcome, r.error⟩

namespace Call

def subject? : Call → Option (String × String)
  | .setTableType .. => none
  | .setTable name _ => some ("create_acl_table", name)
  | .setRule key _ => some ("install_rule", key)
  | .deleteRule key => some ("remove_rule", key)
  | .createTunnel hop => some ("create_tunnel_nh", hop.render)
  | .removeTunnel hop => some ("remove_tunnel_nh", hop.render)

def failure : Call → String → Failure
  | .setTableType name _, message => .aclRefused ("table type " ++ name ++ ": " ++ message)
  | .setTable name _, message => .aclRefused ("table " ++ name ++ ": " ++ message)
  | .setRule key _, message => .aclRefused ("set rule " ++ key ++ ": " ++ message)
  | .deleteRule key, message => .aclRefused ("delete rule " ++ key ++ ": " ++ message)
  | .createTunnel hop, message => .tunnelRefused ("create " ++ hop.render ++ ": " ++ message)
  | .removeTunnel hop, message => .tunnelRefused ("remove " ++ hop.render ++ ": " ++ message)

/-- What is to be recorded of a call that was refused with a message, or carried out. -/
def notice? (call : Call) : Option String → Option Audit.Notice
  | none => call.subject?.map fun (action, object) => ⟨action, some object, .success, none⟩
  | some message => call.subject?.map fun (action, object) =>
    ⟨action, some object, .failure, some (call.failure message).message⟩

theorem failure_passes (call : Call) (message : String) : (call.failure message).isRetryable = true := by
  cases call <;> rfl

end Call

/-- The event is about no call and no entry. -/
def Event.Remark : Event → Prop
  | .asked _ | .joined _ | .left _ _ => True
  | .audited r => r.action = "initialize"
  | .called _ _ => False

/-- What is told at once, the newest event first. -/
inductive Episode (may : Call → Prop) : History → Prop
  | recorded {call : Call} {refusal : Option String} {r : Audit.Record} (allowed : may call)
      (notice : call.notice? refusal = some r.notice) :
      Episode may [.audited r, .called call refusal]
  | unrecorded {call : Call} (refusal : Option String) (allowed : may call)
      (silent : call.subject? = none) : Episode may [.called call refusal]
  | remark {e : Event} (remark : e.Remark) : Episode may [e]

inductive Told (may : Call → Prop) : History → Prop
  | nothing : Told may []
  | also {new earlier : History} (episode : Episode may new) (told : Told may earlier) :
      Told may (new ++ earlier)

namespace Told

variable {may may' : Call → Prop} {h later earlier : History}

theorem single (episode : Episode may h) : Told may h := by
  have one : Told may (h ++ []) := .also episode .nothing
  rwa [List.append_nil] at one

theorem append (told : Told may later) (before : Told may earlier) : Told may (later ++ earlier) := by
  induction told with
  | nothing => exact before
  | also episode _ ih =>
    rw [List.append_assoc]
    exact .also episode ih

theorem weaken (told : Told may h) (weaker : ∀ call, may call → may' call) : Told may' h := by
  induction told with
  | nothing => exact .nothing
  | also episode _ ih =>
    refine .also ?_ ih
    cases episode with
    | recorded allowed notice => exact .recorded (weaker _ allowed) notice
    | unrecorded refusal allowed silent => exact .unrecorded refusal (weaker _ allowed) silent
    | remark remark => exact .remark remark

theorem allowed (told : Told may h) {call : Call} {refusal : Option String}
    (member : .called call refusal ∈ h) : may call := by
  induction told with
  | nothing => cases member
  | also episode _ ih =>
    rcases List.mem_append.1 member with new | before
    · cases episode with
      | recorded allowed =>
        simp only [List.mem_cons, reduceCtorEq, Event.called.injEq, false_or, List.not_mem_nil,
          or_false] at new
        exact new.1 ▸ allowed
      | unrecorded refusal allowed =>
        cases List.mem_singleton.1 new
        exact allowed
      | remark remark =>
        cases List.mem_singleton.1 new
        exact remark.elim
    · exact ih before

end Told

namespace Context

/-- The trace has gone on, and all that is new in it is told. -/
def Tells (may : Call → Prop) (c c' : Context) : Prop :=
  ∃ later, c'.env.trace = later ++ c.env.trace ∧ Told may later

variable {may may' : Call → Prop} {c c' : Context}

theorem Tells.of_eq (same : c'.env.trace = c.env.trace) : c.Tells may c' := ⟨[], same, .nothing⟩

instance : Std.Refl (Tells may) := ⟨fun _ => .of_eq rfl⟩

instance : IsTrans Context (Tells may) := by
  constructor
  rintro c c' c'' ⟨first, trace, told⟩ ⟨second, trace', told'⟩
  exact ⟨second ++ first, by rw [trace', trace, List.append_assoc], told'.append told⟩

theorem Tells.weaken (tells : c.Tells may c') (weaker : ∀ call, may call → may' call) :
    c.Tells may' c' := by
  obtain ⟨later, trace, told⟩ := tells
  exact ⟨later, trace, told.weaken weaker⟩

theorem tells_noted (c : Context) {e : Event} (remark : e.Remark) : c.Tells may (c.noted e) :=
  ⟨[e], rfl, .single (.remark remark)⟩

end Context

namespace Action

open Context (Tells)

/-- In every state, all that is new in the trace afterwards is told, only these calls are made,
and only with these failures does the action end. The context is a part of the state. -/
def Attests {σ α : Type} (ctx : σ → Context) (may : Call → Prop) (fails : Failure → Prop)
    (x : Action σ α) : Prop :=
  ∀ s, (ctx s).Tells may (ctx (x s).2) ∧ ∀ e, (x s).1 = .error e → fails e

namespace Attests

variable {σ α β : Type} {ctx : σ → Context} {may : Call → Prop} {fails : Failure → Prop}
  {x : Action σ α} {f : α → Action σ β}

theorem weaken {may' : Call → Prop} {fails' : Failure → Prop} (attests : x.Attests ctx may fails)
    (calls : ∀ call, may call → may' call) (failures : ∀ e, fails e → fails' e) :
    x.Attests ctx may' fails' :=
  fun s => ⟨(attests s).1.weaken calls, fun e failed => failures e ((attests s).2 e failed)⟩

theorem pure (a : α) : (pure a : Action σ α).Attests ctx may fails :=
  fun s => ⟨refl (ctx s), by simp⟩

theorem fail {e : Failure} (fits : fails e) : (Action.fail e : Action σ α).Attests ctx may fails :=
  fun s => ⟨refl (ctx s), by simpa using fits⟩

theorem lift {r : Except Failure α} (fits : ∀ e, r = .error e → fails e) :
    (Action.lift r : Action σ α).Attests ctx may fails :=
  fun s => ⟨refl (ctx s), fits⟩

theorem modify {g : σ → σ} (tells : ∀ s, (ctx s).Tells may (ctx (g s))) :
    (Action.modify g).Attests ctx may fails :=
  fun s => ⟨tells s, by simp⟩

theorem bind (first : x.Attests ctx may fails) (second : ∀ a, (f a).Attests ctx may fails) :
    (x >>= f).Attests ctx may fails := by
  intro s
  have first := first s
  rw [run_bind]
  generalize x s = outcome at first ⊢
  obtain ⟨e | a, s'⟩ := outcome
  · exact ⟨first.1, fun e' same => first.2 e' (by cases same; rfl)⟩
  · exact ⟨IsTrans.trans _ _ _ first.1 (second a s').1, (second a s').2⟩

theorem get_bind {f : σ → Action σ β} (second : ∀ s, (f s).Attests ctx may fails) :
    (Action.get >>= f).Attests ctx may fails :=
  fun s => second s s

theorem onSecond {ρ : Type} {x : Action Context α} (attests : x.Attests id may fails) :
    (Action.onSecond x : Action (ρ × Context) α).Attests Prod.snd may fails :=
  fun s => attests s.2

theorem both {x y : Action σ Unit} (first : x.Attests ctx may fails)
    (second : y.Attests ctx may fails) : (Action.both x y).Attests ctx may fails := by
  intro s
  refine ⟨IsTrans.trans _ _ _ (first s).1 (second (x s).2).1, fun e failed => ?_⟩
  have failed : firstFailure (x s).1 (y (x s).2).1 = .error e := failed
  cases outcome : (x s).1 with
  | error e' =>
    rw [outcome] at failed
    cases failed
    exact (first s).2 e outcome
  | ok _ =>
    rw [outcome] at failed
    exact (second (x s).2).2 e failed

theorem visit {g : α → Action σ Unit} (attests : ∀ a, (g a).Attests ctx may fails) (items : List α) :
    (Action.visit g items).Attests ctx may fails := by
  induction items with
  | nil => exact .pure ()
  | cons a rest ih => exact .both (attests a) ih

theorem sweep {ρ : Type} {x : Action (ρ × Context) Unit} (attests : x.Attests Prod.snd may fails) :
    (Action.sweep x).Attests Prod.snd may fails := by
  rintro ⟨rules, c⟩
  induction rules generalizing c with
  | nil =>
    rw [sweep_nil]
    exact ⟨refl c, by simp⟩
  | cons r rest ih =>
    rw [run_sweep_cons]
    have head := attests (r, c)
    have tail := ih (x (r, c)).2.2
    refine ⟨IsTrans.trans _ _ _ head.1 tail.1, fun e failed => ?_⟩
    dsimp only at failed
    cases outcome : (x (r, c)).1 with
    | error e' =>
      rw [outcome] at failed
      cases failed
      exact head.2 e outcome
    | ok _ =>
      rw [outcome] at failed
      exact tail.2 e failed

end Attests

/-- The action is one call: either it is refused, and that is told, or it is carried out, and
nothing is told of it yet. -/
def Calls {σ : Type} (ctx : σ → Context) (may : Call → Prop) (call : Call) (x : Action σ Unit) : Prop :=
  ∀ s, (∃ e s', x s = (.error e, s') ∧ (ctx s).Tells may (ctx s') ∧ e.isRetryable = true) ∨
    ∃ s', x s = (.ok (), s') ∧ (ctx s').env.trace = .called call none :: (ctx s).env.trace

theorem Calls.onSecond {ρ : Type} {may : Call → Prop} {call : Call} {x : Action Context Unit}
    (calls : x.Calls id may call) :
    (Action.onSecond x : Action (ρ × Context) Unit).Calls Prod.snd may call := by
  intro s
  rcases calls s.2 with ⟨e, c, run, tells, passes⟩ | ⟨c, run, trace⟩
  · exact .inl ⟨e, (s.1, c), by simp only [Action.onSecond, run], tells, passes⟩
  · exact .inr ⟨(s.1, c), by simp only [Action.onSecond, run], trace⟩

theorem Calls.recorded {σ α : Type} {ctx : σ → Context} {may : Call → Prop} {fails : Failure → Prop}
    {call : Call} {x : Action σ Unit} {f : Unit → Action σ α} (calls : x.Calls ctx may call)
    (allowed : may call) (passing : ∀ e, e.isRetryable = true → fails e)
    (records : ∀ s, ∃ r s' y, call.notice? none = some r.notice ∧
      (ctx s').env.trace = .audited r :: (ctx s).env.trace ∧ f () s = y s' ∧
      Action.Attests (α := α) ctx may fails y) :
    (x >>= f).Attests ctx may fails := by
  intro s
  rw [run_bind]
  rcases calls s with ⟨e, s', run, tells, passes⟩ | ⟨s', run, trace⟩
  · rw [run]
    refine ⟨tells, fun e' same => ?_⟩
    cases same
    exact passing e passes
  · rw [run]
    obtain ⟨r, s'', y, notice, trace', goesOn, attests⟩ := records s'
    have told : (ctx s).Tells may (ctx s'') :=
      ⟨[.audited r, .called call none], by rw [trace', trace]; rfl, .single (.recorded allowed notice)⟩
    dsimp only
    rw [goesOn]
    exact ⟨IsTrans.trans _ _ _ told (attests s'').1, (attests s'').2⟩

/-- Work on rules: no call on tables is made, and all failures may pass. -/
abbrev Works {σ α : Type} (ctx : σ → Context) (x : Action σ α) : Prop :=
  x.Attests ctx (·.isTable = false) (·.isRetryable = true)

end Action

namespace Context

open EniForwarding.Action (Attests Calls Works)

variable {may : Call → Prop} {fails : Failure → Prop}

theorem auditFailure_calls {call : Call} {x : Action Context Unit} {r : Audit.Record}
    (allowed : may call)
    (called : ∀ c, (∃ message, x c = (.error (call.failure message), c.refused call message)) ∨
      ∃ c', x c = (.ok (), c') ∧ c'.env.trace = .called call none :: c.env.trace)
    (notice : ∀ message, call.notice? (some message) =
      some (r.withError (call.failure message).message).notice) :
    (auditFailure r x).Calls id may call := by
  intro c
  unfold auditFailure Action.onFailure
  rcases called c with ⟨message, run⟩ | ⟨c', run, trace⟩
  · refine .inl ⟨call.failure message, (c.refused call message).noted (.audited
      (r.withError (call.failure message).message)), by simp only [run]; rfl, ?_,
      call.failure_passes message⟩
    exact ⟨[_, _], rfl, .single (.recorded allowed (notice message))⟩
  · exact .inr ⟨c', by simp only [run], trace⟩

theorem call_called (call : Call) (c : Context) :
    (∃ message, Context.call call call.failure c =
        (.error (call.failure message), c.refused call message)) ∨
      ∃ c', Context.call call call.failure c = (.ok (), c') ∧
        c'.env.trace = .called call none :: c.env.trace := by
  rcases c.call_cases call call.failure with ⟨message, run⟩ | ⟨switch, -, run⟩
  · exact .inl ⟨message, run⟩
  · exact .inr ⟨_, run, rfl⟩

theorem counted_called (call : Call) {count : Context → Context}
    (same : ∀ c, (count c).env.trace = c.env.trace) (c : Context) :
    (∃ message, (Context.call call call.failure >>= fun _ => Action.modify count) c =
        (.error (call.failure message), c.refused call message)) ∨
      ∃ c', (Context.call call call.failure >>= fun _ => Action.modify count) c = (.ok (), c') ∧
        c'.env.trace = .called call none :: c.env.trace := by
  rcases c.call_called call with ⟨message, run⟩ | ⟨c', run, trace⟩
  · exact .inl ⟨message, by rw [Action.run_bind, run]⟩
  · refine .inr ⟨count c', by rw [Action.run_bind, run]; rfl, ?_⟩
    rw [same, trace]

theorem alias_attests (ip : Net.Address) : (Context.«alias» ip).Attests id may fails := by
  intro c
  have looked : (c.env.«alias» ip).2.trace = c.env.trace := rfl
  unfold Context.«alias»
  split
  · exact ⟨refl c, by simp⟩
  · generalize c.env.«alias» ip = found at looked
    obtain ⟨_ | name, env⟩ := found <;> exact ⟨.of_eq looked, by simp⟩

theorem reach_attests (ip : Net.Address) : (NextHop.reach ip).Attests id may fails := by
  refine .bind (alias_attests ip) fun name => ?_
  split
  · exact .pure _
  · refine .get_bind fun c => ?_
    split
    · exact .pure _
    · exact .bind (.modify fun c => c.tells_noted trivial) fun _ => .pure _

theorem findVip_works : findVip.Works id := by
  intro c
  unfold findVip
  split
  · exact ⟨refl c, by simp⟩
  · split
    · exact ⟨.of_eq rfl, by simp⟩
    · refine ⟨refl c, fun e same => ?_⟩
      cases same
      rfl

theorem createTunnel_works (hop : TunnelHop) : (createTunnel hop).Works id := by
  have calls : (auditFailure (tunnelRecord .resourceCreate "create_tunnel_nh" hop)
      (Context.call (.createTunnel hop) (Call.failure (.createTunnel hop)))).Calls id
        (·.isTable = false) (.createTunnel hop) :=
    auditFailure_calls rfl (call_called _) fun _ => rfl
  refine calls.recorded rfl (fun _ => id) fun c => ?_
  exact ⟨createdRecord hop c.env.switch.lastHandle, c.noted _, Action.modify fun c => { c with
      tunnels := c.tunnels.insert hop ⟨_, 0⟩, tunnelsCreated := c.tunnelsCreated.bump },
    rfl, rfl, rfl, .modify fun c => .of_eq rfl⟩

theorem removeTunnel_works (hop : TunnelHop) : (removeTunnel hop).Works id := by
  have calls : (auditFailure (tunnelRecord .resourceDelete "remove_tunnel_nh" hop)
      (Context.call (.removeTunnel hop) (Call.failure (.removeTunnel hop)))).Calls id
        (·.isTable = false) (.removeTunnel hop) :=
    auditFailure_calls rfl (call_called _) fun _ => rfl
  refine calls.recorded rfl (fun _ => id) fun c => ?_
  exact ⟨tunnelRecord .resourceDelete "remove_tunnel_nh" hop, c.noted _, Action.modify fun c =>
      { c with tunnels := c.tunnels.erase hop, tunnelsRemoved := c.tunnelsRemoved.bump },
    rfl, rfl, rfl, .modify fun c => .of_eq rfl⟩

theorem acquire_works (hop : TunnelHop) : (acquire hop).Works id := by
  have joins : ∀ (use : TunnelUse) (tunnels : SortedMap TunnelHop TunnelUse), (do
      Action.modify fun ctx => { ctx with tunnels := tunnels }
      onEnvironment (·.record (.joined hop))
      return use.handle : Action Context Nat).Works id := fun use tunnels =>
    .bind (.modify fun c => .of_eq rfl) fun _ =>
      .bind (.modify fun c => c.tells_noted trivial) fun _ => .pure use.handle
  unfold acquire
  refine .get_bind fun c => ?_
  dsimp only
  split
  · refine .get_bind fun c => ?_
    split
    · exact joins _ _
    · exact .fail rfl
  · refine .bind (createTunnel_works hop) fun _ => .get_bind fun c => ?_
    split
    · exact joins _ _
    · exact .fail rfl

theorem release_works (hop : TunnelHop) : (release hop).Works id := by
  refine .get_bind fun c => ?_
  split
  · exact .modify fun c => c.tells_noted trivial
  · split
    · split
      · exact .bind (.modify fun c => .of_eq rfl) fun _ => .modify fun c => c.tells_noted trivial
      · exact .fail rfl
    · exact .bind (removeTunnel_works hop) fun _ => .modify fun c => c.tells_noted trivial

end Context

open EniForwarding.Action (Attests Calls Works)

namespace NextHop

theorem resolve_works (hop : NextHop) : hop.resolve.Works id := by
  rcases hop with ⟨ip, resolved⟩ | ⟨ip, vnet, _ | tunnel⟩
  · exact .bind (Context.reach_attests ip) fun _ => .pure _
  · refine .get_bind fun c => ?_
    split
    · exact .pure _
    · exact .bind (Context.acquire_works _) fun _ => .pure _
  · exact .pure _

theorem release_works (hop : NextHop) : hop.release.Works id := by
  rcases hop with ⟨ip, resolved⟩ | ⟨ip, vnet, _ | tunnel⟩
  · exact .pure _
  · exact .pure _
  · exact .bind (Context.release_works _) fun _ => .pure _

end NextHop

namespace Rule

theorem update_works (f : Rule → Rule) : (update f).Works Prod.snd := .modify fun p => refl p.2

theorem uninstall_works (category : Audit.Category) : (uninstall category).Works Prod.snd := by
  refine .get_bind ?_
  rintro ⟨r, c⟩
  have calls : (Context.auditFailure (r.record category "remove_rule")
      (Context.deleteRule r.key)).Calls id (·.isTable = false) (.deleteRule r.key) :=
    Context.auditFailure_calls rfl
      (Context.counted_called (.deleteRule r.key) fun _ => rfl) fun _ => rfl
  refine calls.onSecond.recorded rfl (fun _ => id) fun q => ?_
  exact ⟨r.record category "remove_rule", (q.1, q.2.noted _),
    update fun r => { r with state := .uninstalled }, rfl, rfl, rfl, update_works _⟩

theorem dropNextHop_works : dropNextHop.Works Prod.snd := by
  refine .get_bind ?_
  rintro ⟨r, c⟩
  dsimp only
  split
  · exact .pure ()
  next hop _ => exact .bind (.onSecond hop.release_works) fun _ => update_works _

theorem retarget_works (t : Target) (vnet : String) : (retarget t vnet).Works Prod.snd :=
  .bind dropNextHop_works fun _ => update_works _

theorem install_works (a : EniAttributes) (change : Change) (redirect : String) :
    (install a change redirect).Works Prod.snd := by
  refine .bind (.onSecond Context.findVip_works) fun vip => .get_bind ?_
  rintro ⟨r, c⟩
  let written := fields r.role a c.basePriority vip redirect
  have calls : (Context.auditFailure (r.record .resourceCreate "install_rule")
      (Context.setRule r.key written)).Calls id (·.isTable = false) (.setRule r.key written) :=
    Context.auditFailure_calls rfl
      (Context.counted_called (.setRule r.key written) fun _ => rfl) fun _ => rfl
  refine calls.onSecond.recorded rfl (fun _ => id) fun q => ?_
  let told := (r.record .resourceCreate "install_rule").withDetails (.object [
    ("eni", .string a.key.render), ("redirect", .string redirect), ("update", .string change.name)])
  exact ⟨told, (q.1, q.2.noted (.audited told)), update fun r => { r with state := .installed },
    rfl, rfl, rfl, update_works _⟩

theorem settle_works (a : EniAttributes) (change : Change) : (settle a change).Works Prod.snd := by
  refine .get_bind ?_
  rintro ⟨r, c⟩
  dsimp only
  split
  · exact .pure ()
  next hop _ =>
    refine .bind (.onSecond hop.resolve_works) fun found => .bind (update_works _) fun _ => ?_
    split
    · exact install_works a change _
    · exact update_works _

theorem pursue_works (a : EniAttributes) (t : Target) : (pursue a t).Works Prod.snd := by
  have renews : ∀ change : Change,
      (do retarget t a.key.vnet; settle a change : Step Unit).Works Prod.snd := fun change =>
    .bind (retarget_works t _) fun _ => settle_works a change
  refine .get_bind ?_
  rintro ⟨r, c⟩
  dsimp only
  split
  · exact .pure ()
  · exact settle_works a .refresh
  · exact renews .create
  · split
    · exact .bind (uninstall_works _) fun _ => renews .move
    · exact renews .move

theorem fire_works (a : EniAttributes) : (fire a).Works Prod.snd := by
  refine .get_bind ?_
  rintro ⟨r, c⟩
  dsimp only
  split
  · exact .pure ()
  · split
    · exact pursue_works a _
    · split
      · exact update_works _
      · exact .pure ()

theorem destroy_works : destroy.Works Prod.snd := by
  refine .get_bind ?_
  rintro ⟨r, c⟩
  dsimp only
  split
  · exact .bind (uninstall_works _) fun _ => dropNextHop_works
  · exact dropNextHop_works

end Rule

namespace Eni

theorem fireAll_works : fireAll.Works Prod.snd := by
  rintro ⟨eni, c⟩
  have swept := Attests.sweep (Rule.fire_works eni.attributes) (eni.rules, c)
  rw [run_fireAll]
  generalize Action.sweep (Rule.fire eni.attributes) (eni.rules, c) = outcome at swept
  obtain ⟨_ | _, rules, c'⟩ := outcome <;> exact swept

theorem destroy_works : destroy.Works Prod.snd := by
  rintro ⟨eni, c⟩
  have swept := Attests.sweep Rule.destroy_works (eni.rules, c)
  rw [run_destroy]
  generalize Action.sweep Rule.destroy (eni.rules, c) = outcome at swept
  obtain ⟨_ | _, rules, c'⟩ := outcome
  · exact swept
  · exact ⟨swept.1, by simp⟩

theorem onNeighbor_works (added : Bool) : (onNeighbor added).Works Prod.snd := by
  unfold onNeighbor
  split
  · exact fireAll_works
  · exact .pure ()

theorem update_attests (fields : Fields) :
    (update fields).Attests Prod.snd (·.isTable = false) fun _ => True := by
  refine .bind (.lift fun _ _ => trivial) fun primary => .get_bind ?_
  rintro ⟨eni, c⟩
  dsimp only
  split
  · exact .pure ()
  · refine .bind (.modify fun p => refl p.2) fun _ => ?_
    exact fireAll_works.weaken (fun _ => id) fun _ _ => trivial

end Eni

namespace Reconciler

abbrev trace (s : Reconciler) : History := s.ctx.env.trace

variable {may : Call → Prop} {fails : Failure → Prop}

theorem onContext_attests {α : Type} {x : Action Context α} (attests : x.Attests id may fails) :
    (onContext x).Attests ctx may fails :=
  fun s => attests s.ctx

theorem onContext_calls {call : Call} {x : Action Context Unit} (calls : x.Calls id may call) :
    (onContext x).Calls ctx may call := by
  intro s
  rcases calls s.ctx with ⟨e, c, run, tells, passes⟩ | ⟨c, run, trace⟩
  · exact .inl ⟨e, { s with ctx := c }, by simp only [onContext, run], tells, passes⟩
  · exact .inr ⟨{ s with ctx := c }, by simp only [onContext, run], trace⟩

theorem onEni_attests {key : EniKey} {eni : Eni} {x : Eni.Step Unit}
    (attests : x.Attests Prod.snd may fails) : (onEni key eni x).Attests ctx may fails :=
  fun s => attests (eni, s.ctx)

theorem createTable_attests (allowed : ∀ name fields, may (.setTable name fields))
    (passing : ∀ e, e.isRetryable = true → fails e) : createTable.Attests ctx may fails := by
  refine .get_bind fun s => ?_
  let table := ((Acl.Table.ofType s.config.table s.config.tableType).withDescription
    Config.tableDescription).withPorts s.ctx.env.inventory.bindPoints.members
  let record := (((Audit.Record.begun .resourceCreate auditSource "create_acl_table").withOutcome
    .success).withObjectId table.name).withObjectType "acl_table"
  have calls : (Context.auditFailure record
      (Context.setTable table.name table.toFields)).Calls id may (.setTable table.name table.toFields) :=
    Context.auditFailure_calls (allowed _ _) (Context.call_called _) fun _ => rfl
  refine (onContext_calls calls).recorded (allowed _ _) passing fun s => ?_
  exact ⟨_, { s with ctx := s.ctx.noted _ }, Pure.pure (), rfl, rfl, rfl, .pure ()⟩

theorem watch_attests (dpu : Dpu) : (watch dpu).Attests ctx may fails := by
  unfold watch
  split
  · exact .pure ()
  · refine .bind (.modify fun s => refl s.ctx) fun _ => ?_
    exact .bind (onContext_attests (Context.reach_attests _)) fun _ => .pure ()

theorem watchAll_attests (dpus : List Dpu) : (dpus.forM watch : Step Unit).Attests ctx may fails := by
  induction dpus with
  | nil => exact .pure ()
  | cons dpu rest ih => exact .bind (watch_attests dpu) fun _ => ih

def createType : Step Unit := do
  let type := Acl.TableType.redirecting (← Action.get).config.tableType
  onContext (Context.setTableType type.name type.toFields)

def watchLocals (dpus : Nat) : Step Unit := do
  (← Action.get).ctx.dpus.locals.forM watch
  Action.modify fun s => { s with initialized := true }
  let owners := (← Action.get).owners.size
  onContext <| Context.audit <|
    ((Audit.Record.begun .systemLifecycle auditSource "initialize").withOutcome
      .success).withDetails <| .object [("dpus", .nat dpus), ("local_dpus", .nat owners)]

/-- Preparing goes in three steps: the type is written, then the table, then the DPUs are watched. -/
theorem ensureInitialized_of_unready {s : Reconciler} (unready : s.initialized = false) :
    ∃ dpus, ensureInitialized s =
      (createType >>= fun _ => createTable >>= fun _ => watchLocals dpus) s.load := by
  refine ⟨(Dpus.populate s.ctx.dpus s.ctx.env.inventory.dpuRows).1, ?_⟩
  rw [ensureInitialized, Action.run_bind, Action.run_get]
  simp only [unready]
  rfl

theorem setTableType_attests (allowed : ∀ name fields, may (.setTableType name fields))
    (passing : ∀ e, e.isRetryable = true → fails e) (name : String) (fields : Fields) :
    (Context.setTableType name fields).Attests id may fails := by
  intro c
  have told : ∀ refusal, Told may [.called (.setTableType name fields) refusal] := fun refusal =>
    .single (.unrecorded refusal (allowed name fields) rfl)
  have run : Context.setTableType name fields c =
    Context.call (.setTableType name fields) (Call.failure (.setTableType name fields)) c := rfl
  rw [run]
  rcases c.call_called (.setTableType name fields) with ⟨message, run⟩ | ⟨c', run, trace⟩
  · rw [run]
    refine ⟨⟨_, rfl, told (some message)⟩, fun e same => ?_⟩
    cases same
    exact passing _ rfl
  · rw [run]
    exact ⟨⟨[_], trace, told none⟩, by simp⟩

theorem createType_attests (allowed : ∀ name fields, may (.setTableType name fields))
    (passing : ∀ e, e.isRetryable = true → fails e) : createType.Attests ctx may fails :=
  .get_bind fun _ => onContext_attests (setTableType_attests allowed passing _ _)

theorem watchLocals_attests (dpus : Nat) : (watchLocals dpus).Attests ctx may fails := by
  refine .get_bind fun s => .bind (watchAll_attests _) fun _ => .bind (.modify fun s => refl s.ctx) ?_
  exact fun _ => .get_bind fun s => onContext_attests (.modify fun c => c.tells_noted rfl)

theorem ensureInitialized_attests :
    ensureInitialized.Attests ctx (·.isTable = true) (·.isRetryable = true) := by
  intro s
  cases ready : s.initialized with
  | true =>
    rw [ensureInitialized_of_ready ready]
    exact ⟨refl s.ctx, by simp⟩
  | false =>
    obtain ⟨dpus, run⟩ := ensureInitialized_of_unready ready
    have steps : (createType >>= fun _ => createTable >>= fun _ => watchLocals dpus).Attests ctx
        (·.isTable = true) (·.isRetryable = true) :=
      .bind (createType_attests (fun _ _ => rfl) fun _ => id) fun _ =>
        .bind (createTable_attests (fun _ _ => rfl) fun _ => id) fun _ => watchLocals_attests dpus
    rw [run]
    exact steps s.load

theorem create_works (key : EniKey) (eni : Eni) : (create key eni).Works ctx := by
  intro s
  have fired := Eni.fireAll_works (eni, s.ctx)
  unfold create
  generalize Eni.fireAll (eni, s.ctx) = outcome at fired
  obtain ⟨e | _, eni', c⟩ := outcome
  · have destroyed := (Eni.destroy_works (eni', c)).1
    have told := IsTrans.trans _ _ _ fired.1 destroyed
    dsimp only
    generalize Eni.destroy (eni', c) = outcome at told
    obtain ⟨_ | _, eni'', c'⟩ := outcome <;> exact ⟨told, fired.2⟩
  · exact ⟨fired.1, by simp⟩

theorem delete_works (key : EniKey) : (delete key).Works ctx := by
  refine .get_bind fun s => ?_
  split
  · exact .pure ()
  · exact .bind (onEni_attests Eni.destroy_works) fun _ => .modify fun s => refl s.ctx

theorem wake_works (added : Bool) (key : EniKey) : (wake added key).Works ctx := by
  refine .get_bind fun s => ?_
  split
  · exact .pure ()
  · exact onEni_attests (Eni.onNeighbor_works added)

theorem onNeighbor_works (u : NeighborUpdate) : (onNeighbor u).Works ctx := by
  refine .get_bind fun s => ?_
  split
  · exact .pure ()
  · refine .bind (.modify fun s => refl s.ctx) fun _ => .get_bind fun s => ?_
    exact .visit (fun key => wake_works u.added key) _

/-- What a write does when all is prepared. -/
def write (key : EniKey) (fields : Fields) : Step Unit := do
  let s ← Action.get
  match s.enis.get? key with
  | some eni =>
    onEni key eni (Eni.update fields)
    Action.modify fun s => { s with enisUpdated := s.enisUpdated.bump }
  | none =>
    let eni ← Action.lift (Eni.declare key fields s.ctx)
    create key eni

theorem set_eq (key : EniKey) (fields : Fields) :
    set key fields = ensureInitialized >>= fun _ => write key fields := rfl

theorem write_attests (key : EniKey) (fields : Fields) :
    (write key fields).Attests ctx (·.isTable = false) fun _ => True := by
  refine .get_bind fun s => ?_
  split
  · refine .bind (onEni_attests (Eni.update_attests fields)) fun _ => ?_
    exact .modify fun s => refl s.ctx
  · refine .bind (.lift fun _ _ => trivial) fun eni => ?_
    exact (create_works key eni).weaken (fun _ => id) fun _ _ => trivial

theorem set_attests (key : EniKey) (fields : Fields) :
    (set key fields).Attests ctx (fun _ => True) fun _ => True := by
  rw [set_eq]
  apply Attests.bind
  · exact ensureInitialized_attests.weaken (fun _ _ => trivial) fun _ _ => trivial
  · exact fun _ => (write_attests key fields).weaken (fun _ _ => trivial) fun _ _ => trivial

theorem follow_attests (entry : Entry) :
    (follow entry).Attests ctx (fun _ => True) fun _ => True := by
  refine .get_bind fun s => .bind (.lift fun _ _ => trivial) fun key => ?_
  split
  · exact set_attests key entry.fields
  · exact (delete_works key).weaken (fun _ _ => trivial) fun _ _ => trivial

end Reconciler

end EniForwarding
