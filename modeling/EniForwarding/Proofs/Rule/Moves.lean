import EniForwarding.Rule
import EniForwarding.Proofs.Context

/-! What firing and destroying a rule is made of.

Work on one rule is a sequence of moves. A move changes the rule, the switch and the
users of the tunnel next hops together, so that no move leaves them out of step. While
a rule is installed it can only be uninstalled: what it holds is given back and taken
when it is off the switch.
-/

set_option autoImplicit false

namespace EniForwarding

open Relation

/-- What no update changes: everything but the primary. -/
def EniAttributes.lasting (a : EniAttributes) : EniAttributes := { a with primary := 0 }

namespace Context

def installed (c : Context) (key : String) (fields : Fields) (switch : Switch) : Context :=
  { c with
    env := c.env.accepted (.setRule key fields) switch
    rulesInstalled := c.rulesInstalled.bump }

def uninstalled (c : Context) (key : String) (switch : Switch) : Context :=
  { c with
    env := c.env.accepted (.deleteRule key) switch
    rulesUninstalled := c.rulesUninstalled.bump }

theorem setRule_cases (c : Context) (key : String) (fields : Fields) :
    (∃ message e, setRule key fields c = (.error e, c.refused (.setRule key fields) message)) ∨
      ∃ switch, c.env.switch.perform (.setRule key fields) = .ok switch ∧
        setRule key fields c = (.ok (), c.installed key fields switch) := by
  have called := c.call_cases (.setRule key fields) fun message =>
    .aclRefused ("set rule " ++ key ++ ": " ++ message)
  unfold setRule
  rw [Action.run_bind]
  rcases called with ⟨message, run⟩ | ⟨switch, done, run⟩
  · exact .inl ⟨message, _, by rw [run]⟩
  · exact .inr ⟨switch, done, by rw [run]; rfl⟩

theorem deleteRule_cases (c : Context) (key : String) :
    (∃ message e, deleteRule key c = (.error e, c.refused (.deleteRule key) message)) ∨
      ∃ switch, c.env.switch.perform (.deleteRule key) = .ok switch ∧
        deleteRule key c = (.ok (), c.uninstalled key switch) := by
  have called := c.call_cases (.deleteRule key) fun message =>
    .aclRefused ("delete rule " ++ key ++ ": " ++ message)
  unfold deleteRule
  rw [Action.run_bind]
  rcases called with ⟨message, run⟩ | ⟨switch, done, run⟩
  · exact .inl ⟨message, _, by rw [run]⟩
  · exact .inr ⟨switch, done, by rw [run]; rfl⟩

end Context

namespace Rule

def hop? (r : Rule) : Option TunnelHop := r.nextHop.bind NextHop.hop?

/-- An installed rule leads somewhere. -/
def Sound (r : Rule) : Prop :=
  r.state = .installed → ∃ hop, r.nextHop = some hop ∧ hop.isResolved = true

/-- A call that may be made while a rule is worked on. -/
def Due (r : Rule) (c : Context) : Call → Prop
  | .setTableType .. | .setTable .. => False
  | .setRule key _ => key = r.key ∧ r.state ≠ .installed
  | .deleteRule key => key = r.key ∧ r.state = .installed
  | .createTunnel hop => c.tunnels.get? hop = none
  | .removeTunnel hop => ∃ use, c.tunnels.get? hop = some use

/-- One change that work on a rule of this owner makes. -/
inductive Move (owner : EniAttributes) : Rule × Context → Rule × Context → Prop
  | quiet (r : Rule) {c c' : Context} (quiet : c.Quiet c') : Move owner (r, c) (r, c')
  | refused {r : Rule} {c : Context} {call : Call} (message : String) (due : r.Due c call) :
      Move owner (r, c) (r, c.refused call message)
  /-- A rule that is off the switch changes without touching what it holds. -/
  | adjust {r r' : Rule} (c : Context) (named : r'.key = r.key ∧ r'.role = r.role)
      (off : r.state ≠ .installed ∧ r'.state ≠ .installed) (held : r'.hop? = r.hop?) :
      Move owner (r, c) (r', c)
  | uninstall {r : Rule} {c : Context} {switch : Switch} (on : r.state = .installed)
      (done : c.env.switch.perform (.deleteRule r.key) = .ok switch) :
      Move owner (r, c) ({ r with state := .uninstalled }, c.uninstalled r.key switch)
  | install {r : Rule} {c : Context} {hop : NextHop} {vip : Net.Prefix} {switch : Switch}
      (off : r.state ≠ .installed) (leads : r.nextHop = some hop) (resolved : hop.isResolved = true)
      (known : c.vip = some vip)
      (done : c.env.switch.perform
        (.setRule r.key (fields r.role owner c.basePriority vip hop.target)) = .ok switch) :
      Move owner (r, c) ({ r with state := .installed },
        c.installed r.key (fields r.role owner c.basePriority vip hop.target) switch)
  | join {r : Rule} {c : Context} {hop : NextHop} {tunnel : TunnelHop} {use : TunnelUse}
      (off : r.state ≠ .installed) (free : r.hop? = none) (holds : hop.hop? = some tunnel)
      (known : c.tunnels.get? tunnel = some use) :
      Move owner (r, c) ({ r with nextHop := some hop }, c.joined tunnel use)
  | found {r : Rule} {c : Context} {hop : NextHop} {tunnel : TunnelHop} {switch : Switch}
      (off : r.state ≠ .installed) (free : r.hop? = none) (holds : hop.hop? = some tunnel)
      (unknown : c.tunnels.get? tunnel = none)
      (done : c.env.switch.perform (.createTunnel tunnel) = .ok switch) :
      Move owner (r, c) ({ r with nextHop := some hop }, c.founded tunnel switch)
  | leave {r : Rule} {c : Context} {tunnel : TunnelHop} {use : TunnelUse}
      (off : r.state ≠ .installed) (held : r.hop? = some tunnel)
      (known : c.tunnels.get? tunnel = some use) (shared : 1 < use.refs) :
      Move owner (r, c) ({ r with nextHop := none }, c.left tunnel use)
  | abandon {r : Rule} {c : Context} {tunnel : TunnelHop} {use : TunnelUse} {switch : Switch}
      (off : r.state ≠ .installed) (held : r.hop? = some tunnel)
      (known : c.tunnels.get? tunnel = some use) (last : ¬ 1 < use.refs)
      (done : c.env.switch.perform (.removeTunnel tunnel) = .ok switch) :
      Move owner (r, c) ({ r with nextHop := none }, c.abandoned tunnel switch)
  | stray {r : Rule} {c : Context} {tunnel : TunnelHop} (off : r.state ≠ .installed)
      (held : r.hop? = some tunnel) (unknown : c.tunnels.get? tunnel = none) :
      Move owner (r, c) ({ r with nextHop := none }, c.noted (.left tunnel false))

theorem Move.fixed {owner : EniAttributes} {p p' : Rule × Context} (move : Move owner p p') :
    p'.1.key = p.1.key ∧ p'.1.role = p.1.role := by
  cases move with
  | adjust c named => exact named
  | _ => exact ⟨rfl, rfl⟩

theorem Move.sound {owner : EniAttributes} {p p' : Rule × Context} (move : Move owner p p')
    (sound : p.1.Sound) : p'.1.Sound := by
  cases move with
  | quiet | refused => exact sound
  | adjust c named off => exact fun on => absurd on off.2
  | uninstall => exact fun on => by cases on
  | install off leads resolved => exact fun _ => ⟨_, leads, resolved⟩
  | join off | found off | leave off | abandon off | stray off => exact fun on => absurd on off

theorem Move.settled {owner : EniAttributes} {r r' : Rule} {c c' : Context}
    (move : Move owner (r, c) (r', c')) : c'.table = c.table ∧ c'.basePriority = c.basePriority ∧
    ∀ known, c.vip = some known → c'.vip = some known := by
  cases move with
  | quiet _ quiet => exact ⟨quiet.fixed.1, quiet.fixed.2, quiet.vip⟩
  | _ => exact ⟨rfl, rfl, fun _ => id⟩

abbrev Moves (owner : EniAttributes) : Rule × Context → Rule × Context → Prop :=
  ReflTransGen (Move owner)

theorem Moves.fixed {owner : EniAttributes} {p p' : Rule × Context} (moves : Moves owner p p') :
    p'.1.key = p.1.key ∧ p'.1.role = p.1.role := by
  induction moves with
  | refl => exact ⟨rfl, rfl⟩
  | tail _ move ih => exact ⟨move.fixed.1.trans ih.1, move.fixed.2.trans ih.2⟩

theorem Moves.sound {owner : EniAttributes} {p p' : Rule × Context} (moves : Moves owner p p')
    (sound : p.1.Sound) : p'.1.Sound := by
  induction moves with
  | refl => exact sound
  | tail _ move ih => exact move.sound ih

theorem Moves.of_quiet {owner : EniAttributes} (r : Rule) {c c' : Context}
    (quiet : ReflTransGen Context.Quiet c c') : Moves owner (r, c) (r, c') :=
  ReflTransGen.lift (fun c => (r, c)) (fun _ _ step => Move.quiet r step) _ _ quiet

section work

variable {owner : EniAttributes} {r : Rule} {c : Context}

theorem leads_onSecond {α : Type} {x : Action Context α} {after : α → Context → Prop}
    (quietly : Context.Quietly x c after) :
    (Action.onSecond x : Step α).Leads (Moves owner) (r, c) fun a p => p.1 = r ∧ after a p.2 :=
  ⟨.of_quiet r quietly.1, fun a success => ⟨rfl, quietly.2 a success⟩⟩

theorem uninstall_cases (category : Audit.Category) (r : Rule) (c : Context) :
    (∃ message e record, uninstall category (r, c) =
        (.error e, r, (c.refused (.deleteRule r.key) message).noted (.audited record))) ∨
      ∃ switch, c.env.switch.perform (.deleteRule r.key) = .ok switch ∧
        uninstall category (r, c) = (.ok (), { r with state := .uninstalled },
          (c.uninstalled r.key switch).noted (.audited (r.record category "remove_rule"))) := by
  rcases c.deleteRule_cases r.key with ⟨message, e, run⟩ | ⟨switch, done, run⟩
  · refine .inl ⟨message, e, (r.record category "remove_rule").withError e.message, ?_⟩
    simp only [uninstall, Action.run_bind, Action.run_get, Action.onSecond, Context.auditFailure,
      Action.onFailure, run]
    rfl
  · refine .inr ⟨switch, done, ?_⟩
    simp only [uninstall, Action.run_bind, Action.run_get, Action.onSecond, Context.auditFailure,
      Action.onFailure, run]
    rfl

theorem uninstall_leads (category : Audit.Category) (on : r.state = .installed) :
    (uninstall category).Leads (Moves owner) (r, c) fun _ p =>
      p.1 = { r with state := .uninstalled } := by
  rcases uninstall_cases category r c with ⟨message, e, record, lost⟩ | ⟨switch, done, carried⟩
  · have due : r.Due c (.deleteRule r.key) := ⟨rfl, on⟩
    refine .of_error lost (.tail (.single (.refused message due)) (.quiet r ?_))
    exact .note _ (.audited _) trivial
  · refine .of_ok carried (.tail (.single (.uninstall on done)) (.quiet _ ?_)) rfl
    exact .note _ (.audited _) trivial

theorem run_dropNextHop {hop : NextHop} (leads : r.nextHop = some hop) (c : Context) :
    dropNextHop (r, c) = match hop.release c with
      | (.ok _, c) => (.ok (), { r with nextHop := none }, c)
      | (.error e, c) => (.error e, r, c) := by
  simp only [dropNextHop, Action.run_bind, Action.run_get, leads, Action.onSecond]
  rcases hop.release c with ⟨result, c'⟩
  cases result <;> rfl

theorem dropNextHop_of_none (free : r.nextHop = none) (c : Context) :
    dropNextHop (r, c) = (.ok (), r, c) := by
  simp only [dropNextHop, Action.run_bind, Action.run_get, free]
  rfl

theorem dropNextHop_leads (off : r.state ≠ .installed) :
    dropNextHop.Leads (Moves owner) (r, c) fun _ p => p.1 = { r with nextHop := none } := by
  cases leads : r.nextHop with
  | none =>
    exact .of_ok (dropNextHop_of_none leads c) .refl (by rw [← leads])
  | some hop =>
    have run := run_dropNextHop leads c
    -- what is held decides whether there is anything to give back
    have nothing : hop.hop? = none → hop.release c = (.ok hop, c) →
        dropNextHop.Leads (Moves owner) (r, c) fun _ p => p.1 = { r with nextHop := none } := by
      intro free idle
      rw [idle] at run
      refine .of_ok run (.single (.adjust c ⟨rfl, rfl⟩ ⟨off, off⟩ ?_)) rfl
      simp [hop?, leads, free]
    rcases hop with ⟨ip, resolved⟩ | ⟨ip, vnet, _ | tunnel⟩
    · exact nothing rfl rfl
    · exact nothing rfl rfl
    · have held : r.hop? = some ⟨ip, tunnel⟩ := by simp [hop?, leads, NextHop.hop?]
      simp only [NextHop.release, Action.run_bind] at run
      cases known : c.tunnels.get? ⟨ip, tunnel⟩ with
      | none =>
        rw [Context.release_unknown known] at run
        exact .of_ok run (.single (.stray off held known)) rfl
      | some use =>
        by_cases shared : 1 < use.refs
        · rw [Context.release_shared known shared] at run
          exact .of_ok run (.single (.leave off held known shared)) rfl
        · rcases Context.release_last known shared with
            ⟨message, record, refusal⟩ | ⟨switch, done, carried⟩
          · rw [refusal] at run
            have due : r.Due c (.removeTunnel ⟨ip, tunnel⟩) := ⟨use, known⟩
            refine .of_error run (.tail (.single (.refused message due)) (.quiet r ?_))
            exact .note _ (.audited record) trivial
          · rw [carried] at run
            exact .of_ok run (.single (.abandon off held known shared done)) rfl

theorem retarget_leads (t : Target) (vnet : String) (off : r.state ≠ .installed) :
    (retarget t vnet).Leads (Moves owner) (r, c) fun _ p =>
      p.1 = { r with nextHop := some (.toward t.placement t.address vnet) } := by
  refine .bind (dropNextHop_leads off) ?_
  rintro - ⟨r', c'⟩ rfl
  refine .modify (.single (.adjust c' ⟨rfl, rfl⟩ ⟨off, off⟩ ?_)) rfl
  cases placed : t.placement <;> simp [hop?, NextHop.toward, NextHop.hop?]

theorem quietly_reach (ip : Net.Address) (c : Context) :
    Context.Quietly (NextHop.reach ip) c fun _ _ => True := by
  refine .bind (Context.quietly_alias ip c) ?_
  rintro (- | name) c' -
  · exact .pure trivial
  · refine .get_bind ?_
    split
    · exact .pure trivial
    · exact .bind (Context.quietly_ask _ c') fun _ _ _ => .pure trivial

/-- A rule that is off the switch takes hold of a tunnel next hop together with its next
hop, or of none. -/
theorem resolve_moves {hop : NextHop} (off : r.state ≠ .installed) (leads : r.nextHop = some hop) :
    (∃ e c', hop.resolve c = (.error e, c') ∧ Moves owner (r, c) (r, c')) ∨
      ∃ hop' c', hop.resolve c = (.ok hop', c') ∧
        Moves owner (r, c) ({ r with nextHop := some hop' }, c') := by
  -- without a tunnel there is nothing to take hold of, and the rule stays as it is
  have same : { r with nextHop := some hop } = r := by rw [← leads]
  rcases hop with ⟨ip, resolved⟩ | ⟨ip, vnet, _ | tunnel⟩
  · have quiet := (quietly_reach ip c).1
    simp only [NextHop.resolve, Action.run_bind]
    generalize NextHop.reach ip c = outcome at quiet
    obtain ⟨result, c'⟩ := outcome
    cases result with
    | error e => exact .inl ⟨e, c', rfl, Moves.of_quiet r quiet⟩
    | ok found =>
      refine .inr ⟨_, c', rfl, .tail (Moves.of_quiet r quiet)
        (.adjust c' ⟨rfl, rfl⟩ ⟨off, off⟩ ?_)⟩
      simp [hop?, leads, NextHop.hop?]
  · have free : r.hop? = none := by simp [hop?, leads, NextHop.hop?]
    simp only [NextHop.resolve, Action.run_bind, Action.run_get]
    cases c.env.inventory.tunnel? vnet with
    | none => exact .inr ⟨_, c, rfl, by rw [same]⟩
    | some tunnel =>
      simp only [Action.run_bind]
      cases known : c.tunnels.get? ⟨ip, tunnel⟩ with
      | some use =>
        rw [Context.acquire_known known]
        exact .inr ⟨_, _, rfl, .single (.join off free rfl known)⟩
      | none =>
        rcases Context.acquire_unknown known with
          ⟨message, record, refusal⟩ | ⟨switch, done, carried⟩
        · rw [refusal]
          have due : r.Due c (.createTunnel ⟨ip, tunnel⟩) := known
          refine .inl ⟨_, _, rfl, .tail (.single (.refused message due)) (.quiet r ?_)⟩
          exact .note _ (.audited record) trivial
        · rw [carried]
          exact .inr ⟨_, _, rfl, .single (.found off free rfl known done)⟩
  · exact .inr ⟨_, c, rfl, by rw [same]⟩

theorem install_leads (eni : EniAttributes) (change : Change) {hop : NextHop}
    (off : r.state ≠ .installed) (leads : r.nextHop = some hop) (resolved : hop.isResolved = true) :
    (install eni change hop.target).Leads (Moves eni.lasting) (r, c) fun _ _ => True := by
  refine .bind (leads_onSecond (Context.quietly_findVip c)) ?_
  rintro vip ⟨r', c'⟩ ⟨rfl, known⟩
  -- the fields do not tell the primary
  have fields_eq : fields r'.role eni c'.basePriority vip hop.target =
      fields r'.role eni.lasting c'.basePriority vip hop.target := rfl
  refine .get_bind ?_
  dsimp only at known ⊢
  rw [fields_eq]
  rcases c'.setRule_cases r'.key (fields r'.role eni.lasting c'.basePriority vip hop.target) with
    ⟨message, e, run⟩ | ⟨switch, done, run⟩
  · have due : r'.Due c' (.setRule r'.key
        (fields r'.role eni.lasting c'.basePriority vip hop.target)) := ⟨rfl, off⟩
    unfold Action.Leads
    simp only [Action.run_bind, Action.onSecond, Context.auditFailure, Action.onFailure, run]
    refine ⟨.tail (.single (.refused message due)) (.quiet r' ?_), fun _ _ => trivial⟩
    exact .note _ (.audited _) trivial
  · have installs : Move eni.lasting (r', c') _ := .install off leads resolved known done
    unfold Action.Leads
    simp only [Action.run_bind, Action.onSecond, Context.auditFailure, Action.onFailure, run]
    refine ⟨.tail (.single installs) (.quiet _ ?_), fun _ _ => trivial⟩
    exact .note _ (.audited _) trivial

theorem run_settle (eni : EniAttributes) (change : Change) {hop : NextHop}
    (leads : r.nextHop = some hop) (c : Context) :
    settle eni change (r, c) = match hop.resolve c with
      | (.ok hop, c) =>
        (if hop.isResolved then install eni change hop.target
          else update fun r => { r with state := .pending }) ({ r with nextHop := some hop }, c)
      | (.error e, c) => (.error e, r, c) := by
  simp only [settle, Action.run_bind, Action.run_get, leads, Action.onSecond]
  rcases hop.resolve c with ⟨result, c'⟩
  cases result <;> rfl

theorem settle_leads (eni : EniAttributes) (change : Change) (off : r.state ≠ .installed) :
    (settle eni change).Leads (Moves eni.lasting) (r, c) fun _ _ => True := by
  cases leads : r.nextHop with
  | none =>
    have run : settle eni change (r, c) = (.ok (), r, c) := by
      simp only [settle, Action.run_bind, Action.run_get, leads]
      rfl
    exact .of_ok run .refl trivial
  | some hop =>
    have run := run_settle eni change leads c
    rcases @resolve_moves eni.lasting r c hop off leads with
      ⟨e, c', failed, moves⟩ | ⟨hop', c', resolved, moves⟩
    · rw [failed] at run
      exact .of_error run moves
    · simp only [resolved] at run
      unfold Action.Leads
      rw [run]
      split
      next resolved =>
        have installs := @install_leads { r with nextHop := some hop' } c' eni change hop' off rfl
          resolved
        exact ⟨moves.trans installs.1, installs.2⟩
      next =>
        exact ⟨.tail moves (.adjust c' ⟨rfl, rfl⟩ ⟨off, by simp⟩ rfl), fun _ _ => trivial⟩

theorem renew_leads (eni : EniAttributes) (t : Target) (change : Change)
    (off : r.state ≠ .installed) :
    (do retarget t eni.key.vnet; settle eni change : Step Unit).Leads (Moves eni.lasting) (r, c)
      fun _ _ => True := by
  refine .bind (retarget_leads t eni.key.vnet off) ?_
  rintro - ⟨r', c'⟩ rfl
  exact settle_leads eni change off

theorem nextHop_of_create {t : Target} (create : r.change t = .create) : r.nextHop = none := by
  unfold change at create
  split at create
  next none => exact none
  next =>
    split at create
    · cases create
    · split at create <;> cases create

theorem off_of_refresh {t : Target} (sound : r.Sound) (refresh : r.change t = .refresh) :
    r.state ≠ .installed := by
  intro on
  obtain ⟨hop, leads, resolved⟩ := sound on
  simp only [change, leads, resolved, on] at refresh
  split at refresh <;> simp at refresh

theorem off_of_create {t : Target} (sound : r.Sound) (create : r.change t = .create) :
    r.state ≠ .installed := by
  intro on
  obtain ⟨hop, leads, -⟩ := sound on
  simp [nextHop_of_create create] at leads

theorem pursue_leads (eni : EniAttributes) (t : Target) (sound : r.Sound) :
    (pursue eni t).Leads (Moves eni.lasting) (r, c) fun _ _ => True := by
  refine .get_bind ?_
  dsimp only
  split
  next => exact .pure trivial
  next refresh => exact settle_leads eni .refresh (off_of_refresh sound refresh)
  next create => exact renew_leads eni t .create (off_of_create sound create)
  next =>
    by_cases on : r.state = .installed
    · simp only [on, if_true]
      -- the rule is deleted before anything it uses is given back
      refine .bind (uninstall_leads .resourceModify on) ?_
      rintro - ⟨r', c'⟩ rfl
      exact renew_leads eni t .move (by simp)
    · simp only [on, if_false]
      exact renew_leads eni t .move on

theorem fire_of_failed (eni : EniAttributes) (c : Context) (failed : r.state = .failed) :
    fire eni (r, c) = (.ok (), r, c) := by
  simp only [fire, Action.run_bind, Action.run_get, if_pos failed]
  rfl

/-- Without a target nothing is done but that a pending rule fails for good. -/
theorem fire_of_invalid {eni : EniAttributes} {e : Failure} (live : r.state ≠ .failed)
    (invalid : target r.role eni c.dpus = .error e) :
    fire eni (r, c) = (.ok (), if r.state = .pending then { r with state := .failed } else r, c) := by
  simp only [fire, Action.run_bind, Action.run_get, if_neg live, invalid]
  split <;> rfl

theorem fire_of_target {eni : EniAttributes} {t : Target} (live : r.state ≠ .failed)
    (aimed : target r.role eni c.dpus = .ok t) : fire eni (r, c) = pursue eni t (r, c) := by
  simp only [fire, Action.run_bind, Action.run_get, if_neg live, aimed]

theorem fire_leads (eni : EniAttributes) (sound : r.Sound) :
    (fire eni).Leads (Moves eni.lasting) (r, c) fun _ _ => True := by
  refine .get_bind ?_
  dsimp only
  split
  next => exact .pure trivial
  next =>
    split
    next t _ => exact pursue_leads eni t sound
    next =>
      split
      next waiting =>
        refine .modify (.single (.adjust c ⟨rfl, rfl⟩ ⟨?_, by simp⟩ rfl)) trivial
        simp [waiting]
      next => exact .pure trivial

theorem destroy_leads (owner : EniAttributes) :
    destroy.Leads (Moves owner) (r, c) fun _ p =>
      p.1.state ≠ .installed ∧ p.1.hop? = none := by
  have dropped : ∀ {r : Rule} {c : Context}, r.state ≠ .installed →
      dropNextHop.Leads (Moves owner) (r, c) fun _ p =>
        p.1.state ≠ .installed ∧ p.1.hop? = none := by
    intro r c off
    apply (dropNextHop_leads off).weaken
    rintro - ⟨r', c'⟩ rfl
    exact ⟨off, rfl⟩
  refine .get_bind ?_
  dsimp only
  by_cases on : r.state = .installed
  · simp only [on, if_true]
    refine .bind (uninstall_leads .resourceDelete on) ?_
    rintro - ⟨r', c'⟩ rfl
    exact dropped (by simp)
  · simp only [on, if_false]
    exact dropped on

end work

end Rule

end EniForwarding
