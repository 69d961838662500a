import EniForwarding.Proofs.Rule.Firing
import EniForwarding.Proofs.World.Coherence

/-! Where nothing is refused, work on a rule succeeds.

A context is obliging if no call is lost or refused out of hand, the table of tunnel next
hops is that of the switch, and there is a VIP. Then the switch carries out every call that
work on a rule makes, and the context stays obliging while the work goes on.
-/

set_option autoImplicit false

namespace EniForwarding

open Relation

namespace Switch

/-- What a call needs of a switch that refuses nothing out of hand. -/
def Takes (s : Switch) : Call → Prop
  | .createTunnel hop => s.tunnels.contains hop.render = false
  | .removeTunnel hop => s.tunnels.contains hop.render = true
  | .setTableType .. | .setTable .. | .setRule .. | .deleteRule .. => True

theorem exists_perform {s : Switch} {call : Call} (acl : s.rejectsAcl = false)
    (tunnels : s.rejectsTunnels = false) (takes : s.Takes call) : ∃ s', s.perform call = .ok s' := by
  cases call with
  | setTableType | setTable | setRule | deleteRule =>
    simp [perform, setTableType, setTable, setRule, deleteRule, acl]
  | createTunnel hop =>
    have absent : s.tunnels.contains hop.render = false := takes
    simp [perform, createTunnel, tunnels, absent]
  | removeTunnel hop =>
    have present : s.tunnels.contains hop.render = true := takes
    simp [perform, removeTunnel, tunnels, present]

end Switch

namespace Action

variable {σ τ ρ α : Type}

theorem Succeeds.onSecond {x : Action τ α} {r : ρ} {t : τ} (succeeds : x.Succeeds t) :
    (Action.onSecond x).Succeeds (r, t) := succeeds

theorem Succeeds.onFailure {x : Action σ α} {note : Failure → σ → σ} {s : σ}
    (succeeds : x.Succeeds s) : (x.onFailure note).Succeeds s := by
  obtain ⟨a, ok⟩ := succeeds
  have run : x s = (.ok a, (x s).2) := Prod.ext ok rfl
  refine ⟨a, ?_⟩
  rw [Action.onFailure, run]

end Action

namespace Context

variable {c c' : Context} {hop : TunnelHop}

open EniForwarding.Action (Succeeds)

theorem call_succeeds (willing : c.Willing) (call : Call) (takes : c.env.switch.Takes call)
    (refused : String → Failure) : (Context.call call refused).Succeeds c := by
  obtain ⟨switch, done⟩ := Switch.exists_perform willing.acl willing.tunnels takes
  refine ⟨(), ?_⟩
  have nothing : Faults.none.next call.kind = none := rfl
  simp only [Context.call, Environment.attempt, willing.faultless, nothing, Environment.perform, done]

theorem setRule_succeeds (willing : c.Willing) (key : String) (fields : Fields) :
    (setRule key fields).Succeeds c :=
  .bind (call_succeeds willing (.setRule key fields) trivial _) fun _ _ _ => .modify _ _

theorem deleteRule_succeeds (willing : c.Willing) (key : String) : (deleteRule key).Succeeds c :=
  .bind (call_succeeds willing (.deleteRule key) trivial _) fun _ _ _ => .modify _ _

theorem findVip_succeeds {vip : Net.Prefix} (readable : c.outlook.vip? = .ok vip) :
    findVip.Succeeds c := by
  cases known : c.vip with
  | some vip => exact ⟨vip, by simp only [findVip, known]⟩
  | none =>
    have found : c.env.inventory.vip? = .ok vip := by simpa only [outlook, known] using readable
    exact ⟨vip, by simp only [findVip, known, found]⟩

theorem reach_succeeds (ip : Net.Address) (c : Context) : (NextHop.reach ip).Succeeds c := by
  have looked : (Context.«alias» ip).Succeeds c := by
    unfold Succeeds
    rcases Context.alias_cases ip c with ⟨name, -, run⟩ | ⟨-, -, run⟩ | ⟨name, -, -, run⟩ <;>
      exact ⟨_, congrArg Prod.fst run⟩
  refine .bind looked fun name c' _ => ?_
  cases name with
  | none => exact .pure false c'
  | some name =>
    refine .get_bind ?_
    split
    · exact .pure true c'
    · exact .bind (.modify _ c') fun _ _ _ => .pure false _

/-- No call is lost or refused out of hand, and the table of tunnel next hops is that of the switch. -/
structure Fair (c : Context) : Prop where
  willing : c.Willing
  mirrored : c.Mirrored

/-- No call is lost or refused, and what rules need can be had. -/
structure Obliging (c : Context) : Prop where
  willing : c.Willing
  mirrored : c.Mirrored
  vip : ∃ vip, c.outlook.vip? = .ok vip

theorem Obliging.fair (obliging : c.Obliging) : c.Fair := ⟨obliging.willing, obliging.mirrored⟩

theorem Obliging.steady (obliging : c.Obliging) (steady : c.Steady c') (mirrored : c'.Mirrored) :
    c'.Obliging :=
  ⟨steady.willing obliging.willing, mirrored, by rw [steady.outlook]; exact obliging.vip⟩

variable (fair : c.Fair)

include fair

theorem acquire_succeeds (hop : TunnelHop) : (acquire hop).Succeeds c := by
  cases known : c.tunnels.get? hop with
  | some use => exact .of_ok (acquire_known known)
  | none =>
    have takes : c.env.switch.Takes (.createTunnel hop) := by
      have absent := fair.mirrored.handles hop
      rw [known] at absent
      simp [Switch.Takes, SortedMap.contains, absent]
    have created : (createTunnel hop).Succeeds c :=
      .bind (.onFailure (call_succeeds fair.willing _ takes _)) fun _ _ _ =>
        .get_bind (.bind (.modify _ _) fun _ _ _ => .modify _ _)
    have unknown : c.tunnels.contains hop = false := by simp [SortedMap.contains, known]
    unfold acquire
    refine .get_bind ?_
    simp only [unknown, Bool.false_eq_true, if_false]
    refine .bind created fun _ c' run => .get_bind ?_
    -- the new tunnel next hop is found in the table
    rcases createTunnel_cases c hop with ⟨message, r, refusal⟩ | ⟨switch, -, carried⟩
    · rw [refusal] at run
      cases run
    · rw [carried] at run
      cases run
      simp only [SortedMap.takeRef, SortedMap.get?_insert_self]
      exact .bind (.modify _ _) fun _ _ _ => .bind (.modify _ _) fun _ _ _ => .pure _ _

theorem release_succeeds (hop : TunnelHop) : (release hop).Succeeds c := by
  cases known : c.tunnels.get? hop with
  | none => exact .of_ok (release_unknown known)
  | some use =>
    by_cases shared : 1 < use.refs
    · exact .of_ok (release_shared known shared)
    · have takes : c.env.switch.Takes (.removeTunnel hop) := by
        have present := fair.mirrored.handles hop
        rw [known] at present
        simp [Switch.Takes, SortedMap.contains, present]
      have removed : (removeTunnel hop).Succeeds c :=
        .bind (.onFailure (call_succeeds fair.willing _ takes _)) fun _ _ _ =>
          .bind (.modify _ _) fun _ _ _ => .modify _ _
      have refs : c.tunnels.refs? hop = some use.refs := by
        simp [SortedMap.refs?, known, Counted.refs]
      unfold release
      refine .get_bind ?_
      simp only [refs, shared, if_false]
      exact .bind removed fun _ _ _ => .modify _ _

end Context

namespace NextHop

variable {c : Context} (fair : c.Fair)

include fair

theorem resolve_succeeds (h : NextHop) : h.resolve.Succeeds c := by
  rcases h with ⟨ip, resolved⟩ | ⟨ip, vnet, _ | tunnel⟩
  · exact .bind (Context.reach_succeeds ip c) fun _ _ _ => .pure _ _
  · refine .get_bind ?_
    cases c.env.inventory.tunnel? vnet with
    | none => exact .pure _ c
    | some tunnel => exact .bind (Context.acquire_succeeds fair _) fun _ _ _ => .pure _ _
  · exact .pure _ c

theorem release_succeeds (h : NextHop) : h.release.Succeeds c := by
  rcases h with ⟨ip, resolved⟩ | ⟨ip, vnet, _ | tunnel⟩
  · exact .pure _ c
  · exact .pure _ c
  · exact .bind (Context.release_succeeds fair _) fun _ _ _ => .pure _ _

end NextHop

namespace Rule

open EniForwarding.Action (Succeeds)

theorem Moves.mirrored {owner : EniAttributes} {p p' : Rule × Context} (moves : Moves owner p p')
    (mirrored : p.2.Mirrored) : p'.2.Mirrored := by
  induction moves with
  | refl => exact mirrored
  | tail _ move ih => exact move.mirrored ih

variable {a : EniAttributes} {r : Rule} {c : Context} {t : Target}

theorem uninstall_succeeds (category : Audit.Category) (willing : c.Willing) :
    (uninstall category).Succeeds (r, c) := by
  refine .get_bind (.bind (.onSecond (.onFailure (Context.deleteRule_succeeds willing r.key))) ?_)
  exact fun _ _ _ => .bind (.onSecond (.modify _ _)) fun _ _ _ => .modify _ _

theorem uninstall_obliging {category : Audit.Category} {p : Rule × Context}
    (obliging : c.Obliging) (run : uninstall category (r, c) = (.ok (), p)) :
    p.2.Obliging ∧ p.1.state ≠ .installed := by
  rcases uninstall_cases category r c with ⟨message, e, record, lost⟩ | ⟨switch, done, carried⟩
  · rw [lost] at run
    cases run
  · rw [carried] at run
    cases run
    refine ⟨obliging.steady (.of_accepted c done rfl rfl rfl) ?_, by simp⟩
    exact obliging.mirrored.transfer (Switch.perform_deleteRule done).2 fun _ => rfl

theorem dropNextHop_succeeds (fair : c.Fair) (r : Rule) : dropNextHop.Succeeds (r, c) := by
  cases leads : r.nextHop with
  | none => exact .of_ok (dropNextHop_of_none leads c)
  | some hop =>
    obtain ⟨hop', released⟩ := hop.release_succeeds fair
    have run : hop.release c = (.ok hop', (hop.release c).2) := Prod.ext released rfl
    exact ⟨(), by rw [run_dropNextHop leads, run]⟩

theorem install_succeeds (eni : EniAttributes) (change : Change) (redirect : String)
    (willing : c.Willing) {vip : Net.Prefix} (readable : c.outlook.vip? = .ok vip) :
    (install eni change redirect).Succeeds (r, c) := by
  refine .bind (.onSecond (Context.findVip_succeeds readable)) fun vip p run => .get_bind ?_
  obtain ⟨-, -, still, -⟩ := (onSecond_pursues (a := eni) (Context.steadily_findVip c)).of_run run
  refine .bind (.onSecond (.onFailure (Context.setRule_succeeds (still.willing willing) _ _))) ?_
  exact fun _ _ _ => .bind (.onSecond (.modify _ _)) fun _ _ _ => .modify _ _

theorem settle_succeeds (a : EniAttributes) (change : Change) (obliging : c.Obliging) (r : Rule) :
    (settle a change).Succeeds (r, c) := by
  cases leads : r.nextHop with
  | none =>
    refine .get_bind ?_
    simp only [leads]
    exact .pure _ _
  | some hop =>
    have run := run_settle a change leads c
    obtain ⟨hop', resolved⟩ := hop.resolve_succeeds obliging.fair
    obtain ⟨vip, readable⟩ := obliging.vip
    rcases hop.resolve_outcome c with ⟨e, c', failed, -⟩ | ⟨c', found, outcome⟩
    · rw [failed] at resolved
      cases resolved
    · have steady : c.Steady c' := by
        rcases outcome with ⟨still, -⟩ | ⟨tunnel, -, -, gains⟩
        · exact still.toSteady
        · exact gains.toSteady
      simp only [found] at run
      unfold Succeeds
      rw [run]
      split
      · exact install_succeeds a change _ (steady.willing obliging.willing)
          (by rw [steady.outlook]; exact readable)
      · exact ⟨(), rfl⟩

/-- A rule that is off the switch gives up its next hop for one toward the target. -/
theorem renew_succeeds (change : Change) (obliging : c.Obliging) (off : r.state ≠ .installed) :
    (do retarget t a.key.vnet; settle a change : Step Unit).Succeeds (r, c) := by
  refine .bind (.bind (dropNextHop_succeeds obliging.fair r) fun _ _ _ => .modify _ _) fun _ p run => ?_
  have moves := ((@retarget_leads a r c t a.key.vnet off).of_run run).1
  have steady : c.Steady p.2 := by
    rcases dropNextHop_outcome r c with ⟨e, c', stopped, -⟩ | ⟨c', dropped, -⟩
    · simp only [retarget, Action.run_bind, stopped] at run
      cases run
    · simp only [retarget, Action.run_bind, dropped] at run
      cases run
      exact ((dropNextHop_sheds r c).of_run dropped).1.steady
  exact settle_succeeds a change (obliging.steady steady (moves.mirrored obliging.mirrored)) p.1

theorem pursue_succeeds (obliging : c.Obliging) (sound : r.Sound) :
    (pursue a t).Succeeds (r, c) := by
  refine .get_bind ?_
  dsimp only
  split
  next => exact .pure _ _
  next => exact settle_succeeds a .refresh obliging r
  next create =>
    apply renew_succeeds .create obliging
    intro on
    obtain ⟨hop, leads, -⟩ := sound on
    simp [nextHop_of_create create] at leads
  next =>
    by_cases on : r.state = .installed
    · simp only [on, if_true]
      refine .bind (uninstall_succeeds .resourceModify obliging.willing) fun _ p run => ?_
      obtain ⟨obliging, off⟩ := uninstall_obliging obliging run
      exact renew_succeeds .move obliging off
    · simp only [on, if_false]
      exact renew_succeeds .move obliging on

theorem fire_succeeds (a : EniAttributes) (obliging : c.Obliging) (sound : r.Sound) :
    (fire a).Succeeds (r, c) := by
  refine .get_bind ?_
  dsimp only
  split
  next => exact .pure _ _
  next =>
    split
    next => exact pursue_succeeds obliging sound
    next =>
      split
      · exact .modify _ _
      · exact .pure _ _

theorem destroy_succeeds (obliging : c.Obliging) (r : Rule) : destroy.Succeeds (r, c) := by
  refine .get_bind ?_
  dsimp only
  by_cases on : r.state = .installed
  · simp only [on, if_true]
    refine .bind (uninstall_succeeds .resourceDelete obliging.willing) fun _ p run => ?_
    exact dropNextHop_succeeds (uninstall_obliging obliging run).1.fair p.1
  · simp only [on, if_false]
    exact dropNextHop_succeeds obliging.fair r

end Rule

end EniForwarding
