import EniForwarding.NextHop
import EniForwarding.Proofs.Action
import EniForwarding.Proofs.History
import Mathlib.Logic.Relation

/-! What the operations of the context can do.

A call is refused or accepted. Everything that is done with the context is a quiet
step, in which no rule, tunnel next hop or user takes part, or one of the few changes
that are named here. The operations on tunnel next hops have no other outcomes.
-/

set_option autoImplicit false

namespace EniForwarding

/-- One more user is counted, unless the count is full. -/
theorem Counted.toNat_up (n : UInt32) : (up n).toNat = min (n.toNat + 1) (UInt32.size - 1) := by
  have below := n.toNat_lt
  have size : UInt32.size = 4294967296 := rfl
  unfold up
  split
  next full =>
    rw [full]
    decide
  next short =>
    have apart : n.toNat ≠ UInt32.size - 1 := fun full => short (UInt32.toNat_inj.1 full)
    have one : (1 : UInt32).toNat = 1 := rfl
    rw [UInt32.toNat_add, one]
    omega

namespace Environment

def refused (env : Environment) (call : Call) (message : String) : Environment :=
  { env with
    faults := env.faults.advance call.kind
    trace := .called call (some message) :: env.trace }

def accepted (env : Environment) (call : Call) (switch : Switch) : Environment :=
  { env with
    faults := env.faults.advance call.kind
    switch := switch
    trace := .called call none :: env.trace }

theorem attempt_cases (env : Environment) (call : Call) :
    (∃ message, env.attempt call = (.error message, env.refused call message)) ∨
      ∃ switch, env.switch.perform call = .ok switch ∧
        env.attempt call = (.ok (), env.accepted call switch) := by
  unfold attempt
  cases lost : env.faults.next call.kind with
  | some message => exact .inl ⟨message, rfl⟩
  | none =>
    simp only [perform]
    cases done : env.switch.perform call with
    | error message => exact .inl ⟨message, rfl⟩
    | ok switch => exact .inr ⟨switch, rfl, rfl⟩

/-- A call keeps what is remembered of the switch in step with the switch. -/
theorem recalled_attempt (env : Environment) (call : Call)
    (known : History.recalled env.trace = env.switch.calm) :
    History.recalled (env.attempt call).2.trace = (env.attempt call).2.switch.calm := by
  rcases env.attempt_cases call with ⟨message, run⟩ | ⟨switch, done, run⟩
  · rw [run]
    exact known
  · rw [run]
    exact History.recalled_called known done

end Environment

namespace Context

open Relation

def noted (c : Context) (e : Event) : Context := { c with env := c.env.record e }

def refused (c : Context) (call : Call) (message : String) : Context :=
  { c with env := c.env.refused call message }

def accepted (c : Context) (call : Call) (switch : Switch) : Context :=
  { c with env := c.env.accepted call switch }

theorem call_cases (c : Context) (call : Call) (failure : String → Failure) :
    (∃ message, Context.call call failure c = (.error (failure message), c.refused call message)) ∨
      ∃ switch, c.env.switch.perform call = .ok switch ∧
        Context.call call failure c = (.ok (), c.accepted call switch) := by
  unfold Context.call
  rcases c.env.attempt_cases call with ⟨message, run⟩ | ⟨switch, done, run⟩
  · exact .inl ⟨message, by simp only [run]; rfl⟩
  · exact .inr ⟨switch, done, by simp only [run]; rfl⟩

/-- A step in which no rule, tunnel next hop or user takes part. -/
inductive Quiet : Context → Context → Prop
  | note (c : Context) (e : Event) (idle : e.Idle) : Quiet c (c.noted e)
  | write (c : Context) (call : Call) (switch : Switch) (table : call.isTable = true)
      (done : c.env.switch.perform call = .ok switch) : Quiet c (c.accepted call switch)
  | learn (c : Context) (inventory : Inventory) (faults : Faults) (lookups : Nat)
      (rejectsAcl rejectsTunnels : Bool) (dpus : Dpus) (aliases : SortedMap Net.Address String)
      (vip : Option Net.Prefix) (kept : ∀ known, c.vip = some known → vip = some known) :
      Quiet c { c with
        env := { c.env with
          inventory := inventory
          switch := { c.env.switch with rejectsAcl := rejectsAcl, rejectsTunnels := rejectsTunnels }
          faults := faults
          aliasLookups := lookups }
        dpus := dpus
        aliases := aliases
        vip := vip }

theorem Quiet.fixed {c c' : Context} (quiet : Quiet c c') :
    c'.table = c.table ∧ c'.basePriority = c.basePriority := by
  cases quiet <;> exact ⟨rfl, rfl⟩

theorem Quiet.vip {c c' : Context} (quiet : Quiet c c') (known : Net.Prefix)
    (before : c.vip = some known) : c'.vip = some known := by
  cases quiet with
  | note | write => exact before
  | learn inventory faults lookups rejectsAcl rejectsTunnels dpus aliases vip kept =>
    exact kept known before

abbrev Quietly {α : Type} (x : Action Context α) (c : Context) (after : α → Context → Prop) : Prop :=
  x.Leads (ReflTransGen Quiet) c after

theorem quietly_audit (r : Audit.Record) (c : Context) :
    Quietly (audit r) c fun _ _ => True :=
  .modify (.single (.note c (.audited r) trivial)) trivial

theorem quietly_ask (n : Neighbor) (c : Context) : Quietly (ask n) c fun _ _ => True :=
  .modify (.single (.note c (.asked n) trivial)) trivial

theorem quietly_populate (c : Context) : Quietly populate c fun _ _ => True := by
  refine .of_ok rfl (.single ?_) trivial
  exact .learn c c.env.inventory c.env.faults c.env.aliasLookups c.env.switch.rejectsAcl
    c.env.switch.rejectsTunnels (Dpus.populate c.dpus c.env.inventory.dpuRows).2 c.aliases c.vip
    fun _ => id

theorem alias_cases (ip : Net.Address) (c : Context) :
    (∃ name, c.aliases.get? ip = some name ∧ Context.«alias» ip c = (.ok (some name), c)) ∨
    (c.aliases.get? ip = none ∧ c.env.inventory.alias? ip = none ∧
      Context.«alias» ip c =
        (.ok none, { c with env := { c.env with aliasLookups := c.env.aliasLookups + 1 } })) ∨
    ∃ name, c.aliases.get? ip = none ∧ c.env.inventory.alias? ip = some name ∧
      Context.«alias» ip c = (.ok (some name), { c with
        env := { c.env with aliasLookups := c.env.aliasLookups + 1 }
        aliases := c.aliases.insert ip name }) := by
  cases known : c.aliases.get? ip with
  | some name => exact .inl ⟨name, rfl, by simp only [Context.«alias», known]⟩
  | none =>
    cases asked : c.env.inventory.alias? ip with
    | none =>
      exact .inr (.inl ⟨rfl, rfl, by simp only [Context.«alias», known, Environment.«alias», asked]⟩)
    | some name =>
      exact .inr (.inr ⟨name, rfl, rfl, by
        simp only [Context.«alias», known, Environment.«alias», asked]⟩)

theorem findVip_cases (c : Context) :
    (∃ vip, c.vip = some vip ∧ findVip c = (.ok vip, c)) ∨
    (∃ e, c.vip = none ∧ c.env.inventory.vip? = .error e ∧
      findVip c = (.error (.vipUnavailable e.message), c)) ∨
    ∃ vip, c.vip = none ∧ c.env.inventory.vip? = .ok vip ∧
      findVip c = (.ok vip, { c with vip := some vip }) := by
  cases known : c.vip with
  | some vip => exact .inl ⟨vip, rfl, by simp only [findVip, known]⟩
  | none =>
    cases found : c.env.inventory.vip? with
    | error e => exact .inr (.inl ⟨e, rfl, rfl, by simp only [findVip, known, found]⟩)
    | ok vip => exact .inr (.inr ⟨vip, rfl, rfl, by simp only [findVip, known, found]⟩)

theorem quietly_alias (ip : Net.Address) (c : Context) : Quietly (Context.«alias» ip) c fun _ _ => True := by
  have counted : ∀ aliases, Quiet c
      { c with env := { c.env with aliasLookups := c.env.aliasLookups + 1 }, aliases := aliases } :=
    fun aliases => .learn c c.env.inventory c.env.faults (c.env.aliasLookups + 1)
      c.env.switch.rejectsAcl c.env.switch.rejectsTunnels c.dpus aliases c.vip fun _ => id
  rcases alias_cases ip c with ⟨name, -, run⟩ | ⟨-, -, run⟩ | ⟨name, -, -, run⟩
  · exact .of_ok run .refl trivial
  · exact .of_ok run (.single (counted c.aliases)) trivial
  · exact .of_ok run (.single (counted (c.aliases.insert ip name))) trivial

theorem quietly_findVip (c : Context) : Quietly findVip c fun vip c' => c'.vip = some vip := by
  rcases c.findVip_cases with ⟨vip, known, run⟩ | ⟨e, -, -, run⟩ | ⟨vip, known, -, run⟩
  · exact .of_ok run .refl known
  · exact .of_error run .refl
  · refine .of_ok run (.single ?_) rfl
    exact .learn c c.env.inventory c.env.faults c.env.aliasLookups c.env.switch.rejectsAcl
      c.env.switch.rejectsTunnels c.dpus c.aliases (some vip) (by simp [known])

theorem quietly_call {call : Call} (table : call.isTable = true) (failure : String → Failure)
    (c : Context) : Quietly (Context.call call failure) c fun _ _ => True := by
  rcases c.call_cases call failure with ⟨message, run⟩ | ⟨switch, done, run⟩
  -- the plan goes on and the failure is noted, which are two steps
  · have advanced := Quiet.learn c c.env.inventory (c.env.faults.advance call.kind)
      c.env.aliasLookups c.env.switch.rejectsAcl c.env.switch.rejectsTunnels c.dpus c.aliases c.vip
      fun _ => id
    refine .of_error run (.tail (.single advanced) ?_)
    exact .note _ (.called call (some message)) ⟨table, rfl⟩
  · exact .of_ok run (.single (.write c call switch table done)) trivial

theorem quietly_auditFailure {α : Type} {r : Audit.Record} {x : Action Context α} {c : Context}
    {after : α → Context → Prop} (quietly : Quietly x c after) :
    Quietly (auditFailure r x) c after := by
  unfold Quietly Action.Leads at quietly ⊢
  unfold auditFailure Action.onFailure
  generalize x c = outcome at quietly ⊢
  obtain ⟨result, c'⟩ := outcome
  cases result with
  | ok a => exact quietly
  | error e => exact ⟨.tail quietly.1 (.note c' _ trivial), by simp⟩

def joined (c : Context) (hop : TunnelHop) (use : TunnelUse) : Context :=
  { c with
    env := c.env.record (.joined hop)
    tunnels := c.tunnels.insert hop (Counted.take use) }

def createdRecord (hop : TunnelHop) (handle : Nat) : Audit.Record :=
  (tunnelRecord .resourceCreate "create_tunnel_nh" hop).withDetails
    (.object [("oid", .string (handleText handle))])

def founded (c : Context) (hop : TunnelHop) (switch : Switch) : Context :=
  { c with
    env := ((c.env.accepted (.createTunnel hop) switch).audit
      (createdRecord hop switch.lastHandle)).record (.joined hop)
    tunnels := (c.tunnels.insert hop ⟨switch.lastHandle, 0⟩).insert hop
      (Counted.take ⟨switch.lastHandle, 0⟩)
    tunnelsCreated := c.tunnelsCreated.bump }

def left (c : Context) (hop : TunnelHop) (use : TunnelUse) : Context :=
  { c with
    env := c.env.record (.left hop true)
    tunnels := c.tunnels.insert hop { use with refs := use.refs - 1 } }

def abandoned (c : Context) (hop : TunnelHop) (switch : Switch) : Context :=
  { c with
    env := ((c.env.accepted (.removeTunnel hop) switch).audit
      (tunnelRecord .resourceDelete "remove_tunnel_nh" hop)).record (.left hop true)
    tunnels := c.tunnels.erase hop
    tunnelsRemoved := c.tunnelsRemoved.bump }

@[simp]
theorem run_onEnvironment (f : Environment → Environment) (c : Context) :
    onEnvironment f c = (.ok (), { c with env := f c.env }) := rfl

@[simp]
theorem run_audit (r : Audit.Record) (c : Context) : audit r c = (.ok (), c.noted (.audited r)) := rfl

section tunnels

variable {c : Context} {hop : TunnelHop} {use : TunnelUse}

theorem acquire_known (known : c.tunnels.get? hop = some use) :
    acquire hop c = (.ok use.handle, c.joined hop use) := by
  have present : c.tunnels.contains hop = true := by simp [SortedMap.contains, known]
  unfold acquire
  rw [Action.run_bind, Action.run_get]
  simp only [present, if_true]
  simp [known, SortedMap.takeRef, joined]

theorem createTunnel_cases (c : Context) (hop : TunnelHop) :
    (∃ message r, createTunnel hop c =
        (.error (.tunnelRefused ("create " ++ hop.render ++ ": " ++ message)),
          (c.refused (.createTunnel hop) message).noted (.audited r))) ∨
      ∃ switch, c.env.switch.perform (.createTunnel hop) = .ok switch ∧
        createTunnel hop c = (.ok (), { c with
          env := (c.env.accepted (.createTunnel hop) switch).audit
            (createdRecord hop switch.lastHandle)
          tunnels := c.tunnels.insert hop ⟨switch.lastHandle, 0⟩
          tunnelsCreated := c.tunnelsCreated.bump }) := by
  unfold createTunnel auditFailure
  have called := c.call_cases (.createTunnel hop) fun message =>
    .tunnelRefused ("create " ++ hop.render ++ ": " ++ message)
  rcases called with ⟨message, run⟩ | ⟨switch, done, run⟩
  · let failure := Failure.tunnelRefused ("create " ++ hop.render ++ ": " ++ message)
    refine .inl ⟨message, (tunnelRecord .resourceCreate "create_tunnel_nh" hop).withError failure.message, ?_⟩
    simp only [Action.run_bind, Action.onFailure, run]
    rfl
  · refine .inr ⟨switch, done, ?_⟩
    simp only [Action.run_bind, Action.onFailure, run]
    rfl

/-- To become the first user of a tunnel next hop fails only if its creation does. -/
theorem acquire_unknown (unknown : c.tunnels.get? hop = none) :
    (∃ message r, acquire hop c =
        (.error (.tunnelRefused ("create " ++ hop.render ++ ": " ++ message)),
          (c.refused (.createTunnel hop) message).noted (.audited r))) ∨
      ∃ switch, c.env.switch.perform (.createTunnel hop) = .ok switch ∧
        acquire hop c = (.ok switch.lastHandle, c.founded hop switch) := by
  have absent : c.tunnels.contains hop = false := by simp [SortedMap.contains, unknown]
  unfold acquire
  rw [Action.run_bind, Action.run_get]
  simp only [absent, Bool.false_eq_true, if_false, Action.run_bind]
  rcases createTunnel_cases c hop with ⟨message, r, run⟩ | ⟨switch, done, run⟩
  · exact .inl ⟨message, r, by simp only [run]⟩
  · refine .inr ⟨switch, done, ?_⟩
    simp [run, SortedMap.takeRef, SortedMap.get?_insert_self, founded]

theorem release_unknown (unknown : c.tunnels.get? hop = none) :
    release hop c = (.ok (), c.noted (.left hop false)) := by
  unfold release
  rw [Action.run_bind, Action.run_get]
  simp [SortedMap.refs?, unknown, noted]

theorem release_shared (known : c.tunnels.get? hop = some use) (shared : 1 < use.refs) :
    release hop c = (.ok (), c.left hop use) := by
  have positive : use.refs ≠ 0 := by
    rintro zero
    rw [zero] at shared
    exact absurd shared (by decide)
  -- with more than one user left there is no underflow
  have given : c.tunnels.releaseRef hop =
      .ok (use.refs - 1, c.tunnels.insert hop { use with refs := use.refs - 1 }) := by
    simp [SortedMap.releaseRef, known, Counted.release?, Counted.down?, positive, Counted.refs]
  unfold release
  rw [Action.run_bind, Action.run_get]
  have refs : c.tunnels.refs? hop = some use.refs := by simp [SortedMap.refs?, known, Counted.refs]
  simp [refs, shared, given, left]

theorem removeTunnel_cases (c : Context) (hop : TunnelHop) :
    (∃ message r, removeTunnel hop c =
        (.error (.tunnelRefused ("remove " ++ hop.render ++ ": " ++ message)),
          (c.refused (.removeTunnel hop) message).noted (.audited r))) ∨
      ∃ switch, c.env.switch.perform (.removeTunnel hop) = .ok switch ∧
        removeTunnel hop c = (.ok (), { c with
          env := (c.env.accepted (.removeTunnel hop) switch).audit
            (tunnelRecord .resourceDelete "remove_tunnel_nh" hop)
          tunnels := c.tunnels.erase hop
          tunnelsRemoved := c.tunnelsRemoved.bump }) := by
  unfold removeTunnel auditFailure
  have called := c.call_cases (.removeTunnel hop) fun message =>
    .tunnelRefused ("remove " ++ hop.render ++ ": " ++ message)
  rcases called with ⟨message, run⟩ | ⟨switch, done, run⟩
  · let failure := Failure.tunnelRefused ("remove " ++ hop.render ++ ": " ++ message)
    refine .inl ⟨message, (tunnelRecord .resourceDelete "remove_tunnel_nh" hop).withError failure.message, ?_⟩
    simp only [Action.run_bind, Action.onFailure, run]
    rfl
  · refine .inr ⟨switch, done, ?_⟩
    simp only [Action.run_bind, Action.onFailure, run]
    rfl

/-- To cease to be the last user of a tunnel next hop fails only if its removal does. -/
theorem release_last (known : c.tunnels.get? hop = some use) (last : ¬ 1 < use.refs) :
    (∃ message r, release hop c =
        (.error (.tunnelRefused ("remove " ++ hop.render ++ ": " ++ message)),
          (c.refused (.removeTunnel hop) message).noted (.audited r))) ∨
      ∃ switch, c.env.switch.perform (.removeTunnel hop) = .ok switch ∧
        release hop c = (.ok (), c.abandoned hop switch) := by
  have refs : c.tunnels.refs? hop = some use.refs := by simp [SortedMap.refs?, known, Counted.refs]
  unfold release
  rw [Action.run_bind, Action.run_get]
  simp only [refs, last, if_false, Action.run_bind]
  rcases removeTunnel_cases c hop with ⟨message, r, run⟩ | ⟨switch, done, run⟩
  · exact .inl ⟨message, r, by simp only [run]⟩
  · exact .inr ⟨switch, done, by simp [run, abandoned]⟩

end tunnels

end Context

end EniForwarding
