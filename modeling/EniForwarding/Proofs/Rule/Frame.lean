import EniForwarding.Proofs.CallOrder
import EniForwarding.Proofs.Eni.Firing

/-! What work on a rule leaves alone.

Calls on rules are made under the name of the rule that is worked on, so what stands in the
switch under another name stays, and no call is made for it. A tunnel next hop with a user
besides the rules that are worked on is neither created nor removed: these rules may join
and leave it, but they never are the last to leave.
-/

set_option autoImplicit false

namespace EniForwarding

open Relation

namespace Event

def OnRule (name : String) : Event → Prop
  | .called call _ => call.rule? = some name
  | _ => False

def OnTunnel (name : String) : Event → Prop
  | .called call none => call.tunnel? = some name
  | _ => False

end Event

namespace Context

/-- The history goes on without an event of this kind. -/
def Without (p : Event → Prop) (c c' : Context) : Prop :=
  ∃ new, c'.env.trace = new ++ c.env.trace ∧ ∀ e ∈ new, ¬p e

section without

variable {p : Event → Prop} {c c' : Context}

instance : Std.Refl (Without p) := ⟨fun _ => ⟨[], rfl, by simp⟩⟩

instance : IsTrans Context (Without p) := by
  constructor
  rintro c c' c'' ⟨new, trace, others⟩ ⟨new', trace', others'⟩
  refine ⟨new' ++ new, by rw [trace', trace, List.append_assoc], fun e member => ?_⟩
  exact (List.mem_append.1 member).elim (others' e) (others e)

theorem Without.of_eq (trace : c'.env.trace = c.env.trace) : c.Without p c' :=
  ⟨[], trace, by simp⟩

theorem Without.cons {e : Event} (trace : c'.env.trace = e :: c.env.trace) (other : ¬p e) :
    c.Without p c' :=
  ⟨[e], trace, by simpa using other⟩

theorem Without.entered {user : Event} {record : Audit.Record} {call : Call}
    (trace : c'.env.trace = user :: .audited record :: .called call none :: c.env.trace)
    (others : ¬p user ∧ ¬p (.audited record) ∧ ¬p (.called call none)) : c.Without p c' :=
  ⟨[user, .audited record, .called call none], trace, by simpa using others⟩

theorem Quiet.without (quiet : c.Quiet c') (idle : ∀ e, e.Idle → ¬p e)
    (table : ∀ call : Call, call.isTable = true → ¬p (.called call none)) : c.Without p c' := by
  cases quiet with
  | note e unnoticed => exact .cons rfl (idle e unnoticed)
  | write call switch isTable => exact .cons rfl (table call isTable)
  | learn => exact .of_eq rfl

theorem Quiet.without_onRule (quiet : c.Quiet c') (name : String) :
    c.Without (Event.OnRule name) c' := by
  have table : ∀ call : Call, call.isTable = true → call.rule? ≠ some name := by
    intro call isTable
    cases call <;> simp_all [Call.isTable, Call.rule?]
  refine quiet.without (fun e idle on => ?_) table
  cases e with
  | called call failure => exact table call idle.1 on
  | asked | audited | joined | left => exact on

theorem Quiet.without_onTunnel (quiet : c.Quiet c') (name : String) :
    c.Without (Event.OnTunnel name) c' := by
  have table : ∀ call : Call, call.isTable = true → call.tunnel? ≠ some name := by
    intro call isTable
    cases call <;> simp_all [Call.isTable, Call.tunnel?]
  refine quiet.without (fun e idle on => ?_) table
  cases e with
  | called call failure =>
    cases failure with
    | none => exact table call idle.1 on
    | some message => exact on
  | asked | audited | joined | left => exact on

end without

/-- The rule of this name stays as it is in the switch, and no call is made on it. -/
structure KeepsRule (name : String) (c c' : Context) : Prop where
  rule : c'.env.switch.rules.get? name = c.env.switch.rules.get? name
  calls : c.Without (Event.OnRule name) c'

instance {name : String} : Std.Refl (KeepsRule name) := ⟨fun c => ⟨rfl, refl c⟩⟩

instance {name : String} : IsTrans Context (KeepsRule name) := by
  constructor
  intro c c' c'' first second
  exact ⟨second.rule.trans first.rule, IsTrans.trans _ _ _ first.calls second.calls⟩

theorem Quiet.keepsRule {c c' : Context} (quiet : c.Quiet c') (name : String) :
    KeepsRule name c c' :=
  ⟨by rw [quiet.same.1], quiet.without_onRule name⟩

theorem keepsRule_of_quiet {c c' : Context} (quiet : ReflTransGen Quiet c c') (name : String) :
    KeepsRule name c c' := by
  induction quiet with
  | refl => exact refl c
  | tail _ last ih => exact IsTrans.trans _ _ _ ih (last.keepsRule name)

/-- The tunnel next hop is in the switch and in the table under this handle, with more users than
that. -/
def Live (hop : TunnelHop) (handle n : Nat) (c : Context) : Prop :=
  c.env.switch.tunnels.get? hop.render = some handle ∧
    ∃ use, c.tunnels.get? hop = some use ∧ use.handle = handle ∧ n < use.refs.toNat

/-- If a tunnel next hop has more users than those counted first, it neither comes nor goes, and in
the end it has more than those counted second. -/
def KeepsTunnel (hop : TunnelHop) (before after : Nat) (c c' : Context) : Prop :=
  ∀ handle, c.Live hop handle before →
    c'.Live hop handle after ∧ c.Without (Event.OnTunnel hop.render) c'

section live

variable {hop : TunnelHop} {handle n m k : Nat} {c c' c'' : Context}

theorem Live.of_get? (live : c.Live hop handle n) (same : c'.tunnels.get? hop = c.tunnels.get? hop)
    (switch : c'.env.switch.tunnels.get? hop.render = c.env.switch.tunnels.get? hop.render) :
    c'.Live hop handle n := by
  unfold Live
  rwa [same, switch]

theorem Live.mono (live : c.Live hop handle n) (fewer : m ≤ n) : c.Live hop handle m := by
  obtain ⟨there, use, known, same, users⟩ := live
  exact ⟨there, use, known, same, lt_of_le_of_lt fewer users⟩

theorem KeepsTunnel.trans (first : KeepsTunnel hop n m c c') (second : KeepsTunnel hop m k c' c'') :
    KeepsTunnel hop n k c c'' := by
  intro handle live
  obtain ⟨live', without⟩ := first handle live
  obtain ⟨live'', without'⟩ := second handle live'
  exact ⟨live'', IsTrans.trans _ _ _ without without'⟩

theorem KeepsTunnel.weaken (keeps : KeepsTunnel hop n m c c') (fewer : k ≤ m) :
    KeepsTunnel hop n k c c' := fun handle live =>
  ⟨(keeps handle live).1.mono fewer, (keeps handle live).2⟩

theorem keepsTunnel_of_get? (table : c'.tunnels.get? hop = c.tunnels.get? hop)
    (switch : c'.env.switch.tunnels.get? hop.render = c.env.switch.tunnels.get? hop.render)
    (without : c.Without (Event.OnTunnel hop.render) c') : KeepsTunnel hop n n c c' :=
  fun _ live => ⟨live.of_get? table switch, without⟩

theorem Quiet.keepsTunnel (quiet : c.Quiet c') (hop : TunnelHop) (n : Nat) :
    KeepsTunnel hop n n c c' :=
  keepsTunnel_of_get? (by rw [quiet.same.2.2.1]) (by rw [quiet.same.2.1])
    (quiet.without_onTunnel hop.render)

theorem keepsTunnel_of_quiet (quiet : ReflTransGen Quiet c c') (hop : TunnelHop) (n : Nat) :
    KeepsTunnel hop n n c c' := by
  induction quiet with
  | refl => exact fun _ live => ⟨live, refl c⟩
  | tail _ last ih => exact ih.trans (last.keepsTunnel hop n)

section users

variable {tunnel : TunnelHop} {use : TunnelUse} {switch : Switch}

theorem keepsTunnel_of_unknown (unknown : c.tunnels.get? hop = none) : KeepsTunnel hop n m c c' := by
  rintro handle ⟨-, mine, here, -, -⟩
  cases here.symm.trans unknown

theorem keepsTunnel_of_last (known : c.tunnels.get? hop = some use) (last : ¬ 1 < use.refs) :
    KeepsTunnel hop (n + 1) m c c' := by
  rintro handle ⟨-, mine, here, -, users⟩
  cases here.symm.trans known
  have one : (1 : UInt32).toNat = 1 := rfl
  exact absurd (UInt32.lt_iff_toNat_lt.2 (by omega)) last

theorem joined_keepsTunnel (known : c.tunnels.get? hop = some use) (room : n + 2 < UInt32.size) :
    KeepsTunnel hop n (n + 1) c (c.joined hop use) := by
  rintro handle ⟨there, mine, here, same, users⟩
  cases here.symm.trans known
  have up := Counted.toNat_up use.refs
  refine ⟨⟨there, _, SortedMap.get?_insert_self _ _ _, same, ?_⟩, .cons rfl id⟩
  exact lt_of_lt_of_eq (by omega) up.symm

theorem left_keepsTunnel (known : c.tunnels.get? hop = some use) (shared : 1 < use.refs) :
    KeepsTunnel hop (n + 1) n c (c.left hop use) := by
  rintro handle ⟨there, mine, here, same, users⟩
  cases here.symm.trans known
  have down := UInt32.toNat_sub_of_le _ _ (UInt32.le_of_lt shared)
  have one : (1 : UInt32).toNat = 1 := rfl
  refine ⟨⟨there, _, SortedMap.get?_insert_self _ _ _, same, ?_⟩, .cons rfl id⟩
  exact lt_of_lt_of_eq (by omega) down.symm

variable (apart : hop ≠ tunnel)

include apart

theorem joined_keepsOther : KeepsTunnel hop n n c (c.joined tunnel use) :=
  keepsTunnel_of_get? (SortedMap.get?_insert_ne _ _ apart) rfl (.cons rfl id)

theorem left_keepsOther : KeepsTunnel hop n n c (c.left tunnel use) :=
  keepsTunnel_of_get? (SortedMap.get?_insert_ne _ _ apart) rfl (.cons rfl id)

theorem founded_keepsOther (done : c.env.switch.perform (.createTunnel tunnel) = .ok switch) :
    KeepsTunnel hop n n c (c.founded tunnel switch) := by
  have name : hop.render ≠ tunnel.render := fun same => apart (TunnelHop.render_injective same)
  refine keepsTunnel_of_get? ?_ ?_ (.entered rfl ⟨id, id, fun on => name (Option.some.inj on).symm⟩)
  · rw [founded, SortedMap.get?_insert_ne _ _ apart, SortedMap.get?_insert_ne _ _ apart]
  · show switch.tunnels.get? hop.render = _
    rw [(Switch.perform_createTunnel done).2, SortedMap.get?_insert_ne _ _ name]

theorem abandoned_keepsOther (done : c.env.switch.perform (.removeTunnel tunnel) = .ok switch) :
    KeepsTunnel hop n n c (c.abandoned tunnel switch) := by
  have name : hop.render ≠ tunnel.render := fun same => apart (TunnelHop.render_injective same)
  refine keepsTunnel_of_get? (SortedMap.get?_erase_ne _ apart) ?_
    (.entered rfl ⟨id, id, fun on => name (Option.some.inj on).symm⟩)
  show switch.tunnels.get? hop.render = _
  rw [(Switch.perform_removeTunnel done).2, SortedMap.get?_erase_ne _ name]

end users

end live

end Context

namespace Rule

open Context (KeepsRule KeepsTunnel Live)

variable {owner : EniAttributes} {r r' : Rule} {c c' : Context} {name : String} {hop : TunnelHop}

theorem Move.keepsRule (move : Move owner (r, c) (r', c')) (apart : r.key ≠ name) :
    KeepsRule name c c' := by
  refine ⟨move.rules_eq (Ne.symm apart), ?_⟩
  have other : some r.key ≠ some name := fun same => apart (Option.some.inj same)
  cases move with
  | quiet _ quiet => exact quiet.without_onRule name
  | @refused _ _ call message due =>
    refine .cons rfl fun on => ?_
    cases call with
    | setRule key fields => exact other (due.1 ▸ on)
    | deleteRule key => exact other (due.1 ▸ on)
    | setTableType | setTable | createTunnel | removeTunnel => cases on
  | adjust => exact refl c
  | uninstall on done => exact .cons rfl other
  | install off leads resolved known done => exact .cons rfl other
  | join | leave | stray => exact .cons rfl id
  | found | abandon =>
    exact .entered rfl ⟨id, id, fun on => by cases on⟩

theorem holds_of_hop? (same : r'.hop? = r.hop?) : r'.holds hop = r.holds hop := by
  simp only [holds, same]

theorem holds_eq_one (held : r.hop? = some hop) : r.holds hop = 1 := by
  simp [holds, held]

theorem holds_eq_zero {tunnel : TunnelHop} (held : r.hop? = some tunnel) (apart : hop ≠ tunnel) :
    r.holds hop = 0 := by
  simp [holds, held, Ne.symm apart]

theorem holds_of_free (free : r.hop? = none) : r.holds hop = 0 := by
  simp [holds, free]

/-- As long as a tunnel next hop has other users, a move keeps it. -/
theorem Move.keepsTunnel (move : Move owner (r, c) (r', c')) {n : Nat} (room : n + 2 < UInt32.size) :
    KeepsTunnel hop (n + r.holds hop) (n + r'.holds hop) c c' := by
  -- what a rule comes to hold or lets go of is this tunnel next hop or another one
  cases move with
  | quiet _ quiet => exact quiet.keepsTunnel hop _
  | refused message due => exact Context.keepsTunnel_of_get? rfl rfl (.cons rfl id)
  | adjust c named off held =>
    rw [holds_of_hop? held]
    exact fun _ live => ⟨live, refl c⟩
  | uninstall on done =>
    have tunnels := (Switch.perform_deleteRule done).2
    exact Context.keepsTunnel_of_get? rfl (by rw [← tunnels]; rfl) (.cons rfl fun on => by cases on)
  | install off leads resolved known done =>
    have tunnels := (Switch.perform_setRule done).2
    exact Context.keepsTunnel_of_get? rfl (by rw [← tunnels]; rfl) (.cons rfl fun on => by cases on)
  | @join _ _ next tunnel use off free holds known =>
    have gained : ({ r with nextHop := some next } : Rule).hop? = some tunnel := holds
    rw [holds_of_free free]
    by_cases this : hop = tunnel
    · subst this
      rw [holds_eq_one gained]
      exact Context.joined_keepsTunnel known room
    · rw [holds_eq_zero gained this]
      exact Context.joined_keepsOther this
  | @found _ _ next tunnel switch off free holds unknown done =>
    have gained : ({ r with nextHop := some next } : Rule).hop? = some tunnel := holds
    by_cases this : hop = tunnel
    · exact Context.keepsTunnel_of_unknown (this ▸ unknown)
    · rw [holds_of_free free, holds_eq_zero gained this]
      exact Context.founded_keepsOther this done
  | @leave _ _ tunnel use off held known shared =>
    rw [holds_of_free (r := { r with nextHop := none }) rfl]
    by_cases this : hop = tunnel
    · subst this
      rw [holds_eq_one held]
      exact Context.left_keepsTunnel known shared
    · rw [holds_eq_zero held this]
      exact Context.left_keepsOther this
  | @abandon _ _ tunnel use switch off held known last done =>
    by_cases this : hop = tunnel
    · subst this
      rw [holds_eq_one held]
      exact Context.keepsTunnel_of_last known last
    · rw [holds_of_free (r := { r with nextHop := none }) rfl, holds_eq_zero held this]
      exact Context.abandoned_keepsOther this done
  | @stray _ _ tunnel off held unknown =>
    by_cases this : hop = tunnel
    · exact Context.keepsTunnel_of_unknown (this ▸ unknown)
    · rw [holds_of_free (r := { r with nextHop := none }) rfl, holds_eq_zero held this]
      exact Context.keepsTunnel_of_get? rfl rfl (.cons rfl id)

variable {p p' : Rule × Context}

theorem Moves.keepsRule (moves : Moves owner p p') (apart : p.1.key ≠ name) :
    KeepsRule name p.2 p'.2 := by
  induction moves with
  | refl => exact refl _
  | tail earlier move ih =>
    have same : _ = p.1.key := (Moves.fixed earlier).1
    exact IsTrans.trans _ _ _ ih (move.keepsRule (same.trans_ne apart))

theorem Moves.keepsTunnel (moves : Moves owner p p') {n : Nat} (room : n + 2 < UInt32.size) :
    KeepsTunnel hop (n + p.1.holds hop) (n + p'.1.holds hop) p.2 p'.2 := by
  induction moves with
  | refl => exact fun _ live => ⟨live, refl _⟩
  | tail _ move ih => exact ih.trans (move.keepsTunnel room)

end Rule

end EniForwarding
