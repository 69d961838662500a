import EniForwarding.Proofs.Rule.Moves

/-! What can be looked up in a context, and that work leaves it as it is.

An interface or a VIP that has been found is kept, and it is what would be found again as
long as the inventory stays. So the outlook of a context takes together what has been
found and what would be; no operation changes it. The same goes for the plans of failing
calls where there are none, and for a switch that refuses nothing.
-/

set_option autoImplicit false

namespace EniForwarding

/-- What has been looked up or would be. -/
structure Outlook where
  dpus : Dpus
  inventory : Inventory
  alias? : Net.Address → Option String
  vip? : Except Inventory.VipError Net.Prefix

def Outlook.reaches (o : Outlook) (ip : Net.Address) : Bool :=
  (o.alias? ip).any fun name => o.inventory.isResolved ⟨ip, name⟩

theorem Switch.perform_rejects {s s' : Switch} {call : Call} (done : s.perform call = .ok s') :
    s'.rejectsAcl = s.rejectsAcl ∧ s'.rejectsTunnels = s.rejectsTunnels := by
  cases call with
  | setTableType | setTable | setRule | deleteRule =>
    simp only [perform, setTableType, setTable, setRule, deleteRule] at done
    split at done
    · cases done
    · cases done; exact ⟨rfl, rfl⟩
  | createTunnel | removeTunnel =>
    simp only [perform, createTunnel, removeTunnel] at done
    split at done
    · cases done
    · split at done <;> cases done
      exact ⟨rfl, rfl⟩

namespace Context

def outlook (c : Context) : Outlook where
  dpus := c.dpus
  inventory := c.env.inventory
  alias? ip := c.aliases.get? ip <|> c.env.inventory.alias? ip
  vip? :=
    match c.vip with
    | some vip => .ok vip
    | none => c.env.inventory.vip?

/-- No call is lost on its way, and the switch refuses none out of hand. -/
structure Willing (c : Context) : Prop where
  faultless : c.env.faults = .none
  acl : c.env.switch.rejectsAcl = false
  tunnels : c.env.switch.rejectsTunnels = false

/-- What can be looked up stays, and so does a willing switch. -/
structure Steady (c c' : Context) : Prop where
  outlook : c'.outlook = c.outlook
  willing : c.Willing → c'.Willing

instance : Std.Refl Steady := ⟨fun _ => ⟨rfl, id⟩⟩

instance : IsTrans Context Steady := by
  constructor
  intro c c' c'' first second
  exact ⟨second.outlook.trans first.outlook, second.willing ∘ first.willing⟩

theorem Steady.dpus {c c' : Context} (steady : c.Steady c') : c'.dpus = c.dpus :=
  congrArg Outlook.dpus steady.outlook

/-- Moreover the users of the tunnel next hops stay. -/
structure Still (c c' : Context) : Prop extends Steady c c' where
  tunnels : c'.tunnels = c.tunnels

instance : Std.Refl Still := ⟨fun c => ⟨refl c, rfl⟩⟩

instance : IsTrans Context Still := by
  constructor
  intro c c' c'' first second
  exact ⟨IsTrans.trans _ _ _ first.toSteady second.toSteady, second.tunnels.trans first.tunnels⟩

section steps

variable (c : Context) {c' : Context} {call : Call} {switch : Switch}

theorem Steady.of_eq (outlook : c'.outlook = c.outlook) (faults : c'.env.faults = c.env.faults)
    (switch : c'.env.switch = c.env.switch) : c.Steady c' where
  outlook := outlook
  willing w := ⟨faults.trans w.faultless, by rw [switch, w.acl], by rw [switch, w.tunnels]⟩

theorem Still.of_eq (outlook : c'.outlook = c.outlook) (faults : c'.env.faults = c.env.faults)
    (switch : c'.env.switch = c.env.switch) (tunnels : c'.tunnels = c.tunnels) : c.Still c' :=
  ⟨.of_eq c outlook faults switch, tunnels⟩

theorem still_noted (e : Event) : c.Still (c.noted e) := .of_eq c rfl rfl rfl rfl

theorem still_refused (call : Call) (message : String) : c.Still (c.refused call message) where
  outlook := rfl
  -- without plans there are none to go on with
  willing w := ⟨by rw [refused, Environment.refused, w.faultless]; rfl, w.acl, w.tunnels⟩
  tunnels := rfl

theorem still_refusal (call : Call) (message : String) (e : Event) :
    c.Still ((c.refused call message).noted e) :=
  IsTrans.trans _ _ _ (c.still_refused call message) (still_noted _ e)

theorem Steady.of_accepted (done : c.env.switch.perform call = .ok switch)
    (outlook : c'.outlook = c.outlook) (faults : c'.env.faults = c.env.faults.advance call.kind)
    (same : c'.env.switch = switch) : c.Steady c' where
  outlook := outlook
  willing w := by
    obtain ⟨acl, tunnels⟩ := Switch.perform_rejects done
    refine ⟨?_, ?_, ?_⟩
    · rw [faults, w.faultless]
      rfl
    · rw [same, acl, w.acl]
    · rw [same, tunnels, w.tunnels]

end steps

/-- An operation that changes nothing that can be looked up, and no users. -/
abbrev Steadily {α : Type} (x : Action Context α) (c : Context) (after : α → Context → Prop) : Prop :=
  x.Leads Still c after

theorem steadily_audit (r : Audit.Record) (c : Context) : Steadily (audit r) c fun _ _ => True :=
  .modify (c.still_noted (.audited r)) trivial

theorem steadily_ask (n : Neighbor) (c : Context) : Steadily (ask n) c fun _ _ => True :=
  .modify (c.still_noted (.asked n)) trivial

theorem steadily_auditFailure {α : Type} {r : Audit.Record} {x : Action Context α} {c : Context}
    {after : α → Context → Prop} (steadily : Steadily x c after) :
    Steadily (auditFailure r x) c after := by
  unfold Steadily Action.Leads at steadily ⊢
  unfold auditFailure Action.onFailure
  generalize x c = outcome at steadily ⊢
  obtain ⟨result, c'⟩ := outcome
  cases result with
  | ok a => exact steadily
  | error e => exact ⟨IsTrans.trans _ _ _ steadily.1 (c'.still_noted _), by simp⟩

theorem steadily_alias (ip : Net.Address) (c : Context) :
    Steadily (Context.«alias» ip) c fun name _ => name = c.outlook.alias? ip := by
  rcases alias_cases ip c with ⟨name, known, run⟩ | ⟨known, asked, run⟩ | ⟨name, known, asked, run⟩
  · exact .of_ok run (refl c) (by simp [outlook, known])
  · exact .of_ok run (.of_eq c rfl rfl rfl rfl) (by simp [outlook, known, asked])
  · refine .of_ok run (.of_eq c ?_ rfl rfl rfl) (by simp [outlook, known, asked])
    have same : ∀ other, ((c.aliases.insert ip name).get? other <|> c.env.inventory.alias? other) =
        (c.aliases.get? other <|> c.env.inventory.alias? other) := by
      intro other
      by_cases here : other = ip
      · simp [here, SortedMap.get?_insert_self, known, asked]
      · rw [SortedMap.get?_insert_ne _ _ here]
    simp only [outlook, same]

theorem steadily_findVip (c : Context) :
    Steadily findVip c fun vip c' => c.outlook.vip? = .ok vip ∧ c'.vip = some vip := by
  rcases c.findVip_cases with ⟨vip, known, run⟩ | ⟨e, -, -, run⟩ | ⟨vip, known, found, run⟩
  · exact .of_ok run (refl c) ⟨by simp [outlook, known], known⟩
  · exact .of_error run (refl c)
  · exact .of_ok run (.of_eq c (by simp [outlook, known, found]) rfl rfl rfl)
      ⟨by simp [outlook, known, found], rfl⟩

theorem steadily_call (call : Call) (refused : String → Failure) (c : Context) :
    Steadily (Context.call call refused) c fun _ _ => True := by
  rcases c.call_cases call refused with ⟨message, run⟩ | ⟨switch, done, run⟩
  · exact .of_error run (c.still_refused _ message)
  · exact .of_ok run ⟨.of_accepted c done rfl rfl rfl, rfl⟩ trivial

theorem steadily_setRule (key : String) (fields : Fields) (c : Context) :
    Steadily (setRule key fields) c fun _ _ => True :=
  .bind (steadily_call _ _ c) fun _ c' _ => .modify (.of_eq c' rfl rfl rfl rfl) trivial

/-- Whether an address is reached can be told without asking. -/
theorem steadily_reach (ip : Net.Address) (c : Context) :
    Steadily (NextHop.reach ip) c fun answer _ => answer = c.outlook.reaches ip := by
  refine .bind_from (steadily_alias ip c) ?_
  rintro (- | name) c' still known
  · exact .pure (by simp [Outlook.reaches, ← known])
  · -- the inventory that is asked is still the same
    have same : c'.env.inventory = c.env.inventory := congrArg Outlook.inventory still.outlook
    have answer : c.outlook.reaches ip = c'.env.inventory.isResolved ⟨ip, name⟩ := by
      rw [same, Outlook.reaches, ← known]
      rfl
    refine .get_bind ?_
    split
    next resolved => exact .pure (by rw [answer, resolved])
    next unresolved =>
      refine .bind (steadily_ask _ c') fun _ _ _ => .pure ?_
      rw [answer, Bool.eq_false_iff.2 unresolved]

def users (c : Context) (hop : TunnelHop) : Nat := ((c.tunnels.refs? hop).map UInt32.toNat).getD 0

theorem users_le (c : Context) (hop : TunnelHop) : c.users hop ≤ UInt32.size - 1 := by
  unfold users
  cases c.tunnels.refs? hop with
  | none => exact Nat.zero_le _
  | some refs => exact Nat.le_pred_of_lt refs.toNat_lt

theorem Still.users {c c' : Context} (still : c.Still c') (hop : TunnelHop) :
    c'.users hop = c.users hop := by
  rw [Context.users, still.tunnels, Context.users]

/-- A tunnel next hop gains a user, as far as users can be counted. -/
structure Gains (hop : TunnelHop) (c c' : Context) : Prop extends Steady c c' where
  here : c'.users hop = min (c.users hop + 1) (UInt32.size - 1)
  others : ∀ other, other ≠ hop → c'.users other = c.users other

/-- A tunnel next hop loses a user, if it has one that was counted. -/
structure Loses (hop : TunnelHop) (c c' : Context) : Prop extends Steady c c' where
  here : c'.users hop = c.users hop - 1
  others : ∀ other, other ≠ hop → c'.users other = c.users other

section table

variable {c c' : Context} {hop : TunnelHop}

theorem users_of_get? {use : TunnelUse} (known : c.tunnels.get? hop = some use) :
    c.users hop = use.refs.toNat := by
  simp [users, SortedMap.refs?, known, Counted.refs]

theorem users_of_unknown (unknown : c.tunnels.get? hop = none) : c.users hop = 0 := by
  simp [users, SortedMap.refs?, unknown]

theorem users_insert_ne {other : TunnelHop} {use : TunnelUse} (apart : other ≠ hop)
    (tunnels : c'.tunnels = c.tunnels.insert hop use) : c'.users other = c.users other := by
  simp only [users, SortedMap.refs?, tunnels, SortedMap.get?_insert_ne _ _ apart]

theorem acquire_gains (c : Context) (hop : TunnelHop) :
    (∃ handle c', acquire hop c = (.ok handle, c') ∧ Gains hop c c') ∨
      ∃ e c', acquire hop c = (.error e, c') ∧ c.Still c' := by
  cases known : c.tunnels.get? hop with
  | some use =>
    refine .inl ⟨_, _, acquire_known known, ⟨?_, ?_, ?_⟩⟩
    · exact .of_eq c rfl rfl rfl
    · rw [users_of_get? known, users_of_get? (SortedMap.get?_insert_self _ _ _)]
      exact Counted.toNat_up use.refs
    · exact fun other apart => users_insert_ne apart rfl
  | none =>
    rcases acquire_unknown known with ⟨message, r, refusal⟩ | ⟨switch, done, carried⟩
    · exact .inr ⟨_, _, refusal, c.still_refusal _ _ _⟩
    · refine .inl ⟨_, _, carried, ⟨.of_accepted c done rfl rfl rfl, ?_, fun other apart => ?_⟩⟩
      · rw [users_of_unknown known, users_of_get? (SortedMap.get?_insert_self _ _ _)]
        exact Counted.toNat_up 0
      · simp only [users, SortedMap.refs?, founded, SortedMap.get?_insert_ne _ _ apart]

theorem release_loses (c : Context) (hop : TunnelHop) :
    (∃ c', release hop c = (.ok (), c') ∧ Loses hop c c') ∨
      ∃ e c', release hop c = (.error e, c') ∧ c.Still c' := by
  cases known : c.tunnels.get? hop with
  | none =>
    have same := c.still_noted (.left hop false)
    refine .inl ⟨_, release_unknown known, same.toSteady, ?_, fun other _ => same.users other⟩
    rw [same.users, users_of_unknown known]
  | some use =>
    by_cases shared : 1 < use.refs
    · refine .inl ⟨_, release_shared known shared, ?_, ?_, fun other apart => users_insert_ne apart rfl⟩
      · exact .of_eq c rfl rfl rfl
      · rw [users_of_get? known, users_of_get? (SortedMap.get?_insert_self _ _ _)]
        exact UInt32.toNat_sub_of_le _ _ (UInt32.le_of_lt shared)
    · rcases release_last known shared with ⟨message, r, refusal⟩ | ⟨switch, done, carried⟩
      · exact .inr ⟨_, _, refusal, c.still_refusal _ _ _⟩
      · refine .inl ⟨_, carried, .of_accepted c done rfl rfl rfl, ?_, fun other apart => ?_⟩
        · have single : ¬ 1 < use.refs.toNat := fun more => shared (UInt32.lt_iff_toNat_lt.2 more)
          rw [users_of_get? known, users_of_unknown (SortedMap.get?_erase_self _ _)]
          omega
        · simp only [users, SortedMap.refs?, abandoned, SortedMap.get?_erase_ne _ apart]

end table

end Context

end EniForwarding
