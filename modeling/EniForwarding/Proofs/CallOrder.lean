import EniForwarding.Proofs.Runs
import EniForwarding.Proofs.World.Counting

/-! Calls come in turn.

A rule is written before it is deleted and deleted before it is written again, and a
tunnel next hop is created before it is removed and removed before it is created again.
This follows from a history being orderly: each call writes what is not there or takes
away what is, so what is there tells which of the two came last.
-/

set_option autoImplicit false

namespace EniForwarding

def Call.rule? : Call → Option String
  | .setRule key _ | .deleteRule key => some key
  | _ => none

def Call.tunnel? : Call → Option String
  | .createTunnel hop | .removeTunnel hop => some hop.render
  | _ => none

/-- Items of two sorts in turn, beginning with the first sort. -/
inductive Alternates {α : Type} : (α → Prop) → (α → Prop) → List α → Prop
  | nil (first second : α → Prop) : Alternates first second []
  | cons {first second : α → Prop} {a : α} {rest : List α} (turn : first a)
      (others : Alternates second first rest) : Alternates first second (a :: rest)

theorem alternates_cons {α : Type} {first second : α → Prop} {a : α} {rest : List α} :
    Alternates first second (a :: rest) ↔ first a ∧ Alternates second first rest :=
  ⟨fun | .cons turn others => ⟨turn, others⟩, fun ⟨turn, others⟩ => .cons turn others⟩

theorem alternates_concat {α : Type} {first second : α → Prop} (l : List α) (a : α) :
    Alternates first second (l ++ [a]) ↔
      Alternates first second l ∧ if l.length % 2 = 0 then first a else second a := by
  induction l generalizing first second with
  | nil => simp [alternates_cons, Alternates.nil]
  | cons b rest ih =>
    -- behind the first item the sorts change places
    rw [List.cons_append, alternates_cons, alternates_cons, ih, List.length_cons]
    by_cases even : rest.length % 2 = 0
    · have odd : ¬ (rest.length + 1) % 2 = 0 := by omega
      simp only [even, odd, if_true, if_false, and_assoc]
    · have odd : (rest.length + 1) % 2 = 0 := by omega
      simp only [even, odd, if_true, if_false, and_assoc]

namespace Switch

theorem perform_of_accepts {s : Switch} {call : Call} (calm : s.calm = s) (accepts : s.Accepts call) :
    s.perform call = .ok (s.after call) := by
  have acl : s.rejectsAcl = false := (congrArg Switch.rejectsAcl calm).symm
  have tunnels : s.rejectsTunnels = false := (congrArg Switch.rejectsTunnels calm).symm
  cases call with
  | setTableType | setTable | setRule | deleteRule =>
    simp [after, perform, setTableType, setTable, setRule, deleteRule, acl]
  | createTunnel hop =>
    have absent : s.tunnels.contains hop.render = false := accepts
    simp [after, perform, createTunnel, tunnels, absent]
  | removeTunnel hop =>
    have present : s.tunnels.contains hop.render = true := accepts
    simp [after, perform, removeTunnel, tunnels, present]

end Switch

/-- Something in the switch that calls of two sorts put there and take away, and other calls
leave as it is. -/
structure Toggle (there : Switch → Bool) (about : Call → Bool) (puts takes : Call → Prop) : Prop where
  start : there .empty = false
  turn : ∀ {s : Switch} {call : Call}, s.calm = s → s.Accepts call → about call = true →
    (there s = false ∧ puts call ∧ there (s.after call) = true) ∨
      (there s = true ∧ takes call ∧ there (s.after call) = false)
  other : ∀ {s : Switch} {call : Call}, s.calm = s → s.Accepts call → about call = false →
    there (s.after call) = there s

/-- In an orderly history the calls of the two sorts come in turn, and what is there tells
which came last. -/
theorem Toggle.alternates {there : Switch → Bool} {about : Call → Bool} {puts takes : Call → Prop}
    (toggle : Toggle there about puts takes) {h : History} (orderly : h.Orderly) :
    Alternates puts takes (h.done.filter about) ∧
      there h.recalled = decide ((h.done.filter about).length % 2 = 1) := by
  induction h with
  | nil => exact ⟨.nil puts takes, toggle.start⟩
  | cons e earlier ih =>
    obtain ⟨now, before⟩ := History.always_cons.1 orderly
    obtain ⟨alternates, last⟩ := ih before
    cases e with
    | called call failure =>
      cases failure with
      | some message => exact ⟨alternates, last⟩
      | none =>
        have accepts : (History.recalled earlier).Accepts call := now
        have calm := History.recalled_calm earlier
        simp only [History.done, History.recalled, List.filter_append]
        cases concerned : about call with
        | false =>
          have nothing : [call].filter about = [] := by simp [concerned]
          rw [nothing, List.append_nil, toggle.other calm accepts concerned]
          exact ⟨alternates, last⟩
        | true =>
          have one : [call].filter about = [call] := by simp [concerned]
          rw [one, alternates_concat, List.length_append, List.length_singleton]
          -- an even number of calls before has left nothing there
          rcases toggle.turn calm accepts concerned with ⟨was, puts, is⟩ | ⟨was, takes, is⟩
          · have even : ((History.done earlier).filter about).length % 2 = 0 := by
              rw [was] at last
              have := of_decide_eq_false last.symm
              omega
            rw [is]
            exact ⟨⟨alternates, by rwa [if_pos even]⟩, (decide_eq_true (by omega)).symm⟩
          · have odd : ((History.done earlier).filter about).length % 2 = 1 := by
              rw [was] at last
              exact of_decide_eq_true last.symm
            have not_even : ¬ ((History.done earlier).filter about).length % 2 = 0 := by omega
            rw [is]
            exact ⟨⟨alternates, by rwa [if_neg not_even]⟩, (decide_eq_false (by omega)).symm⟩
    | asked | audited | joined | left => exact ⟨alternates, last⟩

theorem toggle_rule (key : String) : Toggle (·.rules.contains key) (·.rule? == some key)
    (·.kind = .setRule) (·.kind = .deleteRule) where
  start := rfl
  turn := by
    intro s call calm accepts concerned
    have done := Switch.perform_of_accepts calm accepts
    cases call with
    | setRule name fields =>
      have same : name = key := by simpa [Call.rule?] using concerned
      subst same
      refine .inl ⟨accepts, rfl, ?_⟩
      rw [(Switch.perform_setRule done).1, SortedMap.contains, SortedMap.get?_insert_self]
      rfl
    | deleteRule name =>
      have same : name = key := by simpa [Call.rule?] using concerned
      subst same
      refine .inr ⟨accepts, rfl, ?_⟩
      rw [(Switch.perform_deleteRule done).1, SortedMap.contains, SortedMap.get?_erase_self]
      rfl
    | setTableType | setTable | createTunnel | removeTunnel => simp [Call.rule?] at concerned
  other := by
    intro s call calm accepts elsewhere
    have done := Switch.perform_of_accepts calm accepts
    cases call with
    | setRule name fields =>
      have apart : key ≠ name := by
        rintro rfl
        simp [Call.rule?] at elsewhere
      rw [(Switch.perform_setRule done).1, SortedMap.contains, SortedMap.get?_insert_ne _ _ apart]
      rfl
    | deleteRule name =>
      have apart : key ≠ name := by
        rintro rfl
        simp [Call.rule?] at elsewhere
      rw [(Switch.perform_deleteRule done).1, SortedMap.contains, SortedMap.get?_erase_ne _ apart]
      rfl
    | setTableType | setTable => rw [(Switch.perform_table rfl done).1]
    | createTunnel => rw [(Switch.perform_createTunnel done).1]
    | removeTunnel => rw [(Switch.perform_removeTunnel done).1]

theorem toggle_tunnel (name : String) : Toggle (·.tunnels.contains name) (·.tunnel? == some name)
    (·.kind = .createTunnel) (·.kind = .removeTunnel) where
  start := rfl
  turn := by
    intro s call calm accepts concerned
    have done := Switch.perform_of_accepts calm accepts
    cases call with
    | createTunnel hop =>
      have same : hop.render = name := by simpa [Call.tunnel?] using concerned
      subst same
      refine .inl ⟨accepts, rfl, ?_⟩
      rw [(Switch.perform_createTunnel done).2, SortedMap.contains, SortedMap.get?_insert_self]
      rfl
    | removeTunnel hop =>
      have same : hop.render = name := by simpa [Call.tunnel?] using concerned
      subst same
      refine .inr ⟨accepts, rfl, ?_⟩
      rw [(Switch.perform_removeTunnel done).2, SortedMap.contains, SortedMap.get?_erase_self]
      rfl
    | setTableType | setTable | setRule | deleteRule => simp [Call.tunnel?] at concerned
  other := by
    intro s call calm accepts elsewhere
    have done := Switch.perform_of_accepts calm accepts
    cases call with
    | createTunnel hop =>
      have apart : name ≠ hop.render := by
        rintro rfl
        simp [Call.tunnel?] at elsewhere
      rw [(Switch.perform_createTunnel done).2, SortedMap.contains,
        SortedMap.get?_insert_ne _ _ apart]
      rfl
    | removeTunnel hop =>
      have apart : name ≠ hop.render := by
        rintro rfl
        simp [Call.tunnel?] at elsewhere
      rw [(Switch.perform_removeTunnel done).2, SortedMap.contains, SortedMap.get?_erase_ne _ apart]
      rfl
    | setTableType | setTable => rw [(Switch.perform_table rfl done).2]
    | setRule => rw [(Switch.perform_setRule done).2]
    | deleteRule => rw [(Switch.perform_deleteRule done).2]

namespace Context

theorem acquire_outcome (c : Context) (hop : TunnelHop) :
    (∃ handle, (acquire hop c).1 = .ok handle) ∨ c.tunnels.contains hop = false ∧
      ∃ message, (acquire hop c).1 =
        .error (.tunnelRefused ("create " ++ hop.render ++ ": " ++ message)) := by
  cases known : c.tunnels.get? hop with
  | some use => exact .inl ⟨use.handle, by rw [acquire_known known]⟩
  | none =>
    rcases acquire_unknown known with ⟨message, r, refusal⟩ | ⟨switch, -, carried⟩
    · exact .inr ⟨by simp [SortedMap.contains, known], message, by rw [refusal]⟩
    · exact .inl ⟨switch.lastHandle, by rw [carried]⟩

theorem release_outcome (c : Context) (hop : TunnelHop) :
    (release hop c).1 = .ok () ∨ c.tunnels.contains hop = true ∧
      ∃ message, (release hop c).1 =
        .error (.tunnelRefused ("remove " ++ hop.render ++ ": " ++ message)) := by
  cases known : c.tunnels.get? hop with
  | none => exact .inl (by rw [release_unknown known])
  | some use =>
    by_cases shared : 1 < use.refs
    · exact .inl (by rw [release_shared known shared])
    · rcases release_last known shared with ⟨message, r, refusal⟩ | ⟨switch, -, carried⟩
      · exact .inr ⟨by simp [SortedMap.contains, known], message, by rw [refusal]⟩
      · exact .inl (by rw [carried])

end Context

namespace Reconciler

/-- Calls about one rule, and calls about one tunnel next hop, succeed in turn; no call is
ever made that would overwrite something or take away what is not there; and as long as
users can be counted, none gives back what is not known. -/
theorem calls_take_turns (config : Config) (inventory : Inventory) (requests : List Request) :
    let h : History := ((fresh config inventory).run requests).ctx.env.trace
    (∀ key, Alternates (·.kind = .setRule) (·.kind = .deleteRule)
      (h.done.filter (·.rule? == some key))) ∧
    (∀ name, Alternates (·.kind = .createTunnel) (·.kind = .removeTunnel)
      (h.done.filter (·.tunnel? == some name))) ∧
    h.Orderly ∧ (h.Countable → h.Trusting) ∧
    ∀ (c : Context) (hop : TunnelHop),
      ((∃ handle, (Context.acquire hop c).1 = .ok handle) ∨ c.tunnels.contains hop = false ∧
        ∃ message, (Context.acquire hop c).1 =
          .error (.tunnelRefused ("create " ++ hop.render ++ ": " ++ message))) ∧
      ((Context.release hop c).1 = .ok () ∨ c.tunnels.contains hop = true ∧
        ∃ message, (Context.release hop c).1 =
          .error (.tunnelRefused ("remove " ++ hop.render ++ ": " ++ message))) := by
  obtain ⟨-, -, reachable⟩ :=
    @run_reachable (fun _ => True) config inventory requests fun _ _ => trivial
  intro h
  -- no limit on the number of rules is needed up to here
  have orderly : h.Orderly := reachable.coherent.orderly
  refine ⟨fun key => ((toggle_rule key).alternates orderly).1,
    fun name => ((toggle_tunnel name).alternates orderly).1, orderly,
    fun countable => (reachable.counting countable).trusting, fun c hop => ?_⟩
  exact ⟨c.acquire_outcome hop, c.release_outcome hop⟩

/-- Where there are always fewer rules than can be counted, there are always fewer users. -/
theorem run_countable (config : Config) (inventory : Inventory) (requests : List Request)
    (few : ∀ n ∈ (fresh config inventory).headcounts requests, n < UInt32.size) :
    History.Countable ((fresh config inventory).run requests).ctx.env.trace :=
  (run_reachable config inventory requests few).2.2.countable

theorem sample_calls_take_turns :
    let h : History := ((fresh {} sampleInventory).run sampleRequests).ctx.env.trace
    (h.done.filter (·.rule? == some "ENI:Vnet_1000_AABBCCDDEEFF_OUT")).map Call.kind =
      [.setRule, .deleteRule, .setRule] ∧
    Alternates (·.kind = .setRule) (·.kind = .deleteRule)
      (h.done.filter (·.rule? == some "ENI:Vnet_1000_AABBCCDDEEFF_OUT")) ∧ h.Trusting := by
  obtain ⟨rules, -, -, trusting, -⟩ := calls_take_turns {} sampleInventory sampleRequests
  have countable := run_countable {} sampleInventory sampleRequests sample_few
  have kinds : ((History.done ((fresh {} sampleInventory).run sampleRequests).ctx.env.trace).filter
      (·.rule? == some "ENI:Vnet_1000_AABBCCDDEEFF_OUT")).map Call.kind =
        [.setRule, .deleteRule, .setRule] := by
    decide +kernel
  exact ⟨kinds, rules "ENI:Vnet_1000_AABBCCDDEEFF_OUT", trusting countable⟩

end Reconciler

end EniForwarding
