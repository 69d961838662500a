import EniForwarding.Proofs.World

/-! The switch shows the rules and the users, and nothing else.

At every moment the successful calls make up the switch, the table of tunnel next hops
is that of the switch, an installed rule is in the switch with the fields that it was
written with, any other rule is not, and the users of a tunnel next hop are the rules
that hold it. It follows that no call is ever out of order. None of this needs a limit
on the number of rules.
-/

set_option autoImplicit false

namespace EniForwarding

open Relation

/-- A counter that has been raised so often, as far as it can be told. -/
def Counter.Shows (n : Counter) (times : Nat) : Prop := n.toNat = min times (UInt64.size - 1)

theorem Counter.Shows.bump {n : Counter} {times : Nat} (shows_ : n.Shows times) :
    n.bump.Shows (times + 1) := by
  unfold Shows at shows_ ⊢
  unfold Counter.bump
  have below := n.toNat_lt
  split
  next full =>
    rw [full] at shows_ ⊢
    have top : (0xffffffffffffffff : UInt64).toNat = UInt64.size - 1 := rfl
    omega
  next open_ =>
    have short : n.toNat ≠ UInt64.size - 1 := fun full => open_ (UInt64.toNat_inj.1 full)
    rw [UInt64.toNat_add]
    have one : (1 : UInt64).toNat = 1 := rfl
    have size : UInt64.size = 18446744073709551616 := rfl
    omega

namespace Context

def Recalled (c : Context) : Prop := History.recalled c.env.trace = c.env.switch.calm

/-- The switch has the tunnel next hops of the table, with their handles, and no others. -/
structure Mirrored (c : Context) : Prop where
  handles : ∀ hop : TunnelHop,
    c.env.switch.tunnels.get? hop.render = (c.tunnels.get? hop).map TunnelUse.handle
  named : ∀ name, c.env.switch.tunnels.contains name = true → ∃ hop : TunnelHop, hop.render = name

/-- The counters tell how often a rule has been written and deleted. -/
def Tallied (c : Context) : Prop :=
  ∃ written deleted, written = deleted + c.env.switch.rules.size ∧
    c.rulesInstalled.Shows written ∧ c.rulesUninstalled.Shows deleted

variable {c c' : Context}

theorem Mirrored.transfer (mirrored : c.Mirrored)
    (same : c'.env.switch.tunnels = c.env.switch.tunnels)
    (table : ∀ hop, (c'.tunnels.get? hop).map TunnelUse.handle =
      (c.tunnels.get? hop).map TunnelUse.handle) : c'.Mirrored where
  handles hop := by rw [same, table, mirrored.handles]
  named := by simpa only [same] using mirrored.named

theorem Mirrored.update (mirrored : c.Mirrored) (tunnel : TunnelHop)
    (here : c'.env.switch.tunnels.get? tunnel.render =
      (c'.tunnels.get? tunnel).map TunnelUse.handle)
    (switch : ∀ name, name ≠ tunnel.render →
      c'.env.switch.tunnels.get? name = c.env.switch.tunnels.get? name)
    (table : ∀ hop, hop ≠ tunnel → c'.tunnels.get? hop = c.tunnels.get? hop) : c'.Mirrored := by
  constructor
  · intro hop
    by_cases same : hop = tunnel
    · rw [same, here]
    · have apart : hop.render ≠ tunnel.render := fun names => same (TunnelHop.render_injective names)
      rw [switch hop.render apart, table hop same, mirrored.handles]
  · intro name there
    by_cases same : name = tunnel.render
    · exact ⟨tunnel, same.symm⟩
    · rw [SortedMap.contains, switch name same] at there
      exact mirrored.named name there

section tunnels

variable {hop : TunnelHop} {use : TunnelUse} {switch : Switch} (mirrored : c.Mirrored)

include mirrored

theorem Mirrored.recount {refs : UInt32} (known : c.tunnels.get? hop = some use)
    (same : c'.env.switch.tunnels = c.env.switch.tunnels)
    (tunnels : c'.tunnels = c.tunnels.insert hop { use with refs := refs }) : c'.Mirrored := by
  refine mirrored.transfer same fun other => ?_
  rw [tunnels]
  by_cases here : other = hop
  · rw [here, SortedMap.get?_insert_self, known]
    rfl
  · rw [SortedMap.get?_insert_ne _ _ here]

theorem Mirrored.founded (done : c.env.switch.perform (.createTunnel hop) = .ok switch) :
    (c.founded hop switch).Mirrored := by
  have tunnels : (c.founded hop switch).env.switch.tunnels = _ :=
    (Switch.perform_createTunnel done).2
  apply mirrored.update hop
  · rw [tunnels, SortedMap.get?_insert_self, Context.founded, SortedMap.get?_insert_self]
    rfl
  · intro name other
    rw [tunnels, SortedMap.get?_insert_ne _ _ other]
  · intro hop other
    rw [Context.founded, SortedMap.get?_insert_ne _ _ other, SortedMap.get?_insert_ne _ _ other]

theorem Mirrored.abandoned (done : c.env.switch.perform (.removeTunnel hop) = .ok switch) :
    (c.abandoned hop switch).Mirrored := by
  have tunnels : (c.abandoned hop switch).env.switch.tunnels = _ :=
    (Switch.perform_removeTunnel done).2
  apply mirrored.update hop
  · rw [tunnels, SortedMap.get?_erase_self, Context.abandoned, SortedMap.get?_erase_self]
    rfl
  · intro name other
    rw [tunnels, SortedMap.get?_erase_ne _ other]
  · exact fun hop other => SortedMap.get?_erase_ne _ other

end tunnels

theorem Tallied.transfer (tallied : c.Tallied) (same : c'.env.switch.rules = c.env.switch.rules)
    (installed : c'.rulesInstalled = c.rulesInstalled)
    (uninstalled : c'.rulesUninstalled = c.rulesUninstalled) : c'.Tallied := by
  obtain ⟨written, deleted, total, installs, uninstalls⟩ := tallied
  refine ⟨written, deleted, ?_, ?_, ?_⟩
  · rw [same, total]
  · rwa [installed]
  · rwa [uninstalled]

section quiet

variable (quiet : c.Quiet c')

include quiet

theorem Quiet.same : c'.env.switch.rules = c.env.switch.rules ∧
    c'.env.switch.tunnels = c.env.switch.tunnels ∧ c'.tunnels = c.tunnels ∧
    c'.rulesInstalled = c.rulesInstalled ∧ c'.rulesUninstalled = c.rulesUninstalled := by
  cases quiet with
  | note | learn => exact ⟨rfl, rfl, rfl, rfl, rfl⟩
  | write call switch table done =>
    obtain ⟨rules, tunnels⟩ := Switch.perform_table table done
    exact ⟨rules, tunnels, rfl, rfl, rfl⟩

theorem Quiet.recalled (recalled : c.Recalled) : c'.Recalled := by
  cases quiet with
  | note e idle => exact (History.recalled_idle _ idle).trans recalled
  | write call switch table done => exact History.recalled_called recalled done
  | learn => exact recalled

theorem Quiet.references (hop : TunnelHop) :
    History.references hop c'.env.trace = History.references hop c.env.trace := by
  cases quiet with
  | note e idle => exact History.references_idle _ hop idle
  | write | learn => rfl

theorem Quiet.orderly (orderly : History.Orderly c.env.trace) : History.Orderly c'.env.trace := by
  cases quiet with
  | note e idle => exact (History.orderly_idle _ idle).2 orderly
  | write call switch table =>
    refine History.always_cons.2 ⟨?_, orderly⟩
    cases call with
    | setTableType | setTable => trivial
    | setRule | deleteRule | createTunnel | removeTunnel => cases table
  | learn => exact orderly

theorem Quiet.tallied (tallied : c.Tallied) : c'.Tallied := by
  obtain ⟨rules, -, -, installed, uninstalled⟩ := quiet.same
  exact tallied.transfer rules installed uninstalled

end quiet

end Context

namespace Rule

section move

variable {owner : EniAttributes} {r r' : Rule} {c c' : Context}
  (move : Move owner (r, c) (r', c'))

include move

theorem Move.recalled (recalled : c.Recalled) : c'.Recalled := by
  cases move with
  | quiet _ quiet => exact quiet.recalled recalled
  | refused | adjust | join | leave | stray => exact recalled
  | uninstall on done => exact History.recalled_called recalled done
  | install off leads resolved known done => exact History.recalled_called recalled done
  | found off free holds unknown done => exact History.recalled_called recalled done
  | abandon off held known last done => exact History.recalled_called recalled done

theorem Move.mirrored (mirrored : c.Mirrored) : c'.Mirrored := by
  cases move with
  | quiet _ quiet =>
    obtain ⟨-, same, table, -⟩ := quiet.same
    exact mirrored.transfer same fun hop => by rw [table]
  | refused | adjust | stray => exact mirrored.transfer rfl fun _ => rfl
  | uninstall on done => exact mirrored.transfer (Switch.perform_deleteRule done).2 fun _ => rfl
  | install off leads resolved known done =>
    exact mirrored.transfer (Switch.perform_setRule done).2 fun _ => rfl
  | join off free holds known => exact mirrored.recount known rfl rfl
  | leave off held known => exact mirrored.recount known rfl rfl
  | found off free holds unknown done => exact mirrored.founded done
  | abandon off held known last done => exact mirrored.abandoned done

theorem Move.references (hop : TunnelHop)
    (counted : r.hop? = some hop → 0 < History.references hop c.env.trace) :
    History.references hop c'.env.trace + (if r.hop? = some hop then 1 else 0) =
      History.references hop c.env.trace + (if r'.hop? = some hop then 1 else 0) := by
  have gained : ∀ {next : NextHop} {tunnel : TunnelHop}, r.hop? = none → next.hop? = some tunnel →
      History.references hop c.env.trace + (if tunnel = hop then 1 else 0) +
        (if r.hop? = some hop then 1 else 0) = History.references hop c.env.trace +
        (if ({ r with nextHop := some next } : Rule).hop? = some hop then 1 else 0) := by
    intro next tunnel free holds
    have holding : ({ r with nextHop := some next } : Rule).hop? = some tunnel := holds
    rw [free, holding]
    simp
  have lost : ∀ {tunnel : TunnelHop}, r.hop? = some tunnel →
      History.references hop c.env.trace - (if tunnel = hop then 1 else 0) +
        (if r.hop? = some hop then 1 else 0) = History.references hop c.env.trace +
        (if ({ r with nextHop := none } : Rule).hop? = some hop then 1 else 0) := by
    intro tunnel held
    have none : ({ r with nextHop := none } : Rule).hop? = none := rfl
    rw [none, held]
    by_cases same : tunnel = hop
    · have positive := counted (same ▸ held)
      simp only [same, if_true]
      simp
      omega
    · simp [same]
  cases move with
  | quiet _ quiet => rw [quiet.references hop]
  | refused | uninstall | install => rfl
  | adjust _ named off held => rw [held]
  | join off free holds => exact gained free holds
  | found off free holds => exact gained free holds
  | leave off held => exact lost held
  | abandon off held => exact lost held
  | stray off held => exact lost held

/-- A move concerns the rule in the switch that has its name, and no other. -/
theorem Move.rules_eq {key : String} (other : key ≠ r.key) :
    c'.env.switch.rules.get? key = c.env.switch.rules.get? key := by
  cases move with
  | quiet _ quiet => rw [quiet.same.1]
  | refused | adjust | join | leave | stray => rfl
  | uninstall on done =>
    have erased := (Switch.perform_deleteRule done).1
    exact (congrArg (·.get? key) erased).trans (SortedMap.get?_erase_ne _ other)
  | install off leads resolved known done =>
    have inserted := (Switch.perform_setRule done).1
    exact (congrArg (·.get? key) inserted).trans (SortedMap.get?_insert_ne _ _ other)
  | found off free holds unknown done =>
    exact congrArg (·.get? key) (Switch.perform_createTunnel done).1
  | abandon off held known last done =>
    exact congrArg (·.get? key) (Switch.perform_removeTunnel done).1

end move

end Rule

/-- An installed rule is in the switch as it was written, and no other rule is. -/
structure OwnedRule.Shown (o : OwnedRule) (c : Context) : Prop where
  on : o.rule.state = .installed → ∃ hop vip, o.rule.nextHop = some hop ∧ hop.isResolved = true ∧
    c.vip = some vip ∧ c.env.switch.rules.get? o.rule.key =
      some (.ofList (Rule.fields o.rule.role o.owner c.basePriority vip hop.target))
  off : o.rule.state ≠ .installed → c.env.switch.rules.get? o.rule.key = none

namespace OwnedRule.Shown

variable {o : OwnedRule} {owner : EniAttributes} {r r' : Rule} {c c' : Context}

theorem keep (shown : o.Shown c)
    (same : c'.env.switch.rules.get? o.rule.key = c.env.switch.rules.get? o.rule.key)
    (base : c'.basePriority = c.basePriority)
    (vip : ∀ known, c.vip = some known → c'.vip = some known) : o.Shown c' where
  on installed := by
    obtain ⟨hop, known, leads, resolved, found, written⟩ := shown.on installed
    exact ⟨hop, known, leads, resolved, vip known found, by rw [same, base, written]⟩
  off idle := by rw [same, shown.off idle]

theorem move (shown : Shown ⟨owner, r⟩ c) (move : Rule.Move owner (r, c) (r', c')) :
    Shown ⟨owner, r'⟩ c' := by
  cases move with
  | quiet _ quiet =>
    exact shown.keep (by rw [quiet.same.1]) quiet.fixed.2 quiet.vip
  | refused => exact shown.keep rfl rfl fun _ => id
  | adjust _ named off =>
    refine ⟨fun on => absurd on off.2, fun _ => ?_⟩
    simpa only [named.1] using shown.off off.1
  | uninstall on done =>
    refine ⟨by simp, fun _ => ?_⟩
    exact (congrArg (·.get? r.key) (Switch.perform_deleteRule done).1).trans
      (SortedMap.get?_erase_self _ _)
  | @install _ _ hop vip switch off leads resolved known done =>
    refine ⟨fun _ => ⟨hop, vip, leads, resolved, known, ?_⟩, fun idle => absurd rfl idle⟩
    exact (congrArg (·.get? r.key) (Switch.perform_setRule done).1).trans
      (SortedMap.get?_insert_self _ _ _)
  | join off | leave off | stray off =>
    exact ⟨fun on => absurd on off, fun _ => shown.off off⟩
  | found off free holds unknown done =>
    refine ⟨fun on => absurd on off, fun _ => ?_⟩
    exact (congrArg (·.get? r.key) (Switch.perform_createTunnel done).1).trans (shown.off off)
  | abandon off held known last done =>
    refine ⟨fun on => absurd on off, fun _ => ?_⟩
    exact (congrArg (·.get? r.key) (Switch.perform_removeTunnel done).1).trans (shown.off off)

end OwnedRule.Shown

namespace Rule

section shown

variable {owner : EniAttributes} {r r' : Rule} {c c' : Context}

theorem Due.accepted {call : Call} (due : r.Due c call) (shown : OwnedRule.Shown ⟨owner, r⟩ c)
    (mirrored : c.Mirrored) : c.env.switch.Accepts call := by
  cases call with
  | setTableType | setTable => trivial
  | setRule key fields =>
    obtain ⟨rfl, off⟩ := due
    simp [Switch.Accepts, SortedMap.contains, shown.off off]
  | deleteRule key =>
    obtain ⟨rfl, on⟩ := due
    obtain ⟨hop, vip, -, -, -, written⟩ := shown.on on
    simp [Switch.Accepts, SortedMap.contains, written]
  | createTunnel hop =>
    have unknown : c.tunnels.get? hop = none := due
    simp [Switch.Accepts, SortedMap.contains, mirrored.handles, unknown]
  | removeTunnel hop =>
    obtain ⟨use, known⟩ := due
    simp [Switch.Accepts, SortedMap.contains, mirrored.handles, known]

variable (move : Move owner (r, c) (r', c')) (shown : OwnedRule.Shown ⟨owner, r⟩ c)

include move shown

theorem Move.orderly (recalled : c.Recalled) (mirrored : c.Mirrored)
    (orderly : History.Orderly c.env.trace) : History.Orderly c'.env.trace := by
  -- the switch that is remembered accepts what the switch accepts
  have accepted : ∀ {call : Call}, r.Due c call → (History.recalled c.env.trace).Accepts call := by
    intro call due
    rw [recalled]
    exact due.accepted shown mirrored
  cases move with
  | quiet _ quiet => exact quiet.orderly orderly
  | refused message due => exact History.always_cons.2 ⟨accepted due, orderly⟩
  | adjust => exact orderly
  | uninstall on =>
    have due : r.Due c (.deleteRule r.key) := ⟨rfl, on⟩
    exact History.always_cons.2 ⟨accepted due, orderly⟩
  | @install _ _ hop vip switch off =>
    have due : r.Due c (.setRule r.key (fields r.role owner c.basePriority vip hop.target)) :=
      ⟨rfl, off⟩
    exact History.always_cons.2 ⟨accepted due, orderly⟩
  | join | leave | stray => exact History.always_cons.2 ⟨trivial, orderly⟩
  | @found _ _ _ tunnel switch off free holds unknown =>
    have due : r.Due c (.createTunnel tunnel) := unknown
    exact orderly.entered (accepted due) (by simp)
  | @abandon _ _ tunnel use switch off held known =>
    have due : r.Due c (.removeTunnel tunnel) := ⟨use, known⟩
    exact orderly.entered (accepted due) (by simp)

theorem Move.tallied (tallied : c.Tallied) : c'.Tallied := by
  cases move with
  | quiet _ quiet => exact quiet.tallied tallied
  | refused | adjust | join | leave | stray => exact tallied.transfer rfl rfl rfl
  | found off free holds unknown done =>
    exact tallied.transfer (Switch.perform_createTunnel done).1 rfl rfl
  | abandon off held known last done =>
    exact tallied.transfer (Switch.perform_removeTunnel done).1 rfl rfl
  | @uninstall _ _ switch on done =>
    obtain ⟨written, deleted, total, installs, uninstalls⟩ := tallied
    obtain ⟨hop, vip, -, -, -, present⟩ := shown.on on
    have smaller := SortedMap.size_erase_of_present present
    have erased : (c.uninstalled r.key switch).env.switch.rules = c.env.switch.rules.erase r.key :=
      (Switch.perform_deleteRule done).1
    refine ⟨written, deleted + 1, ?_, installs, uninstalls.bump⟩
    rw [erased]
    dsimp only at smaller
    omega
  | @install _ _ hop vip switch off leads resolved known done =>
    obtain ⟨written, deleted, total, installs, uninstalls⟩ := tallied
    have larger := SortedMap.size_insert_of_absent (shown.off off)
    have inserted : (c.installed r.key (fields r.role owner c.basePriority vip hop.target)
        switch).env.switch.rules = c.env.switch.rules.insert r.key
        (.ofList (fields r.role owner c.basePriority vip hop.target)) :=
      (Switch.perform_setRule done).1
    refine ⟨written + 1, deleted, ?_, installs.bump, uninstalls⟩
    rw [inserted, larger]
    omega

end shown

end Rule

namespace World

/-- Rules, switch, table and history agree. -/
structure Coherent (s : World) : Prop where
  distinct : s.keys.Nodup
  recalled : s.ctx.Recalled
  mirrored : s.ctx.Mirrored
  shown : ∀ o ∈ s.rules, o.Shown s.ctx
  owned : ∀ key, s.ctx.env.switch.rules.contains key = true → key ∈ s.keys
  referenced : ∀ hop, History.references hop s.ctx.env.trace = s.holders hop
  orderly : History.Orderly s.ctx.env.trace
  tallied : s.ctx.Tallied

theorem Coherent.start (inventory : Inventory) (table : String) (base : UInt32) :
    (start inventory table base).Coherent where
  distinct := by simp [World.start, keys]
  recalled := rfl
  mirrored := ⟨fun hop => rfl, fun name there => by cases there⟩
  shown := by simp [World.start]
  owned := fun key there => by cases there
  referenced := fun hop => by simp [World.start, holders]; rfl
  orderly := History.always_nil.2 trivial
  tallied := ⟨0, 0, rfl, rfl, rfl⟩

variable {rules rest fresh gone : Multiset OwnedRule} {owner : EniAttributes} {r r' : Rule}
  {c c' : Context}

theorem Coherent.quiet (coherent : Coherent ⟨rules, c⟩) (quiet : c.Quiet c') :
    Coherent ⟨rules, c'⟩ where
  distinct := coherent.distinct
  recalled := quiet.recalled coherent.recalled
  mirrored := coherent.mirrored.transfer quiet.same.2.1 fun hop => by rw [quiet.same.2.2.1]
  shown o member := (coherent.shown o member).keep (by rw [quiet.same.1]) quiet.fixed.2 quiet.vip
  owned key there := coherent.owned key (by rwa [quiet.same.1] at there)
  referenced hop := (quiet.references hop).trans (coherent.referenced hop)
  orderly := quiet.orderly coherent.orderly
  tallied := quiet.tallied coherent.tallied

theorem Coherent.move (coherent : Coherent ⟨⟨owner, r⟩ ::ₘ rest, c⟩)
    (move : Rule.Move owner (r, c) (r', c')) : Coherent ⟨⟨owner, r'⟩ ::ₘ rest, c'⟩ := by
  obtain ⟨distinct, recalled, mirrored, shown, owned, referenced, orderly, tallied⟩ := coherent
  have named : r'.key = r.key := move.fixed.1
  have head := shown ⟨owner, r⟩ (Multiset.mem_cons_self _ _)
  have keys_eq : keys ⟨⟨owner, r'⟩ ::ₘ rest, c'⟩ = keys ⟨⟨owner, r⟩ ::ₘ rest, c⟩ := by
    simp [keys, named]
  refine ⟨keys_eq ▸ distinct, move.recalled recalled, move.mirrored mirrored, ?_, ?_, ?_,
    move.orderly head recalled mirrored orderly, move.tallied head tallied⟩
  · intro o member
    rcases Multiset.mem_cons.1 member with rfl | other
    · exact head.move move
    · -- a rule that does not move has another name than the one that does
      have apart : o.rule.key ≠ r.key := by
        intro same
        simp only [keys, Multiset.map_cons, Multiset.nodup_cons] at distinct
        exact distinct.1 (same ▸ Multiset.mem_map_of_mem (·.rule.key) other)
      exact (shown o (Multiset.mem_cons_of_mem other)).keep (move.rules_eq apart) move.settled.2.1
        move.settled.2.2
  · intro key there
    rw [keys_eq]
    by_cases same : key = r.key
    · simp [keys, same]
    · apply owned key
      rwa [SortedMap.contains, move.rules_eq same] at there
  · intro hop
    have before := referenced hop
    simp only [holders, Multiset.countP_cons] at before ⊢
    have counted : r.hop? = some hop → 0 < History.references hop c.env.trace := by
      intro held
      rw [before, if_pos held]
      omega
    have change := move.references hop counted
    omega

theorem Coherent.enter (coherent : Coherent ⟨rules, c⟩)
    (untouched : ∀ o ∈ fresh, o.rule.state = .pending ∧ o.rule.nextHop = none)
    (distinct : (keys ⟨fresh + rules, c⟩).Nodup) : Coherent ⟨fresh + rules, c⟩ := by
  refine ⟨distinct, coherent.recalled, coherent.mirrored, ?_, ?_, ?_, coherent.orderly,
    coherent.tallied⟩
  · intro o member
    rcases Multiset.mem_add.1 member with new | old
    · refine ⟨fun on => ?_, fun _ => ?_⟩
      · rw [(untouched o new).1] at on
        cases on
      · by_contra present
        -- the switch holds only rules of old names
        have there : o.rule.key ∈ keys ⟨rules, c⟩ :=
          coherent.owned o.rule.key (Option.isSome_iff_ne_none.2 present)
        simp only [keys, Multiset.map_add] at distinct there
        exact Multiset.disjoint_left.1 (Multiset.nodup_add.1 distinct).2.2
          (Multiset.mem_map_of_mem (·.rule.key) new) there
    · exact coherent.shown o old
  · intro key there
    have old := coherent.owned key there
    simp only [keys, Multiset.map_add, Multiset.mem_add] at old ⊢
    exact .inr old
  · intro hop
    have free : fresh.countP (·.rule.hop? = some hop) = 0 := by
      apply Multiset.countP_eq_zero.2
      intro o new held
      simp [Rule.hop?, (untouched o new).2] at held
    have before := coherent.referenced hop
    simp only [holders, Multiset.countP_add, free] at before ⊢
    omega

theorem Coherent.leave (coherent : Coherent ⟨gone + rules, c⟩)
    (idle : ∀ o ∈ gone, o.rule.state ≠ .installed ∧ o.rule.hop? = none)
    (distinct : (keys ⟨rules, c⟩).Nodup) : Coherent ⟨rules, c⟩ := by
  refine ⟨distinct, coherent.recalled, coherent.mirrored, ?_, ?_, ?_, coherent.orderly,
    coherent.tallied⟩
  · exact fun o member => coherent.shown o (Multiset.mem_add.2 (.inr member))
  · intro key there
    obtain ⟨o, member, rfl⟩ := Multiset.mem_map.1 (coherent.owned key there)
    rcases Multiset.mem_add.1 member with left | stays
    · -- a rule that leaves is not in the switch
      have absent := (coherent.shown o member).off (idle o left).1
      simp [SortedMap.contains, absent] at there
    · exact Multiset.mem_map_of_mem (·.rule.key) stays
  · intro hop
    have free : gone.countP (·.rule.hop? = some hop) = 0 := by
      apply Multiset.countP_eq_zero.2
      intro o left held
      simp [(idle o left).2] at held
    have before := coherent.referenced hop
    simp only [holders, Multiset.countP_add, free] at before ⊢
    omega

theorem Coherent.step {fits : Nat → Prop} {s s' : World} (coherent : s.Coherent)
    (step : Step fits s s') : s'.Coherent := by
  have distinct := step.distinct coherent.distinct
  cases step with
  | quiet rules quiet => exact coherent.quiet quiet
  | move rest move => exact coherent.move move
  | enter c untouched => exact coherent.enter untouched distinct
  | leave rules c idle => exact coherent.leave idle distinct

theorem Steps.coherent {fits : Nat → Prop} {s s' : World} (steps : Steps fits s s')
    (coherent : s.Coherent) : s'.Coherent := by
  induction steps with
  | refl => exact coherent
  | tail _ step ih => exact ih.step step

theorem Reachable.coherent {fits : Nat → Prop} {s : World} (reachable : Reachable fits s) :
    s.Coherent :=
  reachable.induction Coherent.start fun _ _ => Coherent.step

end World

end EniForwarding
