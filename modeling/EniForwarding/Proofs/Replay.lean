import EniForwarding.CommandLine
import EniForwarding.Proofs.Waiting

/-! What a snapshot comes to.

A snapshot is played through by requests, on a switch that refuses nothing, and nothing that
happens in it changes the VIP. So if there is a VIP each pass ends with nothing that waits, and
if there is none no rule is ever written.
-/

set_option autoImplicit false

namespace EniForwarding

open Relation

/-- A rule is written only when the VIP is known. -/
theorem World.Steps.unwritten {fits : Nat → Prop} {s s' : World} (steps : Steps fits s s')
    (before : s.ctx.vip = none → s.ctx.rulesInstalled = 0) :
    s'.ctx.vip = none → s'.ctx.rulesInstalled = 0 := by
  induction steps with
  | refl => exact before
  | tail _ step ih =>
    have quietly : ∀ {c c' : Context}, c.Quiet c' → (c.vip = none → c.rulesInstalled = 0) →
        c'.vip = none → c'.rulesInstalled = 0 := by
      intro c c' quiet before unknown
      rw [quiet.same.2.2.2.1]
      apply before
      -- what was known is known still
      cases known : c.vip with
      | none => rfl
      | some vip => cases (quiet.vip vip known).symm.trans unknown
    cases step with
    | enter | leave => exact ih
    | quiet _ quiet => exact quietly quiet ih
    | move _ move =>
      cases move with
      | quiet _ quiet => exact quietly quiet ih
      | install off leads resolved known => exact fun unknown => by cases known.symm.trans unknown
      | refused | adjust | uninstall | join | found | leave | abandon | stray => exact ih

theorem Context.Blind.unknown {c : Context} (blind : c.Blind) : c.vip = none := by
  cases known : c.vip with
  | none => rfl
  | some vip => exact absurd (vip?_of_known known) (blind vip)

namespace Reconciler

theorem Lawful.no_rules {s : Reconciler} (lawful : s.Lawful) (unknown : s.ctx.vip = none) :
    s.ctx.env.switch.rules = ∅ := by
  apply SortedMap.ext_get?
  intro name
  by_contra there
  have held : s.world.ctx.env.switch.rules.contains name = true :=
    Option.isSome_iff_ne_none.2 there
  obtain ⟨o, member, rfl⟩ := Multiset.mem_map.1 (lawful.coherent.owned name held)
  have shown := lawful.coherent.shown o member
  by_cases on : o.rule.state = .installed
  · obtain ⟨hop, found, -, -, known, -⟩ := shown.on on
    cases known.symm.trans unknown
  · exact there (shown.off on)

end Reconciler

namespace Replay

open Reconciler

theorem step_eq_run (s : Reconciler) (o : Occurrence) : ∃ requests, step s o = s.run requests := by
  have spreads : ∀ (inventory : Inventory) (added : Bool) (ip : Net.Address),
      ∃ requests, spread added ip (onInventory (fun _ => inventory) s) = s.run requests := by
    intro inventory added ip
    -- the surroundings are as they were but for the inventory
    let around : Request := .surroundings inventory s.ctx.env.faults s.ctx.env.switch.rejectsAcl
      s.ctx.env.switch.rejectsTunnels
    unfold spread
    split
    next neighbor _ => exact ⟨[around, .neighbor ⟨neighbor, added⟩], rfl⟩
    next => exact ⟨[around], rfl⟩
  cases o with
  | eniSet key fields => exact ⟨[.enqueue [⟨key, .set, fields.toList⟩], .doTask], rfl⟩
  | eniDel key => exact ⟨[.enqueue [⟨key, .del, []⟩], .doTask], rfl⟩
  | neighborAdd ip => exact spreads (s.ctx.env.inventory.resolve ip) true ip
  | neighborDel ip => exact spreads (s.ctx.env.inventory.unresolve ip) false ip

theorem foldl_step_eq_run (occurrences : List Occurrence) (s : Reconciler) :
    ∃ requests, occurrences.foldl step s = s.run requests := by
  induction occurrences generalizing s with
  | nil => exact ⟨[], rfl⟩
  | cons o rest ih =>
    obtain ⟨first, here⟩ := step_eq_run s o
    obtain ⟨later, there⟩ := ih (s.run first)
    refine ⟨first ++ later, ?_⟩
    rw [List.foldl_cons, here, there, Reconciler.run, Reconciler.run, Reconciler.run,
      List.foldl_append]

theorem run_eq_run (config : Config) (snapshot : Snapshot) :
    ∃ requests, run config snapshot = (fresh config snapshot.inventory).run requests :=
  foldl_step_eq_run snapshot.occurrences _

theorem spread_continues (added : Bool) (ip : Net.Address) (f : Inventory → Inventory)
    (same : ∀ i : Inventory, (f i).vip? = i.vip?) (s : Reconciler) :
    s.ctx.Continues (spread added ip (onInventory f s)).ctx := by
  have changed : s.ctx.Continues (onInventory f s).ctx := by
    refine ⟨List.suffix_rfl, ?_, fun w => ⟨w.faultless, w.acl, w.tunnels⟩⟩
    simp only [Context.outlook, onInventory, same]
  unfold spread
  split
  next neighbor _ =>
    exact IsTrans.trans _ _ _ changed (onNeighbor_candid (onInventory f s) ⟨neighbor, added⟩).1
  next => exact changed

theorem step_continues (s : Reconciler) (o : Occurrence) : s.ctx.Continues (step s o).ctx := by
  cases o with
  | eniSet key fields => exact doTask_continues (s.enqueue _)
  | eniDel key => exact doTask_continues (s.enqueue _)
  | neighborAdd ip => exact spread_continues true ip (·.resolve ip) (fun _ => rfl) s
  | neighborDel ip => exact spread_continues false ip (·.unresolve ip) (fun _ => rfl) s

theorem spread_pending (added : Bool) (ip : Net.Address) (f : Inventory → Inventory)
    (s : Reconciler) : (spread added ip (onInventory f s)).pending = s.pending := by
  unfold spread
  split
  next neighbor _ =>
    have rests := (onNeighbor_rests ⟨neighbor, added⟩ (onInventory f s)).1
    unfold pending
    rw [rests.backlog]
    rfl
  next => rfl

/-- If there is a VIP, nothing waits after an occurrence if nothing waited before it. -/
theorem step_unhindered {s : Reconciler} (clear : s.Unhindered) (empty : s.pending = [])
    (o : Occurrence) : (step s o).Unhindered ∧ (step s o).pending = [] := by
  obtain ⟨requests, run⟩ := step_eq_run s o
  have next : (step s o).Unhindered :=
    clear.go (run ▸ clear.lawful.run requests) (step_continues s o)
  refine ⟨next, ?_⟩
  have applied : ∀ entries, (s.enqueue entries).doTask.pending = [] := by
    intro entries
    have taken : (s.enqueue entries).Unhindered :=
      clear.go (clear.lawful.run [.enqueue entries]) (refl _)
    exact taken.doTask.2
  cases o with
  | eniSet key fields => exact applied _
  | eniDel key => exact applied _
  | neighborAdd ip => exact (spread_pending true ip _ s).trans empty
  | neighborDel ip => exact (spread_pending false ip _ s).trans empty

theorem foldl_step_unhindered (occurrences : List Occurrence) {s : Reconciler}
    (clear : s.Unhindered) (empty : s.pending = []) : (occurrences.foldl step s).pending = [] := by
  induction occurrences generalizing s with
  | nil => exact empty
  | cons o rest ih =>
    obtain ⟨clear', empty'⟩ := step_unhindered clear empty o
    exact ih clear' empty'

theorem foldl_step_continues (occurrences : List Occurrence) (s : Reconciler) :
    s.ctx.Continues (occurrences.foldl step s).ctx := by
  induction occurrences generalizing s with
  | nil => exact refl _
  | cons o rest ih => exact IsTrans.trans _ _ _ (step_continues s o) (ih _)

/-- The table of VIPs is empty, or its first key is no prefix. -/
def NoVip (snapshot : Snapshot) : Prop :=
  snapshot.vips = [] ∨
    ∃ first rest, snapshot.vips = first :: rest ∧ Net.Prefix.ofText? first = none

theorem vip?_cases (snapshot : Snapshot) :
    NoVip snapshot ∧ (∀ vip, snapshot.inventory.vip? ≠ .ok vip) ∨
      ¬NoVip snapshot ∧ ∃ vip, snapshot.inventory.vip? = .ok vip := by
  unfold NoVip Inventory.vip?
  have same : snapshot.inventory.vips = snapshot.vips := rfl
  rw [same]
  cases snapshot.vips with
  | nil => exact .inl ⟨.inl rfl, by simp⟩
  | cons first rest =>
    cases read : Net.Prefix.ofText? first with
    | none => exact .inl ⟨.inr ⟨first, rest, rfl, read⟩, by simp [read]⟩
    | some vip =>
      refine .inr ⟨?_, vip, by simp [read]⟩
      rintro (empty | ⟨first', rest', same, unread⟩)
      · cases empty
      · cases same
        cases read.symm.trans unread

/-- The report of a snapshot: entries wait in the end only without a VIP, and without one there are
no rules. -/
theorem report_without_vip (config : Config) (snapshot : Snapshot) :
    ((report config snapshot).pending ≠ [] → NoVip snapshot) ∧
      (NoVip snapshot → (report config snapshot).rules = ∅ ∧
        (report config snapshot).stats.rulesInstalled = 0) := by
  have start : (fresh config snapshot.inventory).ctx.outlook.vip? = snapshot.inventory.vip? := rfl
  rcases vip?_cases snapshot with ⟨missing, unreadable⟩ | ⟨present, readable⟩
  · refine ⟨fun _ => missing, fun _ => ?_⟩
    have blind : (run config snapshot).ctx.Blind := by
      intro vip
      have same := (foldl_step_continues snapshot.occurrences (fresh config snapshot.inventory)).vip?
      rw [start] at same
      change (run config snapshot).ctx.outlook.vip? = _ at same
      rw [same]
      exact unreadable vip
    obtain ⟨requests, played⟩ := run_eq_run config snapshot
    rw [played] at blind
    have lawful := run_lawful config snapshot.inventory requests
    have any : ∀ n ∈ (fresh config snapshot.inventory).headcounts requests,
        (fun _ : Nat => True) n := fun _ _ => trivial
    obtain ⟨-, -, inventory, table, base, steps⟩ :=
      run_reachable config snapshot.inventory requests any
    unfold report
    rw [played]
    exact ⟨lawful.no_rules blind.unknown,
      World.Steps.unwritten steps (fun _ => rfl) blind.unknown⟩
  · refine ⟨fun waiting => absurd ?_ waiting, fun missing => absurd missing present⟩
    have clear : (fresh config snapshot.inventory).Unhindered :=
      ⟨fresh_lawful config snapshot.inventory, ⟨rfl, rfl, rfl⟩, readable⟩
    exact foldl_step_unhindered snapshot.occurrences clear rfl

/-- In every state that a run reaches, whatever calls have failed before: nothing waits after a pass
if a VIP can be read and no call of the pass is made to fail, so in particular on a willing switch.
And for every snapshot: entries wait in the end only if the table of VIPs is empty or begins with
what is no prefix, and then there are no rules, and none was ever written. -/
theorem waits_only_if_hindered (config : Config) :
    (∀ inventory requests, let s := (fresh config inventory).run requests
      (∃ vip, s.ctx.outlook.vip? = .ok vip) →
      ¬s.ctx.Obstructed s.doTask.ctx ∨ s.ctx.Willing →
        s.doTask.pending = [] ∧ s.doTask.backlog.hasPending = false) ∧
    ∀ snapshot,
      (CommandLine.exitCode (report config snapshot) = 2 ↔ (report config snapshot).pending ≠ []) ∧
      ((report config snapshot).pending ≠ [] → NoVip snapshot) ∧
      (NoVip snapshot → (report config snapshot).rules = ∅ ∧
        (report config snapshot).stats.rulesInstalled = 0) := by
  constructor
  · intro inventory requests s readable free
    have lawful : s.Lawful := run_lawful config inventory requests
    have empty : s.doTask.pending = [] := by
      rcases free with unobstructed | willing
      · by_contra waiting
        rcases doTask_cause waiting with blind | ⟨call, earlier, failed⟩
        · obtain ⟨vip, found⟩ := readable
          exact blind vip found
        · exact unobstructed (failed.obstructed (lawful.run [.doTask]).coherent.orderly)
      · exact (Unhindered.mk lawful willing readable).doTask.2
    exact ⟨empty, hasPending_of_pending empty⟩
  · intro snapshot
    obtain ⟨missing, nothing⟩ := report_without_vip config snapshot
    refine ⟨?_, missing, nothing⟩
    unfold CommandLine.exitCode
    cases (report config snapshot).pending <;> simp

def sampleRefused : List Request :=
  [.enqueue [⟨"Vnet_1000:aa:bb:cc:dd:ee:ff", .set, [("vdpu_ids", "2,3"), ("primary_vdpu", "2")]⟩],
    .surroundings sampleInventory .none true false, .doTask,
    .surroundings sampleInventory .none false false]

def sampleSnapshot : Snapshot where
  dpus := .ofList [("2", .ofList [("type", "cluster"), ("pa_ipv4", "10.0.0.2"), ("npu_ipv4", "20.0.0.2")])]
  vips := []
  ports := []
  vnets := .ofList [("Vnet_1000", ⟨some 1234, some "mock_tunnel"⟩)]
  interfaces := []
  neighbors := []
  occurrences := [.eniSet "Vnet_1000:aa:bb:cc:dd:ee:ff"
    (.ofList [("vdpu_ids", "2"), ("primary_vdpu", "2")])]

/-- What waited for the rules to be taken waits no longer, and what waits for a VIP does. -/
theorem sample_waits :
    ((fresh {} sampleInventory).run sampleRefused).pending ≠ [] ∧
      ((fresh {} sampleInventory).run sampleRefused).doTask.pending = [] ∧
      (report {} sampleSnapshot).pending ≠ [] ∧ NoVip sampleSnapshot ∧
      (report {} sampleSnapshot).rules = ∅ := by
  obtain ⟨passes, reports⟩ := waits_only_if_hindered {}
  have readable : ∃ vip,
      ((fresh {} sampleInventory).run sampleRefused).ctx.outlook.vip? = .ok vip :=
    ⟨⟨.v4 ⟨10, 2, 0, 1⟩, 32, by decide⟩, by decide +kernel⟩
  have willing : ((fresh {} sampleInventory).run sampleRefused).ctx.Willing :=
    ⟨rfl, by decide +kernel, by decide +kernel⟩
  have passed := passes sampleInventory sampleRefused readable (.inr willing)
  have waiting : (report {} sampleSnapshot).pending ≠ [] := by decide +kernel
  obtain ⟨-, missing, nothing⟩ := reports sampleSnapshot
  exact ⟨by decide +kernel, passed.1, waiting, missing waiting, (nothing (missing waiting)).1⟩

end Replay

end EniForwarding
