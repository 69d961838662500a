import EniForwarding.Proofs.Runs
import EniForwarding.Proofs.World.Counting

/-! Tunnel next hops are there for those who use them.

After any run the table counts the rules that hold a tunnel next hop, the switch has
the tunnel next hops of the table and no others, and at every moment of the run a rule
in the switch redirects only to what is there. The counts have thirty-two bits, so there
must be fewer rules than that.
-/

set_option autoImplicit false

namespace EniForwarding

/-- The name of a tunnel next hop in the switch tells which one of the table it is. -/
theorem Context.Mirrored.get?_eq_some_iff {c : Context} (mirrored : c.Mirrored) (name : String)
    (handle : Nat) : c.env.switch.tunnels.get? name = some handle ↔
      ∃ hop use, c.tunnels.get? hop = some use ∧ hop.render = name ∧ use.handle = handle := by
  constructor
  · intro there
    obtain ⟨hop, rfl⟩ := mirrored.named name (Option.isSome_iff_exists.2 ⟨handle, there⟩)
    rw [mirrored.handles] at there
    obtain ⟨use, known, same⟩ := Option.map_eq_some_iff.1 there
    exact ⟨hop, use, known, rfl, same⟩
  · rintro ⟨hop, use, known, rfl, rfl⟩
    rw [mirrored.handles, known]
    rfl

namespace Reconciler

section counted

variable {s : Reconciler} (coherent : s.world.Coherent) (exact_ : s.ctx.Exact)

include coherent exact_

theorem counts_holders (hop : TunnelHop) :
    TunnelUse.Counts (s.ctx.tunnels.get? hop) (s.holders hop) := by
  rw [← holders_world, ← coherent.referenced hop]
  exact exact_ hop

theorem refs_eq_holders (hop : TunnelHop) :
    ((s.ctx.tunnels.refs? hop).map UInt32.toNat).getD 0 = s.holders hop := by
  have counts := counts_holders coherent exact_ hop
  unfold SortedMap.refs?
  cases known : s.ctx.tunnels.get? hop with
  | none =>
    rw [known] at counts
    exact counts.symm
  | some use =>
    rw [known] at counts
    exact counts.1

theorem contains_iff_held (hop : TunnelHop) :
    s.ctx.tunnels.contains hop = true ↔ 1 ≤ s.holders hop := by
  have counts := counts_holders coherent exact_ hop
  unfold SortedMap.contains
  cases known : s.ctx.tunnels.get? hop with
  | none =>
    rw [known] at counts
    have unheld : s.holders hop = 0 := counts
    simp [unheld]
  | some use =>
    rw [known] at counts
    simpa using Nat.succ_le_of_lt counts.2

theorem no_tunnels_of_no_enis (empty : s.enis.isEmpty = true) :
    s.ctx.env.switch.tunnels.isEmpty = true := by
  have mirrored : s.ctx.Mirrored := coherent.mirrored
  have no_values : s.enis.values = [] := by
    rw [SortedMap.values, List.isEmpty_iff.1 empty]
    rfl
  apply SortedMap.isEmpty_of_absent
  intro name
  by_contra there
  obtain ⟨handle, there⟩ := Option.ne_none_iff_exists'.1 there
  obtain ⟨hop, use, known, -⟩ := (mirrored.get?_eq_some_iff name handle).1 there
  -- the tunnel next hop is held by a rule, and there is no rule
  have held := (contains_iff_held coherent exact_ hop).1 (Option.isSome_iff_exists.2 ⟨use, known⟩)
  simp [holders, rules, no_values] at held

end counted

/-- The counts are the numbers of holders, a tunnel next hop is in the table as long as it
has one, and the switch has those of the table with their handles. -/
theorem tunnel_references_exact (config : Config) (inventory : Inventory)
    (requests : List Request)
    (few : ∀ n ∈ (fresh config inventory).headcounts requests, n < UInt32.size) :
    let s := (fresh config inventory).run requests
    (∀ hop, ((s.ctx.tunnels.refs? hop).map UInt32.toNat).getD 0 = s.holders hop ∧
      (s.ctx.tunnels.contains hop = true ↔ 1 ≤ s.holders hop)) ∧
    (∀ name handle, s.ctx.env.switch.tunnels.get? name = some handle ↔
      ∃ hop use, s.ctx.tunnels.get? hop = some use ∧ hop.render = name ∧ use.handle = handle) ∧
    (s.enis.isEmpty = true → s.ctx.env.switch.tunnels.isEmpty = true) := by
  obtain ⟨-, -, reachable⟩ := run_reachable config inventory requests few
  intro s
  have coherent : s.world.Coherent := reachable.coherent
  have exact_ : s.ctx.Exact := (reachable.counting reachable.countable).exact_
  have mirrored : s.ctx.Mirrored := coherent.mirrored
  exact ⟨fun hop => ⟨refs_eq_holders coherent exact_ hop, contains_iff_held coherent exact_ hop⟩,
    mirrored.get?_eq_some_iff, no_tunnels_of_no_enis coherent exact_⟩

theorem sample_references :
    let s := (fresh {} sampleInventory).run sampleRequests
    s.holders ⟨.v4 ⟨20, 0, 0, 3⟩, "mock_tunnel"⟩ = 2 ∧
      ((s.ctx.tunnels.refs? ⟨.v4 ⟨20, 0, 0, 3⟩, "mock_tunnel"⟩).map UInt32.toNat).getD 0 = 2 := by
  have held : ((fresh {} sampleInventory).run sampleRequests).holders
      ⟨.v4 ⟨20, 0, 0, 3⟩, "mock_tunnel"⟩ = 2 := by
    decide +kernel
  have counted := (tunnel_references_exact {} sampleInventory sampleRequests sample_few).1
    ⟨.v4 ⟨20, 0, 0, 3⟩, "mock_tunnel"⟩
  exact ⟨held, counted.1.trans held⟩

/-- No redirect dangles, at no moment of a run: the switch that the calls up to a moment have
made has every tunnel next hop that one of its rules redirects to. It is the switch of that
moment, since every call keeps it so, and the switch of the end. -/
theorem no_redirect_dangles (config : Config) (inventory : Inventory) (requests : List Request)
    (few : ∀ n ∈ (fresh config inventory).headcounts requests, n < UInt32.size) :
    let s := (fresh config inventory).run requests
    (∀ (env : Environment) (call : Call), History.recalled env.trace = env.switch.calm →
      History.recalled (env.attempt call).2.trace = (env.attempt call).2.switch.calm) ∧
    History.recalled s.ctx.env.trace = s.ctx.env.switch.calm ∧
    ∀ moment, moment <:+ s.ctx.env.trace → (History.recalled moment).Grounded := by
  obtain ⟨-, -, reachable⟩ := run_reachable config inventory requests few
  exact ⟨Environment.recalled_attempt, reachable.coherent.recalled,
    (reachable.counting reachable.countable).grounded⟩

theorem sample_redirect_grounded :
    let s := (fresh {} sampleInventory).run sampleRequests
    ((s.ctx.env.switch.rules.get? "ENI:Vnet_1000_AABBCCDDEEFF_OUT").bind
      (·.get? "REDIRECT_ACTION")) = some "20.0.0.3@mock_tunnel" ∧
    ∀ moment, moment <:+ s.ctx.env.trace → (History.recalled moment).Grounded := by
  have redirects : (((fresh {} sampleInventory).run sampleRequests).ctx.env.switch.rules.get?
      "ENI:Vnet_1000_AABBCCDDEEFF_OUT").bind (·.get? "REDIRECT_ACTION") =
        some "20.0.0.3@mock_tunnel" := by
    decide +kernel
  exact ⟨redirects, (no_redirect_dangles {} sampleInventory sampleRequests sample_few).2.2⟩

end Reconciler

end EniForwarding
