import EniForwarding.Proofs.Eni.Frame
import EniForwarding.Proofs.Visits
import EniForwarding.Proofs.WakeUp

/-! What is done for one ENI leaves the others alone.

ENIs share the switch and the table of tunnel next hops. Following an entry for one of them,
whatever comes of it, keeps the others as they are, their rules in the switch, and the tunnel
next hops that they hold; news about a neighbor does so with every ENI that the DPU there does
not host. A tunnel next hop is kept because its holders are counted: the rules that are worked
on cannot be all of them.
-/

set_option autoImplicit false

namespace EniForwarding

open Relation Tables
open Context (KeepsRule KeepsTunnel)

namespace Reconciler

/-- The tables are in order, and there have never been more rules than can be counted. -/
structure Counted (s : Reconciler) : Prop where
  kept : s.Kept
  reachable : World.Reachable (· < UInt32.size) s.world

def holdingsOf (s : Reconciler) (key : EniKey) (hop : TunnelHop) : Nat :=
  ((s.enis.get? key).map fun eni => Rule.holdings eni.rules hop).getD 0

variable {s s' : Reconciler} {key other : EniKey} {eni : Eni}

theorem Counted.follow (counted : s.Counted) (follows : Follows (· < UInt32.size) s s') :
    s'.Counted := by
  obtain ⟨inventory, table, base, path⟩ := counted.reachable
  obtain ⟨kept, -, steps⟩ := follows counted.kept
  exact ⟨kept, inventory, table, base, path.trans steps⟩

theorem holders_owned (eni : Eni) (rest : Multiset OwnedRule) (c : Context) (hop : TunnelHop) :
    World.holders ⟨eni.owned + rest, c⟩ hop =
      Rule.holdings eni.rules hop + World.holders ⟨rest, c⟩ hop := by
  simp [World.holders, Multiset.countP_add, Eni.owned, OwnedRule.all, Rule.holdings,
    List.countP_map, Function.comp_def]

theorem holdingsOf_le (s : Reconciler) (key : EniKey) (hop : TunnelHop) :
    s.holdingsOf key hop ≤ World.holders s.world hop := by
  unfold holdingsOf world
  cases there : s.enis.get? key with
  | none => exact Nat.zero_le _
  | some eni =>
    rw [ownedIn_of_get? there, holders_owned]
    exact Nat.le_add_right _ _

theorem holdingsOf_of_get? (there : s.enis.get? key = some eni) (hop : TunnelHop) :
    s.holdingsOf key hop = Rule.holdings eni.rules hop := by
  unfold holdingsOf
  rw [there]
  rfl

theorem holdingsOf_pos (there : s.enis.get? key = some eni) {r : Rule} (member : r ∈ eni.rules)
    {hop : TunnelHop} (held : r.hop? = some hop) : 0 < s.holdingsOf key hop := by
  rw [holdingsOf_of_get? there]
  exact List.countP_pos_iff.2 ⟨r, member, by simp [held]⟩

/-- A tunnel next hop that one ENI holds has more holders than the rules of another. -/
theorem holdingsOf_lt {hop : TunnelHop} (mine : 0 < s.holdingsOf key hop) (apart : other ≠ key) :
    s.holdingsOf other hop < s.world.holders hop := by
  cases there : s.enis.get? key with
  | none => simp [holdingsOf, there] at mine
  | some eni =>
    rw [holdingsOf_of_get? there] at mine
    have theirs := holdingsOf_le { s with enis := s.enis.erase key } other hop
    unfold holdingsOf world at theirs
    rw [SortedMap.get?_erase_ne _ apart] at theirs
    rw [world, ownedIn_of_get? there, holders_owned]
    exact lt_of_le_of_lt theirs (Nat.lt_add_of_pos_left mine)

theorem Counted.live (counted : s.Counted) {hop : TunnelHop} {n : Nat}
    (more : n < s.world.holders hop) : ∃ handle, s.ctx.Live hop handle n := by
  have coherent : s.world.Coherent := counted.reachable.coherent
  have counting := counted.reachable.counting counted.reachable.countable
  have mirrored : s.ctx.Mirrored := coherent.mirrored
  rw [← coherent.referenced hop] at more
  obtain ⟨use, known⟩ := counting.exact_.known (Nat.zero_lt_of_lt more)
  have counts := counting.exact_ hop
  rw [known] at counts
  refine ⟨use.handle, ?_, use, known, rfl, counts.1 ▸ more⟩
  rw [mirrored.handles]
  show ((s.world.ctx.tunnels.get? hop).map TunnelUse.handle) = _
  rw [known]
  rfl

/-- The ENI under a key is left alone: it stays as it is and hosted where it is, its rules stay
in the switch as they are and no call is made for them, and each tunnel next hop that one
of its rules holds stays there under its handle all the time. -/
structure Undisturbed (key : EniKey) (s s' : Reconciler) : Prop where
  config : s'.config = s.config
  eni : s'.enis.get? key = s.enis.get? key
  hosted : ∀ dpu, key ∈ s'.hostedOn dpu ↔ key ∈ s.hostedOn dpu
  rules : ∀ role, KeepsRule (key.ruleKey s.config.table role) s.ctx s'.ctx
  tunnels : ∀ eni, s.enis.get? key = some eni → ∀ r ∈ eni.rules, ∀ hop, r.hop? = some hop →
    ∃ handle, s.ctx.Live hop handle 0 ∧ s'.ctx.Live hop handle 0 ∧
      s.ctx.Without (Event.OnTunnel hop.render) s'.ctx

theorem Undisturbed.trans {s'' : Reconciler} (first : Undisturbed key s s')
    (second : Undisturbed key s' s'') : Undisturbed key s s'' where
  config := second.config.trans first.config
  eni := second.eni.trans first.eni
  hosted dpu := (second.hosted dpu).trans (first.hosted dpu)
  rules role := by
    have later := second.rules role
    rw [first.config] at later
    exact IsTrans.trans _ _ _ (first.rules role) later
  tunnels eni there r member hop held := by
    obtain ⟨handle, before, between, without⟩ := first.tunnels eni there r member hop held
    obtain ⟨handle', between', after, without'⟩ :=
      second.tunnels eni (first.eni.trans there) r member hop held
    -- it is known to the switch under one handle only
    obtain rfl : handle = handle' := Option.some.inj (between.1.symm.trans between'.1)
    exact ⟨handle, before, after, IsTrans.trans _ _ _ without without'⟩

/-- The ENI under a key is not worked on: it stays as it is and hosted where it is, and its rules stay
in the switch as they are without a call. If it holds a tunnel next hop, this has more holders than
are worked on. -/
structure Aside (key : EniKey) (s s' : Reconciler) : Prop where
  config : s'.config = s.config
  eni : s'.enis.get? key = s.enis.get? key
  hosted : ∀ dpu, key ∈ s'.hostedOn dpu ↔ key ∈ s.hostedOn dpu
  rules : ∀ role, KeepsRule (key.ruleKey s.config.table role) s.ctx s'.ctx
  tunnels : ∀ hop, 0 < s.holdingsOf key hop →
    ∃ n m, n < s.world.holders hop ∧ KeepsTunnel hop n m s.ctx s'.ctx

theorem Counted.undisturbed (counted : s.Counted) (aside : Aside key s s') : Undisturbed key s s' where
  config := aside.config
  eni := aside.eni
  hosted := aside.hosted
  rules := aside.rules
  tunnels eni there r member hop held := by
    obtain ⟨n, m, more, keeps⟩ := aside.tunnels hop (holdingsOf_pos there member held)
    obtain ⟨handle, live⟩ := counted.live more
    obtain ⟨live', without⟩ := keeps handle live
    exact ⟨handle, live.mono (Nat.zero_le _), live'.mono (Nat.zero_le _), without⟩

theorem Calm.aside (calm : Calm s s') (hosted : s'.hosted = s.hosted) : Aside key s s' where
  config := calm.config
  eni := by rw [calm.enis]
  hosted dpu := by rw [mem_hostedOn, mem_hostedOn, hosted]
  rules role := Context.keepsRule_of_quiet calm.quiet _
  tunnels hop mine := ⟨0, 0, lt_of_lt_of_le mine (holdingsOf_le s key hop),
    Context.keepsTunnel_of_quiet calm.quiet hop 0⟩

instance : Std.Refl (Aside key) := ⟨fun s => (refl s : Calm s s).aside rfl⟩

theorem Counted.undisturbed_of_calm (counted : s.Counted) (calm : Calm s s')
    (hosted : s'.hosted = s.hosted) : Undisturbed key s s' :=
  counted.undisturbed (calm.aside hosted)

section one

variable (apart : other ≠ key)

include apart

/-- Work on the rules of one ENI is no work on another. -/
theorem aside_of_minds {p : Eni × Context} (minds : Eni.Minds s.config.table key (eni, s.ctx) p)
    (fewer : ∀ hop, Rule.holdings eni.rules hop ≤ s.holdingsOf other hop) (ctx : s'.ctx = p.2)
    (config : s'.config = s.config) (enis : s'.enis.get? key = s.enis.get? key)
    (hosted : ∀ dpu, key ∈ s'.hostedOn dpu ↔ key ∈ s.hostedOn dpu) : Aside key s s' where
  config := config
  eni := enis
  hosted := hosted
  rules role := ctx ▸ minds.rules role
  tunnels hop mine :=
    ⟨_, _, lt_of_le_of_lt (fewer hop) (holdingsOf_lt mine apart), ctx ▸ minds.tunnels hop⟩

theorem aside_worked (there : s.enis.get? other = some eni) {eni' : Eni} {c : Context}
    (minds : Eni.Minds s.config.table key (eni, s.ctx) (eni', c)) (counter : Counter) : Aside key s
      { s with enis := s.enis.insert other eni', ctx := c, enisUpdated := counter } :=
  aside_of_minds apart minds (fun hop => (holdingsOf_of_get? there hop).ge) rfl rfl
    (SortedMap.get?_insert_ne _ _ (Ne.symm apart)) fun _ => Iff.rfl

theorem keep_aside {c : Context} {eni' : Eni}
    (minds : Eni.Minds s.config.table key (eni, s.ctx) (eni', c))
    (fewer : ∀ hop, Rule.holdings eni.rules hop ≤ s.holdingsOf other hop) (counter : Counter) :
    Aside key s { keep other eni' { s with ctx := c } with enisCreated := counter } := by
  refine aside_of_minds apart minds fewer rfl rfl
    (SortedMap.get?_insert_ne _ _ (Ne.symm apart)) fun dpu => ?_
  rw [mem_hostedOn, mem_hostedOn]
  refine hosts_host.trans ⟨fun hosts => hosts.elim id ?_, .inl⟩
  exact fun itself => absurd itself.2.symm apart

variable (kept : s.Kept)

include kept

theorem update_aside (ready : s.initialized = true) (there : s.enis.get? other = some eni)
    (fields : Fields) : Aside key s (set other fields s).2 := by
  obtain ⟨named, tidy⟩ := kept.tidy other eni there
  have minds := Eni.update_minds tidy (named.trans_ne apart) fields s.ctx
  generalize updated : Eni.update fields (eni, s.ctx) = outcome at minds
  obtain ⟨result, eni', c⟩ := outcome
  obtain ⟨counter, run⟩ := run_set_known ready there updated
  rw [run]
  exact aside_worked apart there minds counter

theorem create_aside {a : EniAttributes} (named : a.key = other) :
    Aside key s (create other (Eni.ofAttributes a s.ctx.dpus s.ctx.table) s).2 := by
  have tidy : (Eni.ofAttributes a s.ctx.dpus s.ctx.table).Tidy s.config.table := by
    rw [← kept.table]
    exact Eni.ofAttributes_tidy a s.ctx.dpus s.ctx.table
  have fewer : ∀ hop, Rule.holdings (Eni.ofAttributes a s.ctx.dpus s.ctx.table).rules hop ≤
      s.holdingsOf other hop := by
    intro hop
    rw [(Eni.ofAttributes_new a s.ctx.dpus s.ctx.table).holdings_eq_zero]
    exact Nat.zero_le _
  have named : (Eni.ofAttributes a s.ctx.dpus s.ctx.table).attributes.key ≠ key :=
    named.trans_ne apart
  generalize Eni.ofAttributes a s.ctx.dpus s.ctx.table = eni at *
  have fired := Eni.fireAll_minds tidy named s.ctx
  have taken := Eni.takeDown_minds tidy named s.ctx
  unfold create
  generalize Eni.fireAll (eni, s.ctx) = outcome at fired taken
  obtain ⟨_ | _, eni', c⟩ := outcome
  · dsimp only at taken ⊢
    generalize Eni.destroy (eni', c) = outcome at taken
    obtain ⟨_ | _, eni'', c'⟩ := outcome
    · exact keep_aside apart taken fewer s.enisCreated
    · exact aside_of_minds apart taken fewer rfl rfl rfl fun _ => Iff.rfl
  · exact keep_aside apart fired fewer s.enisCreated.bump

theorem delete_aside : Aside key s (delete other s).2 := by
  cases there : s.enis.get? other with
  | none =>
    rw [run_delete_unknown there]
    exact refl s
  | some eni =>
    obtain ⟨named, tidy⟩ := kept.tidy other eni there
    have minds := Eni.destroy_minds tidy (named.trans_ne apart) s.ctx
    generalize destroyed : Eni.destroy (eni, s.ctx) = outcome at minds
    obtain ⟨result, eni', c⟩ := outcome
    rw [run_delete_known there destroyed]
    cases result with
    | error e => exact aside_worked apart there minds s.enisUpdated
    | ok _ =>
      refine aside_of_minds apart minds (fun hop => (holdingsOf_of_get? there hop).ge) rfl rfl
        (SortedMap.get?_erase_ne _ (Ne.symm apart)) fun dpu => ?_
      rw [mem_hostedOn, mem_hostedOn]
      exact hosts_forget.trans (and_iff_left (Ne.symm apart))

theorem wake_aside (added : Bool) : Aside key s (wake added other s).2 := by
  rcases wake_cases added other s with same | ⟨eni, there, same⟩ <;> rw [same]
  · exact refl s
  · obtain ⟨named, tidy⟩ := kept.tidy other eni there
    have minds := Eni.fireAll_minds tidy (named.trans_ne apart) s.ctx
    exact aside_worked apart there minds s.enisUpdated

end one

theorem hosted_ensureInitialized (s : Reconciler) : (ensureInitialized s).2.hosted = s.hosted := by
  obtain ⟨c, owners, ready, same⟩ := ensureInitialized_prepares s
  rw [same]

/-- What is done for another ENI is no work on this one, once all is prepared. -/
theorem act_aside {deed : Deed} (kept : s.Kept) (apart : deed.key ≠ key) :
    ∃ s₁, Calm s s₁ ∧ s₁.hosted = s.hosted ∧ Aside key s₁ (deed.act s).2 := by
  cases deed with
  | delete other => exact ⟨s, refl s, rfl, delete_aside apart kept⟩
  | set other fields =>
    have calm : Calm s (ensureInitialized s).2 := (ensureInitialized_calm s).1
    have hosted := hosted_ensureInitialized s
    have ready := ensureInitialized_ready s
    show ∃ s₁, Calm s s₁ ∧ s₁.hosted = s.hosted ∧ Aside key s₁ (set other fields s).2
    rw [run_set]
    generalize ensureInitialized s = outcome at calm hosted ready
    obtain ⟨_ | _, s'⟩ := outcome
    · exact ⟨s', calm, hosted, refl s'⟩
    refine ⟨s', calm, hosted, ?_⟩
    have follows : Follows (fun _ => True) s s' := calm.follows
    have kept' : s'.Kept := (follows kept).1
    show Aside key s' (set other fields s').2
    cases there : s'.enis.get? other with
    | some eni => exact update_aside apart kept' (ready s' rfl) there fields
    | none =>
      rw [run_set_new (ready s' rfl) there]
      split
      next => exact refl s'
      next eni declared =>
        obtain ⟨a, named, rfl⟩ := Eni.declare_spec declared
        exact create_aside apart kept' named

theorem act_undisturbed {deed : Deed} (counted : s.Counted) (apart : deed.key ≠ key) :
    Undisturbed key s (deed.act s).2 := by
  obtain ⟨s₁, calm, hosted, aside⟩ := act_aside counted.kept apart
  have prepared : Undisturbed key s s₁ := counted.undisturbed_of_calm calm hosted
  exact prepared.trans ((counted.follow calm.follows).undisturbed aside)

/-- What is counted stays so, and the ENI under a key is left alone. -/
def Sparing (key : EniKey) (s s' : Reconciler) : Prop :=
  s.Counted → s'.Counted ∧ Undisturbed key s s'

instance : Std.Refl (Sparing key) :=
  ⟨fun s counted => ⟨counted, counted.undisturbed (refl s)⟩⟩

instance : IsTrans Reconciler (Sparing key) := by
  constructor
  intro s s' s'' first second counted
  obtain ⟨counted', before⟩ := first counted
  obtain ⟨counted'', after⟩ := second counted'
  exact ⟨counted'', before.trans after⟩

theorem onNeighbor_undisturbed (counted : s.Counted) {u : NeighborUpdate}
    (apart : ∀ dpu, s.owners.get? u.neighbor.ip = some dpu → key ∉ s.hostedOn dpu) :
    Undisturbed key s (onNeighbor u s).2 := by
  rw [run_onNeighbor]
  cases owned : s.owners.get? u.neighbor.ip with
  | none => exact counted.undisturbed (refl s)
  | some dpu =>
    have calm : Calm s { s with neighborUpdates := s.neighborUpdates.bump } := ⟨rfl, rfl, .refl⟩
    have wakes : ∀ other t, other ≠ key → Sparing key t (wake u.added other t).2 := by
      intro other t apart counted
      exact ⟨counted.follow (wake_leads u.added other t).1,
        counted.undisturbed (wake_aside apart counted.kept u.added)⟩
    have visited := Action.visit_others wakes (apart dpu owned)
      { s with neighborUpdates := s.neighborUpdates.bump }
    exact (counted.undisturbed_of_calm calm rfl).trans (visited (counted.follow calm.follows)).2

/-- News that a neighbor has gone, or about an address where no DPU is, changes nothing. -/
theorem onNeighbor_idle {u : NeighborUpdate}
    (idle : u.added = false ∨ s.owners.get? u.neighbor.ip = none) :
    (onNeighbor u s).2.ctx = s.ctx ∧ (onNeighbor u s).2.enis = s.enis := by
  rw [run_onNeighbor]
  cases owned : s.owners.get? u.neighbor.ip with
  | none => exact ⟨rfl, rfl⟩
  | some dpu =>
    have gone : u.added = false := idle.resolve_right (by simp [owned])
    have stays : ∀ other t, (wake u.added other).Leads Eq t fun _ _ => True := by
      intro other t
      refine ⟨?_, fun _ _ => trivial⟩
      cases there : t.enis.get? other with
      | none => rw [run_wake_unknown u.added there]
      | some eni => rw [run_wake u.added there, if_neg (by simp [gone])]
    have visited : (Action.visit (wake u.added) (s.hostedOn dpu)).Leads Eq
        { s with neighborUpdates := s.neighborUpdates.bump } fun _ _ => True := .visit stays _
    dsimp only
    rw [← visited.1]
    exact ⟨rfl, rfl⟩

/-- Following an entry that is addressed to another ENI, or to none, leaves an ENI alone, whether
it succeeds or fails at any call. So does news about a neighbor, if the DPU at its address does
not host the ENI; and news that a neighbor has gone, or about an address where no DPU is, makes no
call and changes no ENI at all. -/
theorem enis_isolated (config : Config) (inventory : Inventory) (requests : List Request)
    (few : ∀ n ∈ (fresh config inventory).headcounts requests, n < UInt32.size) (s : Reconciler)
    (visited : Visits (fresh config inventory) requests s) (key : EniKey) :
    (∀ entry : Entry,
      (∀ other, EniKey.read s.config.separator entry.key = .ok other → other ≠ key) →
      Undisturbed key s (follow entry s).2) ∧
    (∀ u : NeighborUpdate,
      (∀ dpu, s.owners.get? u.neighbor.ip = some dpu → key ∉ s.hostedOn dpu) →
      Undisturbed key s (onNeighbor u s).2) ∧
    ∀ u : NeighborUpdate, u.added = false ∨ s.owners.get? u.neighbor.ip = none →
      (onNeighbor u s).2.ctx = s.ctx ∧ (onNeighbor u s).2.enis = s.enis := by
  obtain ⟨kept, reachable⟩ := visited.reachable few
  have counted : s.Counted := ⟨kept, reachable⟩
  refine ⟨fun entry apart => ?_, fun u => onNeighbor_undisturbed counted, fun u => onNeighbor_idle⟩
  rw [run_follow]
  cases read : Deed.ofEntry s.config.separator entry with
  | error e => exact counted.undisturbed_of_calm (refl s) rfl
  | ok deed => exact act_undisturbed counted (apart deed.key (Deed.key_of_ofEntry read))

section sample

def neighborEni : EniKey := ⟨"Vnet_1000", ⟨0x11, 0x22, 0x33, 0x44, 0x55, 0x66⟩⟩

def pairRequests : List Request :=
  sampleRequests ++ [.set neighborEni [("vdpu_ids", "2,3"), ("primary_vdpu", "3")]]

def sharedHop : TunnelHop := ⟨.v4 ⟨20, 0, 0, 3⟩, "mock_tunnel"⟩

def farewell : Entry := ⟨"Vnet_1000:aa:bb:cc:dd:ee:ff", .del, []⟩

/-- The second ENI shares its tunnel next hop with the first one, and keeps it when the first one is
deleted; that a neighbor has gone is no news to it. -/
theorem sample_isolated :
    let s := (fresh {} sampleInventory).run pairRequests
    s.holders sharedHop = 4 ∧ (follow farewell s).2.holders sharedHop = 2 ∧
      Undisturbed neighborEni s (follow farewell s).2 ∧
      (∃ handle, s.ctx.Live sharedHop handle 0 ∧ (follow farewell s).2.ctx.Live sharedHop handle 0) ∧
      Undisturbed neighborEni s (onNeighbor ⟨⟨sharedHop.ip, "Vlan1"⟩, true⟩ s).2 ∧
      (onNeighbor ⟨⟨sharedHop.ip, "Vlan1"⟩, false⟩ s).2.enis = s.enis := by
  have few : ∀ n ∈ (fresh {} sampleInventory).headcounts pairRequests, n < UInt32.size := by
    decide +kernel
  have isolated := enis_isolated {} sampleInventory pairRequests few _ (.inl rfl) neighborEni
  dsimp only
  generalize ran : (fresh {} sampleInventory).run pairRequests = s at isolated ⊢
  have counts : s.holders sharedHop = 4 ∧ (follow farewell s).2.holders sharedHop = 2 := by
    rw [← ran]
    decide +kernel
  have read : EniKey.read s.config.separator farewell.key = .ok sampleEni := by
    rw [← ran]
    decide +kernel
  have unknown : s.owners.get? sharedHop.ip = none := by
    rw [← ran]
    decide +kernel
  have holds : ((s.enis.get? neighborEni).any fun eni =>
      eni.rules.any fun r => decide (r.hop? = some sharedHop)) = true := by
    rw [← ran]
    decide +kernel
  obtain ⟨eni, there, some_holds⟩ := (Option.any_eq_true _ _).1 holds
  obtain ⟨r, member, held⟩ := List.any_eq_true.1 some_holds
  obtain ⟨entries, news, idle⟩ := isolated
  have undisturbed := entries farewell fun other named => by
    cases read.symm.trans named
    decide
  obtain ⟨handle, before, after, -⟩ :=
    undisturbed.tunnels eni there r member sharedHop (of_decide_eq_true held)
  refine ⟨counts.1, counts.2, undisturbed, ⟨handle, before, after⟩, ?_, ?_⟩
  · exact news _ fun dpu owned => by cases unknown.symm.trans owned
  · exact (idle _ (.inl rfl)).2

end sample

end Reconciler

end EniForwarding
