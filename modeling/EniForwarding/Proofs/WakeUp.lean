import EniForwarding.Proofs.Turns
import EniForwarding.Proofs.World.Counting

/-! Rules that wait for a neighbor, and what wakes them.

A rule waits for a neighbor on the switch where its ENI should lead to, and the address of
that neighbor is known to be that of a DPU. News about it reaches the ENIs that this DPU
hosts, and an ENI is hosted by its local endpoint only. So the news wakes the rule if the
DPU is the local endpoint, and only then.
-/

set_option autoImplicit false

namespace EniForwarding

open Relation Tables

namespace Context

/-- What can be looked up stays, and the history goes on. -/
structure Onward (c c' : Context) : Prop where
  outlook : c'.outlook = c.outlook
  suffix : c.env.trace <:+ c'.env.trace

instance : Std.Refl Onward := ⟨fun _ => ⟨rfl, List.suffix_rfl⟩⟩

instance : IsTrans Context Onward := by
  constructor
  intro c c' c'' first second
  exact ⟨second.outlook.trans first.outlook, first.suffix.trans second.suffix⟩

theorem suffix_of_quiet {c c' : Context} (quiet : ReflTransGen Quiet c c') :
    c.env.trace <:+ c'.env.trace := by
  induction quiet with
  | refl => exact List.suffix_rfl
  | tail _ last ih => exact ih.trans last.suffix

theorem reach_onward (ip : Net.Address) (c : Context) : c.Onward (NextHop.reach ip c).2 :=
  ⟨(steadily_reach ip c).1.outlook, suffix_of_quiet (Rule.quietly_reach ip c).1⟩

theorem findVip_onward (c : Context) : c.Onward (findVip c).2 :=
  ⟨(steadily_findVip c).1.outlook, suffix_of_quiet (quietly_findVip c).1⟩

end Context

namespace Rule

variable {a : EniAttributes} {r : Rule} {c : Context} {ip : Net.Address}

theorem suffix_of_moves {owner : EniAttributes} {p p' : Rule × Context} (moves : Moves owner p p') :
    p.2.env.trace <:+ p'.2.env.trace := by
  induction moves with
  | refl => exact List.suffix_rfl
  | tail _ last ih => exact ih.trans last.suffix

theorem fire_onward (a : EniAttributes) (c : Context) (sound : r.Sound) :
    c.Onward (fire a (r, c)).2.2 :=
  ⟨(fire_arrives a c sound).1.steady.outlook, suffix_of_moves (fire_leads a sound).1⟩

/-- In between, the switch has refused to take the rule. -/
def Refused (r : Rule) (c c' : Context) : Prop :=
  ∃ fields message earlier, c.env.trace <:+ earlier ∧
    .called (.setRule r.key fields) (some message) :: earlier <:+ c'.env.trace

theorem install_outcome (a : EniAttributes) (change : Change) (redirect : String) {vip : Net.Prefix}
    (readable : c.outlook.vip? = .ok vip) :
    (install a change redirect (r, c)).2.1.state = .installed ∨
      r.Refused c (install a change redirect (r, c)).2.2 := by
  obtain ⟨vip, found⟩ := Context.findVip_succeeds readable
  have onward := c.findVip_onward
  have run : Context.findVip c = (.ok vip, (Context.findVip c).2) := Prod.ext found rfl
  generalize (Context.findVip c).2 = c' at onward run
  simp only [install, Action.run_bind, Action.onSecond, run, Action.run_get, Context.auditFailure,
    Action.onFailure]
  rcases c'.setRule_cases r.key (fields r.role a c'.basePriority vip redirect) with
    ⟨message, e, refused⟩ | ⟨switch, done, carried⟩
  · rw [refused]
    exact .inr ⟨_, message, c'.env.trace, onward.suffix, List.suffix_cons _ _⟩
  · rw [carried]
    exact .inl rfl

theorem fire_of_waiting (aimed : target r.role a c.dpus = .ok ⟨.onSwitch, ip⟩)
    (waiting : r.state = .pending) (leads : r.nextHop = some (.direct ip false)) :
    fire a (r, c) = settle a .refresh (r, c) := by
  have live : r.state ≠ .failed := by simp [waiting]
  have refresh : r.change ⟨.onSwitch, ip⟩ = .refresh := by
    rw [change_eq leads, if_pos ⟨rfl, rfl⟩, if_neg (by simp [waiting])]
  rw [fire_of_target live aimed]
  simp only [pursue, Action.run_bind, Action.run_get, refresh]

/-- If the neighbor is reached and the VIP can be read, the waiting rule is installed unless
the switch refuses it. -/
theorem fire_installs (aimed : target r.role a c.dpus = .ok ⟨.onSwitch, ip⟩)
    (waiting : r.state = .pending) (leads : r.nextHop = some (.direct ip false))
    (reached : c.outlook.reaches ip = true) {vip : Net.Prefix} (readable : c.outlook.vip? = .ok vip) :
    (fire a (r, c)).2.1.state = .installed ∨ r.Refused c (fire a (r, c)).2.2 := by
  rw [fire_of_waiting aimed waiting leads, run_settle a .refresh leads]
  have onward := c.reach_onward ip
  obtain ⟨answer, succeeds⟩ := Context.reach_succeeds ip c
  have found : answer = c.outlook.reaches ip := (Context.steadily_reach ip c).2 answer succeeds
  have run : NextHop.reach ip c = (.ok true, (NextHop.reach ip c).2) :=
    Prod.ext (by rw [succeeds, found, reached]) rfl
  generalize (NextHop.reach ip c).2 = c' at onward run
  simp only [NextHop.resolve, Action.run_bind, run]
  have readable' : c'.outlook.vip? = .ok vip := by rw [onward.outlook, readable]
  rcases install_outcome a .refresh (NextHop.direct ip true).target readable' with
    on | ⟨fields, message, earlier, before, after⟩
  · exact .inl on
  · exact .inr ⟨fields, message, earlier, onward.suffix.trans before, after⟩

end Rule

theorem Tables.local_of_target {role : Role} {a : EniAttributes} {dpus : Dpus} {ip : Net.Address}
    (aimed : Rule.target role a dpus = .ok ⟨.onSwitch, ip⟩) : ∃ id, Local dpus id ip := by
  unfold Rule.target at aimed
  cases followed : Rule.targetDpu role a dpus with
  | error e => simp [followed, bind, Except.bind] at aimed
  | ok id =>
    simp only [followed, bind, Except.bind] at aimed
    cases known : dpus.get? id with
    | none => simp [known] at aimed
    | some dpu =>
      cases placed : dpu.placement with
      | onSwitch =>
        cases pa : dpu.pa with
        | none => simp [known, placed, pa] at aimed
        | some address =>
          simp only [known, placed, pa] at aimed
          cases aimed
          exact ⟨id, dpu, known, by simp [Dpu.isLocal, placed], pa⟩
      | inCluster =>
        cases npu : dpu.npu with
        | none => simp [known, placed, npu] at aimed
        | some address =>
          simp only [known, placed, npu] at aimed
          cases aimed

namespace Eni

variable (eni : Eni) (c : Context) (sound : ∀ r ∈ eni.rules, r.Sound)

include sound

theorem fireAll_onward : c.Onward (fireAll (eni, c)).2.2 := by
  have swept := Action.sweep_reaches (R := Context.Onward) (P := Rule.Sound)
    (fun r c sound => Rule.fire_onward eni.attributes c sound) c sound
  rw [run_fireAll]
  generalize Action.sweep (Rule.fire eni.attributes) (eni.rules, c) = outcome at swept
  obtain ⟨_ | _, rules, c'⟩ := outcome <;> exact swept

theorem fireAll_fires {r : Rule} (member : r ∈ eni.rules) :
    ∃ c', c.Onward c' ∧ (Rule.fire eni.attributes (r, c')).2.1 ∈ (fireAll (eni, c)).2.1.rules ∧
      (Rule.fire eni.attributes (r, c')).2.2.Onward (fireAll (eni, c)).2.2 := by
  have turn := Action.sweep_member (R := Context.Onward) (P := Rule.Sound)
    (fun r c sound => Rule.fire_onward eni.attributes c sound) member c sound
  rw [run_fireAll]
  generalize Action.sweep (Rule.fire eni.attributes) (eni.rules, c) = outcome at turn
  obtain ⟨_ | _, rules, c''⟩ := outcome <;> exact turn

end Eni

namespace Reconciler

/-- The ENI under a key stays as it is, and the history goes on. -/
structure Spares (key : EniKey) (s s' : Reconciler) : Prop where
  kept : s.Kept → s'.Kept
  onward : s.Kept → s.ctx.Onward s'.ctx
  eni : s'.enis.get? key = s.enis.get? key

section wake

variable {s : Reconciler} {key : EniKey} {eni : Eni} {dpu : UInt64}

instance : Std.Refl (Spares key) := ⟨fun s => ⟨id, fun _ => refl s.ctx, rfl⟩⟩

instance : IsTrans Reconciler (Spares key) := by
  constructor
  intro s s' s'' first second
  exact ⟨second.kept ∘ first.kept,
    fun kept => IsTrans.trans _ _ _ (first.onward kept) (second.onward (first.kept kept)),
    second.eni.trans first.eni⟩

theorem wake_kept (added : Bool) (key : EniKey) (kept : s.Kept) : (wake added key s).2.Kept := by
  have follows : Follows (fun _ => True) s (wake added key s).2 := (wake_leads added key s).1
  exact (follows kept).1

theorem wake_spares {other : EniKey} (added : Bool) (apart : other ≠ key) (s : Reconciler) :
    Spares key s (wake added other s).2 := by
  have kept := fun kept => wake_kept (s := s) added other kept
  rcases wake_cases added other s with same | ⟨eni, there, same⟩ <;> rw [same] at kept ⊢
  · exact refl s
  · exact ⟨kept, fun kept => Eni.fireAll_onward eni s.ctx (kept.sound there),
      SortedMap.get?_insert_ne _ _ (Ne.symm apart)⟩

theorem mem_hostedOn : key ∈ s.hostedOn dpu ↔ Hosts s.hosted dpu key := by
  unfold hostedOn Hosts
  cases s.hosted.get? dpu with
  | none => simp
  | some keys => simp [SortedSet.members, SortedMap.mem_keys]

theorem hostedOn_nodup (s : Reconciler) (dpu : UInt64) : (s.hostedOn dpu).Nodup := by
  unfold hostedOn
  cases s.hosted.get? dpu with
  | none => exact List.nodup_nil
  | some keys => exact SortedMap.keys_nodup keys

/-- News that a neighbor has come fires the ENIs that the DPU there hosts. -/
theorem onNeighbor_fireAll (kept : s.Kept) {ip : Net.Address} (owned : s.owners.get? ip = some dpu)
    (hosts : key ∈ s.hostedOn dpu) (there : s.enis.get? key = some eni) (name : String) :
    ∃ c, s.ctx.Onward c ∧ (onNeighbor ⟨⟨ip, name⟩, true⟩ s).2.enis.get? key =
        some (Eni.fireAll (eni, c)).2.1 ∧
      (Eni.fireAll (eni, c)).2.2.Onward (onNeighbor ⟨⟨ip, name⟩, true⟩ s).2.ctx := by
  rw [run_onNeighbor_owned owned]
  generalize begun : ({ s with neighborUpdates := s.neighborUpdates.bump } : Reconciler) = s₀
  have calm : Calm s s₀ := by rw [← begun]; exact ⟨rfl, rfl, .refl⟩
  have follows : Follows (fun _ => True) s s₀ := calm.follows
  have kept₀ : s₀.Kept := (follows kept).1
  have ctx : s₀.ctx = s.ctx := by rw [← begun]
  have there₀ : s₀.enis.get? key = some eni := by rw [calm.enis, there]
  obtain ⟨s₁, before, after⟩ := Action.visit_member (R := Spares key) (f := wake true)
    (fun other s apart => wake_spares true apart s) (s.hostedOn_nodup dpu) hosts s₀
  -- the ENI is still the same when its turn comes
  have there₁ : s₁.enis.get? key = some eni := by rw [before.eni, there₀]
  have kept₂ := wake_kept true key (before.kept kept₀)
  rw [run_wake true there₁, if_pos rfl] at after kept₂
  exact ⟨s₁.ctx, ctx ▸ before.onward kept₀, after.eni.trans (SortedMap.get?_insert_self _ _ _),
    after.onward kept₂⟩

theorem onNeighbor_fires (kept : s.Kept) {ip : Net.Address} (owned : s.owners.get? ip = some dpu)
    (hosts : key ∈ s.hostedOn dpu) (there : s.enis.get? key = some eni) {r : Rule}
    (member : r ∈ eni.rules) (name : String) :
    ∃ eni' c, (onNeighbor ⟨⟨ip, name⟩, true⟩ s).2.enis.get? key = some eni' ∧ s.ctx.Onward c ∧
      (Rule.fire eni.attributes (r, c)).2.1 ∈ eni'.rules ∧
      (Rule.fire eni.attributes (r, c)).2.2.Onward (onNeighbor ⟨⟨ip, name⟩, true⟩ s).2.ctx := by
  obtain ⟨c, before, fired, after⟩ := onNeighbor_fireAll kept owned hosts there name
  obtain ⟨c', onward, among, onward'⟩ := Eni.fireAll_fires eni c (kept.sound there) member
  exact ⟨_, c', fired, IsTrans.trans _ _ _ before onward, among, IsTrans.trans _ _ _ onward' after⟩

/-- News about a DPU that does not host the ENI leaves it as it is. -/
theorem onNeighbor_spares {ip : Net.Address} (owned : s.owners.get? ip = some dpu)
    (apart : key ∉ s.hostedOn dpu) (u : NeighborUpdate) (same : u.neighbor.ip = ip) :
    (onNeighbor u s).2.enis.get? key = s.enis.get? key := by
  rw [run_onNeighbor]
  simp only [same, owned]
  exact (Action.visit_others (R := Spares key) (f := wake u.added)
    (fun other s apart => wake_spares u.added apart s) apart _).eni

end wake

/-- A rule that waits for a neighbor on the switch waits for a DPU that is known by its address,
and the ENI is registered with that DPU only if it is the local endpoint. If it is, news that
the neighbor has come fires the rule, which is then installed unless the neighbor is not
reached, the VIP cannot be read or the switch refuses the rule; if it is not, the news
leaves the ENI as it is. -/
theorem waiting_rule_woken_iff_hosted (config : Config) (inventory : Inventory)
    (requests : List Request) :
    let s := (fresh config inventory).run requests
    ∀ key eni, s.enis.get? key = some eni → ∀ r ∈ eni.rules, r.state = .pending →
      ∀ ip, r.nextHop = some (.direct ip false) →
      ∃ dpu, s.owners.get? ip = some dpu ∧ Local s.ctx.dpus dpu ip ∧
        (key ∈ s.hostedOn dpu ↔ eni.localEndpoint s.ctx.dpus = some dpu) ∧
        ∀ name,
          let s' := (onNeighbor ⟨⟨ip, name⟩, true⟩ s).2
          (key ∉ s.hostedOn dpu → s'.enis.get? key = some eni) ∧
          (key ∈ s.hostedOn dpu → ∃ eni' c, s'.enis.get? key = some eni' ∧ s.ctx.Onward c ∧
            (Rule.fire eni.attributes (r, c)).2.1 ∈ eni'.rules ∧
            ((∃ vip, s.ctx.outlook.vip? = .ok vip) → s.ctx.outlook.reaches ip = true →
              (Rule.fire eni.attributes (r, c)).2.1.state = .installed ∨
                r.Refused s.ctx s'.ctx)) := by
  intro s key eni there r member waiting ip leads
  obtain ⟨kept, inOrder⟩ := run_inOrder config inventory requests
  have fits : eni.InOrder s.ctx.dpus := (inOrder.enis key eni there).2
  have aimed : Rule.target r.role eni.attributes s.ctx.dpus = .ok ⟨.onSwitch, ip⟩ :=
    fits.waits r member waiting ip false leads
  obtain ⟨noted, owned⟩ := inOrder.owners (inOrder.ready there) ip
  -- the target of the rule is a DPU on the switch, so its address is one that is known
  obtain ⟨id, here⟩ := local_of_target aimed
  obtain ⟨dpu, owner⟩ := Option.isSome_iff_exists.1 (owned id here)
  have hosts : key ∈ s.hostedOn dpu ↔ eni.localEndpoint s.ctx.dpus = some dpu :=
    mem_hostedOn.trans (inOrder.hosts_iff there dpu)
  refine ⟨dpu, owner, noted dpu owner, hosts, fun name => ⟨fun apart => ?_, fun hosted => ?_⟩⟩
  · exact (onNeighbor_spares owner apart ⟨⟨ip, name⟩, true⟩ rfl).trans there
  · obtain ⟨eni', c, there', onward, fired, onward'⟩ :=
      onNeighbor_fires kept owner hosted there member name
    refine ⟨eni', c, there', onward, fired, ?_⟩
    rintro ⟨vip, readable⟩ reached
    have dpus : c.dpus = s.ctx.dpus := congrArg Outlook.dpus onward.outlook
    rcases Rule.fire_installs (a := eni.attributes) (c := c) (by rw [dpus]; exact aimed) waiting leads
      (by rw [onward.outlook, reached]) (by rw [onward.outlook, readable]) with
      on | ⟨fields, message, earlier, before, after⟩
    · exact .inl on
    · exact .inr ⟨fields, message, earlier, onward.suffix.trans before,
        after.trans onward'.suffix⟩

section samples

def firstAddress : Net.Address := .v4 ⟨10, 0, 0, 1⟩

def secondAddress : Net.Address := .v4 ⟨10, 0, 0, 4⟩

def twoHosts : Inventory :=
  ((((Inventory.empty.addDpu 1 "local" "10.0.0.1" "20.0.0.1").addDpu 4 "local" "10.0.0.4"
    "20.0.0.4").addVip "10.2.0.1/32").addInterface firstAddress "Vlan1").addInterface secondAddress
    "Vlan4"

/-- An ENI on both DPUs is declared with this primary, and then a neighbor is resolved. -/
def waitingRequests (primary : String) (resolved : Net.Address) : List Request :=
  [.set sampleEni [("vdpu_ids", "1,4"), ("primary_vdpu", primary)],
    .surroundings (twoHosts.resolve resolved) .none false false]

def waitsFor (ip : Net.Address) (r : Rule) : Bool :=
  decide (r.state = .pending) && decide (r.nextHop = some (.direct ip false))

theorem first_host_wakes :
    let s := (fresh {} twoHosts).run (waitingRequests "1" firstAddress)
    ∃ eni, s.enis.get? sampleEni = some eni ∧ ∃ r ∈ eni.rules, waitsFor firstAddress r = true ∧
      ∃ eni' r', (onNeighbor ⟨⟨firstAddress, "Vlan1"⟩, true⟩ s).2.enis.get? sampleEni = some eni' ∧
        r' ∈ eni'.rules ∧ (r'.state = .installed ∨
          r.Refused s.ctx (onNeighbor ⟨⟨firstAddress, "Vlan1"⟩, true⟩ s).2.ctx) := by
  have woken := waiting_rule_woken_iff_hosted {} twoHosts (waitingRequests "1" firstAddress)
  dsimp only at woken ⊢
  generalize ran : (fresh {} twoHosts).run (waitingRequests "1" firstAddress) = s at woken ⊢
  have waiting :
      ((s.enis.get? sampleEni).any fun eni => eni.rules.any (waitsFor firstAddress)) = true := by
    rw [← ran]
    decide +kernel
  have known : s.owners.get? firstAddress = some 1 ∧ sampleEni ∈ s.hostedOn 1 := by
    rw [← ran]
    decide +kernel
  have looked : s.ctx.outlook.vip?.isOk = true ∧ s.ctx.outlook.reaches firstAddress = true := by
    rw [← ran]
    decide +kernel
  obtain ⟨eni, there, some_waits⟩ := (Option.any_eq_true _ _).1 waiting
  obtain ⟨r, member, waits⟩ := List.any_eq_true.1 some_waits
  obtain ⟨pending, leads⟩ : r.state = .pending ∧ r.nextHop = some (.direct firstAddress false) := by
    simpa [waitsFor] using waits
  obtain ⟨dpu, owner, -, -, news⟩ := woken sampleEni eni there r member pending firstAddress leads
  obtain rfl : dpu = 1 := Option.some.inj (owner.symm.trans known.1)
  obtain ⟨eni', c, there', -, fired, installed⟩ := (news "Vlan1").2 known.2
  obtain ⟨vip, readable⟩ : ∃ vip, s.ctx.outlook.vip? = .ok vip := by
    cases found : s.ctx.outlook.vip? with
    | error e => simp [found, Except.isOk, Except.toBool] at looked
    | ok vip => exact ⟨vip, rfl⟩
  exact ⟨eni, there, r, member, waits, eni', _, there', fired, installed ⟨vip, readable⟩ looked.2⟩

/-- With the second DPU as its primary, an ENI has a rule that waits for the second neighbor, but
is not registered with the second DPU; so the news that the neighbor has come changes nothing,
although the neighbor is reached and the VIP can be read. -/
theorem second_host_unheard :
    let s := (fresh {} twoHosts).run (waitingRequests "4" secondAddress)
    s.initialized = true ∧
      ((s.enis.get? sampleEni).any fun eni => eni.rules.any (waitsFor secondAddress)) = true ∧
      s.owners.get? secondAddress = some 4 ∧ s.hostedOn 4 = [] ∧
      s.ctx.outlook.reaches secondAddress = true ∧ s.ctx.outlook.vip?.isOk = true ∧
      (onNeighbor ⟨⟨secondAddress, "Vlan4"⟩, true⟩ s).2.enis.get? sampleEni = s.enis.get? sampleEni := by
  decide +kernel

end samples

end Reconciler

end EniForwarding
