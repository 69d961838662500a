import EniForwarding.Proofs.Causes
import EniForwarding.Proofs.Eni.Detour
import EniForwarding.Proofs.Isolation

/-! Taking down what could not be set up.

If not all rules of a new ENI can be set up, what they have written and taken hold of is taken
down again. Where that succeeds the switch and all tables are as they were: no tunnel next hop
with other users has come or gone, and each has lost as many users as it had gained. Where it
does not, the switch has refused a call by which a rule is taken down, and the ENI stays, to be
fired again.
-/

set_option autoImplicit false

namespace EniForwarding

open Relation Tables
open Context (KeepsTunnel)

namespace Context

variable {c c₁ c₂ c₃ : Context} {hop : TunnelHop}

theorem Failed.within {call : Call} {earlier : History} (failed : c₁.Failed c₂ call earlier)
    (before : c.env.trace <:+ c₁.env.trace) (after : c₂.env.trace <:+ c₃.env.trace) :
    c.Failed c₃ call earlier := by
  obtain ⟨message, first, second⟩ := failed
  exact ⟨message, before.trans first, second.trans after⟩

theorem failed_refusal (c : Context) (call : Call) (message : String) (record : Audit.Record) :
    c.Failed ((c.refused call message).noted (.audited record)) call c.env.trace :=
  ⟨message, List.suffix_rfl, List.suffix_cons _ _⟩

/-- A tunnel next hop is not given back only if the switch does not remove it. -/
theorem release_fails {e : Failure} (run : release hop c = (.error e, c₁)) :
    ∃ earlier, c.Failed c₁ (.removeTunnel hop) earlier := by
  cases known : c.tunnels.get? hop with
  | none => cases run.symm.trans (release_unknown known)
  | some use =>
    by_cases shared : 1 < use.refs
    · cases run.symm.trans (release_shared known shared)
    · rcases release_last known shared with ⟨message, record, refusal⟩ | ⟨switch, -, carried⟩
      · cases run.symm.trans refusal
        exact ⟨_, c.failed_refusal _ message record⟩
      · cases run.symm.trans carried

section restored

variable {c' : Context} (mirrored : c.Mirrored) (mirrored' : c'.Mirrored)

include mirrored mirrored'

theorem Mirrored.tunnels_eq
    (same : ∀ hop, (c'.tunnels.get? hop).map TunnelUse.handle =
      (c.tunnels.get? hop).map TunnelUse.handle) :
    c'.env.switch.tunnels = c.env.switch.tunnels := by
  apply SortedMap.ext_get?
  intro name
  by_cases named : ∃ hop : TunnelHop, hop.render = name
  · obtain ⟨hop, rfl⟩ := named
    rw [mirrored.handles, mirrored'.handles, same]
  · have absent : ∀ {c : Context}, c.Mirrored → c.env.switch.tunnels.get? name = none := by
      intro c mirrored
      by_contra there
      exact named (mirrored.named name (Option.isSome_iff_ne_none.2 there))
    rw [absent mirrored, absent mirrored']

omit mirrored'

/-- A tunnel next hop that is kept while it has users, and gains none, keeps its handle. -/
theorem handle_eq (used : c.Used) (used' : c'.Used) (keeps : KeepsTunnel hop 0 0 c c')
    (fewer : c'.users hop ≤ c.users hop) :
    (c'.tunnels.get? hop).map TunnelUse.handle = (c.tunnels.get? hop).map TunnelUse.handle := by
  cases known : c.tunnels.get? hop with
  | none =>
    have nobody : c'.users hop = c.users hop := by
      rw [users_of_unknown known] at fewer ⊢
      exact Nat.le_zero.1 fewer
    have gone := refs?_eq used used' nobody
    simpa [SortedMap.refs?, known] using gone
  | some use =>
    have there : c.env.switch.tunnels.get? hop.render = some use.handle := by
      rw [mirrored.handles, known]
      rfl
    have users : 0 < use.refs.toNat :=
      Nat.pos_of_ne_zero fun nobody => used hop use known (UInt32.toNat_inj.1 nobody)
    obtain ⟨⟨-, use', known', same, -⟩, -⟩ := keeps use.handle ⟨there, use, known, rfl, users⟩
    rw [known', Option.map_some, Option.map_some, same]

end restored

theorem get?_eq_of_users {c' : Context} (used : c.Used) (used' : c'.Used)
    (handle : (c'.tunnels.get? hop).map TunnelUse.handle = (c.tunnels.get? hop).map TunnelUse.handle)
    (users : c'.users hop = c.users hop) : c'.tunnels.get? hop = c.tunnels.get? hop := by
  have refs := refs?_eq used used' users
  unfold SortedMap.refs? at refs
  cases known : c.tunnels.get? hop with
  | none => simpa [known] using handle
  | some use =>
    rw [known] at handle refs
    obtain ⟨use', known', same⟩ := Option.map_eq_some_iff.1 handle
    rw [known'] at refs ⊢
    have refs : use'.refs = use.refs := Option.some.inj refs
    cases use
    cases use'
    cases same
    cases refs
    rfl

end Context

namespace Rule

variable {r r' : Rule} {c c' : Context} {e : Failure}

def TakenDownBy (r : Rule) (call : Call) : Prop :=
  call = .deleteRule r.key ∨ ∃ hop, call = .removeTunnel hop

theorem dropNextHop_fails (run : dropNextHop (r, c) = (.error e, r', c')) :
    ∃ call earlier, r.TakenDownBy call ∧ c.Failed c' call earlier := by
  cases leads : r.nextHop with
  | none => cases run.symm.trans (dropNextHop_of_none leads c)
  | some next =>
    rw [run_dropNextHop leads] at run
    rcases next with ⟨ip, resolved⟩ | ⟨ip, vnet, _ | tunnel⟩
    · cases run
    · cases run
    · simp only [NextHop.release, Action.run_bind] at run
      generalize released : Context.release ⟨ip, tunnel⟩ c = outcome at run
      obtain ⟨e | _, c₁⟩ := outcome <;> cases run
      obtain ⟨earlier, failed⟩ := Context.release_fails released
      exact ⟨_, earlier, .inr ⟨_, rfl⟩, failed⟩

theorem destroy_fails (run : destroy (r, c) = (.error e, r', c')) :
    ∃ call earlier, r.TakenDownBy call ∧ c.Failed c' call earlier := by
  by_cases on : r.state = .installed
  · simp only [destroy, Action.run_bind, Action.run_get, on, if_true] at run
    have continues := (uninstall_candid r c .resourceDelete).1
    rcases uninstall_cases .resourceDelete r c with ⟨message, e, record, lost⟩ | ⟨switch, -, carried⟩
    · rw [lost] at run
      cases run
      exact ⟨_, _, .inl rfl, c.failed_refusal _ message record⟩
    · rw [carried] at run continues
      obtain ⟨call, earlier, down, failed⟩ := dropNextHop_fails run
      exact ⟨call, earlier, down, failed.within continues.suffix List.suffix_rfl⟩
  · simp only [destroy, Action.run_bind, Action.run_get, on, if_false] at run
    exact dropNextHop_fails run

theorem sweep_destroy_fails {rules rules' : List Rule}
    (run : Action.sweep destroy (rules, c) = (.error e, rules', c')) :
    ∃ r ∈ rules, ∃ call earlier, r.TakenDownBy call ∧ c.Failed c' call earlier := by
  induction rules generalizing c e rules' with
  | nil => cases run.symm.trans (Action.sweep_nil destroy c)
  | cons r rest ih =>
    have head := (destroy_candid r c).1
    generalize worked : destroy (r, c) = outcome at head
    obtain ⟨first, r₁, c₁⟩ := outcome
    have tail := (Action.Candid.sweep destroy_candid rest c₁).1
    generalize swept : Action.sweep destroy (rest, c₁) = outcome at tail
    obtain ⟨second, rest', c₂⟩ := outcome
    rw [Action.sweep_cons worked swept] at run
    -- the failure is the first one, so it is that of the head unless the head succeeds
    cases first with
    | error e' =>
      cases run
      obtain ⟨call, earlier, down, failed⟩ := destroy_fails worked
      exact ⟨r, List.mem_cons_self, call, earlier, down, failed.within List.suffix_rfl tail.suffix⟩
    | ok _ =>
      have run : (second, r₁ :: rest', c₂) = (.error e, rules', c') := run
      cases run
      obtain ⟨other, later, call, earlier, down, failed⟩ := ih swept
      exact ⟨other, List.mem_cons_of_mem _ later, call, earlier, down,
        failed.within head.suffix List.suffix_rfl⟩

end Rule

namespace Eni

variable {table : String} {eni fired : Eni} {c c₁ c₂ : Context} {e : Failure}

instance : Nontrivial EniKey :=
  ⟨⟨"", ⟨0, 0, 0, 0, 0, 0⟩⟩, ⟨"", ⟨0, 0, 0, 0, 0, 1⟩⟩, by decide⟩

theorem fireAll_fails (sound : ∀ r ∈ eni.rules, r.Sound)
    (run : fireAll (eni, c) = (.error e, fired, c₁)) :
    ∃ rules, fired = { eni with rules := rules, needsRefire := true } ∧
      Rule.Pursuit eni.attributes (eni.rules, c) (rules, c₁) := by
  rcases fireAll_outcome eni c sound with ⟨c', succeeds, -⟩ | ⟨e', rules, c', fails, pursuit⟩
  · cases run.symm.trans succeeds
  · cases run.symm.trans fails
    exact ⟨rules, rfl, pursuit⟩

/-- A new ENI that could not be set up but is taken down again has given back all that its rules had
taken hold of. What others use has neither come nor gone, and a count of users falls behind only
if it was full. -/
theorem takeDown_restores {undone : Eni} (tidy : eni.Tidy table) (new : Rule.New eni.rules)
    (fails : fireAll (eni, c) = (.error e, fired, c₁))
    (undoes : destroy (fired, c₁) = (.ok (), undone, c₂)) :
    c₂.outlook = c.outlook ∧ (∀ hop, KeepsTunnel hop 0 0 c c₂) ∧
      ∀ hop, ∃ n ≤ 4, c₂.users hop = min (c.users hop + n) (UInt32.size - 1) - n := by
  obtain ⟨rules, rfl, pursuit⟩ := fireAll_fails tidy.sound fails
  obtain ⟨c', done, outlook, falls⟩ | ⟨e', rules', c', stuck, -⟩ := destroy_outcome _ c₁
  · cases undoes.symm.trans done
    refine ⟨outlook.trans pursuit.outlook, fun hop => ?_, fun hop => ⟨Rule.holdings rules hop, ?_, ?_⟩⟩
    · obtain ⟨other, apart⟩ := exists_ne eni.attributes.key
      have minds := (takeDown_minds tidy (Ne.symm apart) c).tunnels hop
      rw [fails, undoes, new.holdings_eq_zero] at minds
      exact minds
    · have short : rules.length ≤ 4 := by
        have same : rules.length = eni.rules.length := by
          simpa using congrArg List.length pursuit.labels
        exact same ▸ tidy.length_le
      exact List.countP_le_length.trans short
    · have fallen := (falls hop).2
      have nothing := new.holdings_eq_zero hop
      have bound := c.users_le hop
      by_cases aimed : Rule.target .inbound eni.attributes c.dpus = .ok ⟨.inCluster, hop.ip⟩
      · have risen := (pursuit.rises hop aimed new.bare).2
        simp only [nothing] at risen
        simp only [Nat.sub_zero] at risen fallen
        rw [fallen, risen]
      · -- where the rules do not aim they have taken hold of nothing
        obtain ⟨none_held, kept⟩ := pursuit.falls hop aimed
        simp only [nothing] at none_held kept
        have none_held : Rule.holdings rules hop = 0 := Nat.le_zero.1 none_held
        rw [none_held] at fallen ⊢
        omega
  · cases undoes.symm.trans stuck

theorem destroy_fails {eni' : Eni} (run : destroy (eni, c) = (.error e, eni', c₁)) :
    ∃ r ∈ eni.rules, ∃ call earlier, r.TakenDownBy call ∧ c.Failed c₁ call earlier := by
  rw [run_destroy] at run
  generalize swept : Action.sweep Rule.destroy (eni.rules, c) = outcome at run
  obtain ⟨e' | _, rules, c'⟩ := outcome <;> cases run
  exact Rule.sweep_destroy_fails swept

end Eni

namespace Reconciler

def TakesDown (table : String) (key : EniKey) (call : Call) : Prop :=
  (∃ role, call = .deleteRule (key.ruleKey table role)) ∨ ∃ hop, call = .removeTunnel hop

/-- The tables are as before, and so are the rules and the tunnel next hops of the switch. Each
tunnel next hop has the users that it had, if it had room for those of one more ENI. -/
structure Restored (s s' : Reconciler) : Prop where
  tables : s'.tables = s.tables
  rules : s'.ctx.env.switch.rules = s.ctx.env.switch.rules
  tunnels : s'.ctx.env.switch.tunnels = s.ctx.env.switch.tunnels
  handles : ∀ hop, (s'.ctx.tunnels.get? hop).map TunnelUse.handle =
    (s.ctx.tunnels.get? hop).map TunnelUse.handle
  users : ∀ hop, s.ctx.users hop + 4 < UInt32.size →
    s'.ctx.tunnels.get? hop = s.ctx.tunnels.get? hop

instance : Std.Refl Restored := ⟨fun _ => ⟨rfl, rfl, rfl, fun _ => rfl, fun _ _ => rfl⟩⟩

variable {s s' : Reconciler} {key : EniKey} {eni : Eni} {fields : Fields} {e : Failure}

theorem create_fails (run : create key eni s = (.error e, s')) :
    ∃ fired c, Eni.fireAll (eni, s.ctx) = (.error e, fired, c) ∧
      ((∃ undone c', Eni.destroy (fired, c) = (.ok (), undone, c') ∧ s' = { s with ctx := c' }) ∨
        ∃ e' left c', Eni.destroy (fired, c) = (.error e', left, c') ∧
          s' = keep key left { s with ctx := c' }) := by
  rcases create_cases key eni s with
    ⟨fired, c, -, done⟩ | ⟨e', fired, c, fails, ⟨undone, c', undoes, ends⟩ | ⟨e'', left, c', stuck, ends⟩⟩
  · cases run.symm.trans done
  · cases run.symm.trans ends
    exact ⟨fired, c, fails, .inl ⟨undone, c', undoes, rfl⟩⟩
  · cases run.symm.trans ends
    exact ⟨fired, c, fails, .inr ⟨e'', left, c', stuck, rfl⟩⟩

theorem restored_of_takeDown {fired undone : Eni} {c c' : Context} (lawful : s.Lawful)
    (lawful' : ({ s with ctx := c' } : Reconciler).Lawful) (tidy : eni.Tidy s.config.table)
    (new : Rule.New eni.rules) (fails : Eni.fireAll (eni, s.ctx) = (.error e, fired, c))
    (undoes : Eni.destroy (fired, c) = (.ok (), undone, c')) : Restored s { s with ctx := c' } := by
  obtain ⟨outlook, keeps, users⟩ := Eni.takeDown_restores tidy new fails undoes
  have mirrored : s.ctx.Mirrored := lawful.coherent.mirrored
  have mirrored' : c'.Mirrored := lawful'.coherent.mirrored
  have handles : ∀ hop, (c'.tunnels.get? hop).map TunnelUse.handle =
      (s.ctx.tunnels.get? hop).map TunnelUse.handle := by
    intro hop
    refine Context.handle_eq mirrored lawful.used lawful'.used (keeps hop) ?_
    obtain ⟨n, -, same⟩ := users hop
    omega
  constructor
  · exact tables_of_context (congrArg Outlook.dpus outlook)
  · exact lawful.rules_eq lawful' rfl rfl (congrArg Outlook.vip? outlook)
  · exact mirrored.tunnels_eq mirrored' handles
  · exact handles
  · intro hop room
    refine Context.get?_eq_of_users lawful.used lawful'.used (handles hop) ?_
    obtain ⟨n, few, same⟩ := users hop
    show c'.users hop = s.ctx.users hop
    omega

/-- What is known of an ENI that could be neither set up nor taken down: it is to be fired again, it
is hosted by its local endpoint, and the switch has refused to take it down. -/
structure LeftBehind (key : EniKey) (fields : Fields) (s s' : Reconciler) (eni : Eni) : Prop where
  again : eni.needsRefire = true
  hosted : ∀ dpu, key ∈ s'.hostedOn dpu ↔ eni.localEndpoint s'.ctx.dpus = some dpu
  refused : ∃ fresh e fired c, Eni.declare key fields s.ctx = .ok fresh ∧
    Eni.fireAll (fresh, s.ctx) = (.error e, fired, c) ∧
    ∃ call earlier, TakesDown s.config.table key call ∧ c.Failed s'.ctx call earlier

theorem takesDown_of_rule {table : String} {r : Rule} {call : Call} (tidy : eni.Tidy table)
    (member : r ∈ eni.rules) (down : r.TakenDownBy call) :
    TakesDown table eni.attributes.key call := by
  rcases down with rfl | removal
  · exact .inl ⟨r.role, by rw [tidy.keys r member]⟩
  · exact .inr removal

theorem leftBehind_of_destroy {fired left : Eni} {c c' : Context} {e' : Failure}
    (lawful' : (keep key left { s with ctx := c' }).Lawful) (tidy : eni.Tidy s.config.table)
    (named : eni.attributes.key = key) (declared : Eni.declare key fields s.ctx = .ok eni)
    (fails : Eni.fireAll (eni, s.ctx) = (.error e, fired, c))
    (stuck : Eni.destroy (fired, c) = (.error e', left, c')) :
    LeftBehind key fields s (keep key left { s with ctx := c' }) left := by
  have works : Eni.Works (fun _ => True) s.config.table (eni, s.ctx) (Eni.fireAll (eni, s.ctx)).2 :=
    (Eni.fireAll_leads eni s.ctx).1
  rw [fails] at works
  obtain ⟨r, member, call, earlier, down, failed⟩ := Eni.destroy_fails stuck
  have down : TakesDown s.config.table fired.attributes.key call :=
    takesDown_of_rule (works tidy).1 member down
  obtain ⟨rules, rfl, -⟩ := Eni.fireAll_fails tidy.sound fails
  have marked : left.needsRefire = true := by
    rcases Eni.destroy_outcome { eni with rules := rules, needsRefire := true } c with
      ⟨c'', done, -⟩ | ⟨e'', rules', c'', run, -⟩
    · cases stuck.symm.trans done
    · cases stuck.symm.trans run
      rfl
  have there : (keep key left { s with ctx := c' }).enis.get? key = some left :=
    SortedMap.get?_insert_self _ _ _
  refine ⟨marked, fun dpu => mem_hostedOn.trans (lawful'.inOrder.hosts_iff there dpu), ?_⟩
  exact ⟨eni, e, _, c, declared, fails, call, earlier, named ▸ down, failed⟩

/-- A declaration of a new ENI that fails leaves all as it was if the ENI is not there afterwards. If
it is there, the switch has refused a call to take it down, and the ENI is hosted by its local
endpoint and is to be fired again. -/
theorem failed_creation_rolled_back (config : Config) (inventory : Inventory)
    (requests : List Request) (s : Reconciler)
    (visits : Visits (fresh config inventory) requests s) (ready : s.initialized = true)
    (key : EniKey) (absent : s.enis.get? key = none) (fields : Fields) (e : Failure)
    (s' : Reconciler) (failed : set key fields s = (.error e, s')) :
    (s'.enis.get? key = none → Restored s s') ∧
      ∀ eni, s'.enis.get? key = some eni → LeftBehind key fields s s' eni := by
  obtain ⟨lawful, -⟩ := visits.lawful
  have lawful' : s'.Lawful := by
    have advanced := (lawful.advance (set_advances key fields s)).1
    rwa [failed] at advanced
  rw [run_set_new ready absent] at failed
  cases declared : Eni.declare key fields s.ctx with
  | error e' =>
    -- nothing was begun
    simp only [declared] at failed
    cases failed
    exact ⟨fun _ => refl s, fun eni there => by cases absent.symm.trans there⟩
  | ok eni =>
    simp only [declared] at failed
    obtain ⟨a, named, same⟩ := Eni.declare_spec declared
    have tidy : eni.Tidy s.config.table := by
      rw [same, ← lawful.kept.table]
      exact Eni.ofAttributes_tidy a s.ctx.dpus s.ctx.table
    have named : eni.attributes.key = key := same ▸ named
    have new : Rule.New eni.rules := same ▸ Eni.ofAttributes_new a s.ctx.dpus s.ctx.table
    obtain ⟨fired, c, fails, ⟨undone, c', undoes, rfl⟩ | ⟨e', left, c', stuck, rfl⟩⟩ :=
      create_fails failed
    · refine ⟨fun _ => restored_of_takeDown lawful lawful' tidy new fails undoes, ?_⟩
      exact fun eni there => by cases absent.symm.trans there
    · have there : (keep key left { s with ctx := c' }).enis.get? key = some left :=
        SortedMap.get?_insert_self _ _ _
      refine ⟨fun gone => (by cases there.symm.trans gone), fun eni' found => ?_⟩
      cases there.symm.trans found
      exact leftBehind_of_destroy lawful' tidy named declared fails stuck

section sample

def secondAttempt (faults : Faults) : List Request :=
  [.set neighborEni [("vdpu_ids", "2,3"), ("primary_vdpu", "3")],
    .surroundings sampleInventory faults false false]

def oneWrite : Faults := Faults.none.plan .setRule (.window 1 none "lost")

def oneWriteNoRemoval : Faults := oneWrite.plan .removeTunnel (.window 0 none "stuck")

def firstDeclaration : Fields := [("vdpu_ids", "2,3"), ("primary_vdpu", "2")]

/-- Of two rules that share a new tunnel next hop only one can be written. It is deleted again and
the tunnel next hop removed, unless that is refused too. -/
theorem sample_failed_creation_rolled_back :
    (∃ e s s', Visits (fresh {} sampleInventory) (secondAttempt oneWrite) s ∧
      set sampleEni firstDeclaration s = (.error e, s') ∧
      s.ctx.tunnelsCreated ≠ s'.ctx.tunnelsCreated ∧ Restored s s') ∧
    ∃ e s s' eni, Visits (fresh {} sampleInventory) (secondAttempt oneWriteNoRemoval) s ∧
      set sampleEni firstDeclaration s = (.error e, s') ∧ s'.enis.get? sampleEni = some eni ∧
      LeftBehind sampleEni firstDeclaration s s' eni := by
  have rolled : ∀ {faults : Faults} {s : Reconciler},
      Visits (fresh {} sampleInventory) (secondAttempt faults) s → s.initialized = true →
      s.enis.get? sampleEni = none → (set sampleEni firstDeclaration s).1.isOk = false →
      ∃ e s', set sampleEni firstDeclaration s = (.error e, s') ∧
        (s'.enis.get? sampleEni = none → Restored s s') ∧
        ∀ eni, s'.enis.get? sampleEni = some eni →
          LeftBehind sampleEni firstDeclaration s s' eni := by
    intro faults s visits ready absent fails
    generalize run : set sampleEni firstDeclaration s = outcome at fails
    obtain ⟨e | _, s'⟩ := outcome
    · exact ⟨e, s', rfl, failed_creation_rolled_back {} sampleInventory (secondAttempt faults) s
        visits ready sampleEni absent firstDeclaration e s' run⟩
    · cases fails
  have facts :
      let s := (fresh {} sampleInventory).run (secondAttempt oneWrite)
      let after := set sampleEni firstDeclaration s
      s.initialized = true ∧ s.enis.get? sampleEni = none ∧ after.1.isOk = false ∧
        after.2.enis.get? sampleEni = none ∧ s.ctx.tunnelsCreated ≠ after.2.ctx.tunnelsCreated := by
    decide +kernel
  have facts' :
      let s := (fresh {} sampleInventory).run (secondAttempt oneWriteNoRemoval)
      let after := set sampleEni firstDeclaration s
      s.initialized = true ∧ s.enis.get? sampleEni = none ∧ after.1.isOk = false ∧
        (after.2.enis.get? sampleEni).isSome = true := by
    decide +kernel
  have visits : Visits (fresh {} sampleInventory) (secondAttempt oneWrite)
    ((fresh {} sampleInventory).run (secondAttempt oneWrite)) := .inl rfl
  have visits' : Visits (fresh {} sampleInventory) (secondAttempt oneWriteNoRemoval)
    ((fresh {} sampleInventory).run (secondAttempt oneWriteNoRemoval)) := .inl rfl
  generalize (fresh {} sampleInventory).run (secondAttempt oneWrite) = s at facts visits
  generalize (fresh {} sampleInventory).run (secondAttempt oneWriteNoRemoval) = t at facts' visits'
  dsimp only at facts facts'
  obtain ⟨ready, absent, fails, gone, created⟩ := facts
  obtain ⟨ready', absent', fails', stays⟩ := facts'
  obtain ⟨e, s', run, restored, -⟩ := rolled visits ready absent fails
  obtain ⟨e', t', run', -, left⟩ := rolled visits' ready' absent' fails'
  rw [run] at gone created
  rw [run'] at stays
  obtain ⟨eni, there⟩ := Option.isSome_iff_exists.1 stays
  exact ⟨⟨e, s, s', visits, run, created, restored gone⟩, e', t, t', eni, visits', run', there,
    left eni there⟩

end sample

end Reconciler

end EniForwarding
