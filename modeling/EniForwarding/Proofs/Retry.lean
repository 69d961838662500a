import EniForwarding.Proofs.Attempts

/-! Trying again until it works comes to the same as working at once.

Whichever calls fail on the way, the end is told by the state in which the first attempt was
made. One attempt without a failure is a way to be done as well, and where something is done
in the end it succeeds; so the two come to the same.
-/

set_option autoImplicit false

namespace EniForwarding

namespace Reconciler

section ends

variable {s s' s'' : Reconciler} {key : EniKey} {eni : Eni} {fields : Fields} {deed : Deed}

theorem Agree.of_same (first : Agree s s') (second : Agree s s'') : Agree s' s'' :=
  ⟨second.enis.trans first.enis.symm, second.hosted.trans first.hosted.symm,
    second.outlook.trans first.outlook.symm,
    fun hop => (second.users hop).trans (first.users hop).symm⟩

/-- Wherever calls fail on the way, in the end the same ENIs are there with the same rules. -/
theorem Persists.agree (first : Persists deed.act s s') (second : Persists deed.act s s'')
    (lawful : s.Lawful) (ready : s.initialized = true) : Agree s' s'' := by
  cases deed with
  | delete key =>
    cases there : s.enis.get? key with
    | none =>
      have idle : ∀ t, Alike s t → ∃ t', delete key t = (.ok (), t') ∧ Alike t t' :=
        fun t alike => ⟨t, run_delete_unknown (by rw [alike.enis, there]), refl t⟩
      exact (first.of_idle idle).toAgree.of_same (second.of_idle idle).toAgree
    | some eni =>
      obtain ⟨enis, hosted, outlook, users⟩ := first.deletion there
      obtain ⟨enis', hosted', outlook', users'⟩ := second.deletion there
      exact ⟨enis'.trans enis.symm, hosted'.trans hosted.symm, outlook'.trans outlook.symm,
        fun hop => (users' hop).trans (users hop).symm⟩
  | set key fields =>
    cases there : s.enis.get? key with
    | some eni =>
      obtain ⟨primary, required⟩ := first.required ready there
      by_cases same : primary = eni.attributes.primary ∧ eni.needsRefire = false
      · exact (first.skips ready there required same).toAgree.of_same
          (second.skips ready there required same).toAgree
      · obtain ⟨enis, hosted, pursuit⟩ := first.update lawful ready there required same
        obtain ⟨enis', hosted', pursuit'⟩ := second.update lawful ready there required same
        have bare : Rule.Bare eni.rules := (lawful.inOrder.enis key eni there).2.bare
        exact ⟨enis'.trans enis.symm, hosted'.trans hosted.symm,
          pursuit'.outlook.trans pursuit.outlook.symm, pursuit'.users_eq bare pursuit⟩
    | none =>
      obtain ⟨eni, declared⟩ := first.declared ready there
      obtain ⟨enis, hosted, pursuit⟩ := first.creation lawful ready there declared
      obtain ⟨enis', hosted', pursuit'⟩ := second.creation lawful ready there declared
      have bare : Rule.Bare eni.rules := by
        obtain ⟨a, -, rfl⟩ := Eni.declare_spec declared
        exact (Eni.ofAttributes_new _ _ _).bare
      exact ⟨enis'.trans enis.symm, hosted'.trans hosted.symm,
        pursuit'.outlook.trans pursuit.outlook.symm, pursuit'.users_eq bare pursuit⟩

section obliging

variable (obliging : s.ctx.Obliging)

include obliging

theorem update_succeeds {primary : UInt64} (kept : s.Kept) (ready : s.initialized = true)
    (there : s.enis.get? key = some eni)
    (required : orFail (fields.require UInt64 EniAttributes.primaryField) = .ok primary) :
    (set key fields).Succeeds s := by
  have sound : ∀ r ∈ eni.rules, r.Sound := kept.sound there
  have succeeds : (Eni.update fields (eni, s.ctx)).1 = .ok () := by
    rw [Eni.run_update, required]
    dsimp only
    split
    · rfl
    · obtain ⟨_, fires⟩ := Eni.fireAll_succeeds (eni.withPrimary primary) s.ctx obliging sound
      exact fires
  generalize updated : Eni.update fields (eni, s.ctx) = outcome at succeeds
  obtain ⟨result, eni', c⟩ := outcome
  cases succeeds
  obtain ⟨counter, run⟩ := run_set_known ready there updated
  exact .of_ok run

theorem create_succeeds (key : EniKey) (sound : ∀ r ∈ eni.rules, r.Sound) :
    (create key eni).Succeeds s := by
  obtain ⟨_, fires⟩ := Eni.fireAll_succeeds eni s.ctx obliging sound
  generalize fired : Eni.fireAll (eni, s.ctx) = outcome at fires
  obtain ⟨result, eni', c⟩ := outcome
  cases fires
  exact ⟨(), by simp only [create, fired]⟩

theorem delete_succeeds (key : EniKey) : (delete key).Succeeds s := by
  cases there : s.enis.get? key with
  | none => exact .of_ok (run_delete_unknown there)
  | some eni =>
    obtain ⟨_, destroys⟩ := Eni.destroy_succeeds eni s.ctx obliging
    generalize destroyed : Eni.destroy (eni, s.ctx) = outcome at destroys
    obtain ⟨result, eni', c⟩ := outcome
    cases destroys
    exact .of_ok (run_delete_known there destroyed)

end obliging

theorem Persists.at_once (persists : Persists deed.act s s') (lawful : s.Lawful)
    (ready : s.initialized = true) (vip : ∃ vip, s.ctx.outlook.vip? = .ok vip) :
    deed.act.Succeeds (s.beset .none false false) := by
  have lawful' := lawful.beset .none false false
  have obliging : (s.beset .none false false).ctx.Obliging :=
    ⟨⟨rfl, rfl, rfl⟩, lawful'.coherent.mirrored, vip⟩
  cases deed with
  | delete key => exact delete_succeeds obliging key
  | set key fields =>
    cases there : s.enis.get? key with
    | some eni =>
      obtain ⟨primary, required⟩ := persists.required ready there
      exact update_succeeds obliging lawful'.kept ready there required
    | none =>
      obtain ⟨eni, declared⟩ := persists.declared ready there
      have run : set key fields (s.beset .none false false) = _ := run_set_new ready there
      have tried := s.beset_alike .none false false
      rw [Eni.declare_eq tried.outlook tried.table, declared] at run
      obtain ⟨a, -, rfl⟩ := Eni.declare_spec declared
      obtain ⟨_, succeeds⟩ := create_succeeds obliging key (Eni.ofAttributes_tidy a _ _).sound
      exact ⟨(), (congrArg Prod.fst run).trans succeeds⟩

/-- An entry that is followed in the end asks for a deed, which is done in the end. -/
theorem Persists.of_follow {entry : Entry} (persists : Persists (follow entry) s s') :
    ∃ deed, Deed.ofEntry s.config.separator entry = .ok deed ∧ Persists deed.act s s' := by
  cases read : Deed.ofEntry s.config.separator entry with
  | error e =>
    refine absurd (fun t alike => ⟨e, t, ?_, refl t⟩) persists.not_stuck
    rw [run_follow, alike.config, read]
  | ok deed =>
    refine ⟨deed, rfl, ?_⟩
    have attempt : ∀ {s : Reconciler} (faults : Faults) (acl tunnels : Bool),
        Deed.ofEntry s.config.separator entry = .ok deed →
        follow entry (s.beset faults acl tunnels) = deed.act (s.beset faults acl tunnels) := by
      intro s faults acl tunnels read
      have same : (s.beset faults acl tunnels).config = s.config := rfl
      rw [run_follow, same, read]
    induction persists with
    | done faults acl tunnels succeeds =>
      exact .done faults acl tunnels ((attempt faults acl tunnels read).symm.trans succeeds)
    | @again s s₁ s₂ s' e faults acl tunnels fails beside later ih =>
      rw [attempt faults acl tunnels read] at fails
      have rests : Rests (s.beset faults acl tunnels) s₁ := by
        have rests := (act_rests deed (s.beset faults acl tunnels)).1
        rwa [fails] at rests
      exact .again faults acl tunnels fails beside
        (ih (by rw [beside.config, rests.config]; exact read))

end ends

/-- In every state that a run reaches once it is prepared, with a VIP that can be read: whatever
calls fail while an entry is tried again and again, the attempt that succeeds leaves the ENIs,
the DPUs that host them, the rules of the switch and the tunnel next hops with their counts as
one attempt leaves them if no call fails. -/
theorem retries_converge (config : Config) (inventory : Inventory) (requests : List Request)
    (entry : Entry) :
    let s := (fresh config inventory).run requests
    s.initialized = true → (∃ vip, s.ctx.outlook.vip? = .ok vip) →
    ∀ s', Persists (follow entry) s s' →
      let once := follow entry (s.beset .none false false)
      once.1 = .ok () ∧ s'.enis = once.2.enis ∧ s'.hosted = once.2.hosted ∧
      s'.ctx.env.switch.rules = once.2.ctx.env.switch.rules ∧
      (∀ hop, s'.ctx.tunnels.refs? hop = once.2.ctx.tunnels.refs? hop) ∧
      ∀ name, s'.ctx.env.switch.tunnels.contains name =
        once.2.ctx.env.switch.tunnels.contains name := by
  intro s ready vip s' persists once
  have lawful : s.Lawful := run_lawful config inventory requests
  obtain ⟨deed, read, persists⟩ := persists.of_follow
  obtain ⟨_, succeeds⟩ := persists.at_once lawful ready vip
  have run : once = deed.act (s.beset .none false false) := by
    have same : (s.beset .none false false).config = s.config := rfl
    show follow entry (s.beset .none false false) = _
    rw [run_follow, same, read]
  rw [← run] at succeeds
  -- the attempt without a failure is one more way to be done
  have direct : Persists deed.act s once.2 := .done .none false false (run ▸ Prod.ext succeeds rfl)
  obtain ⟨lawful', config'⟩ := persists.lawful lawful
  obtain ⟨lawful'', config''⟩ := direct.lawful lawful
  have agree := direct.agree persists lawful ready
  have refs : ∀ hop, s'.ctx.tunnels.refs? hop = once.2.ctx.tunnels.refs? hop := fun hop =>
    Context.refs?_eq lawful''.used lawful'.used (agree.users hop)
  refine ⟨succeeds, agree.enis, agree.hosted, ?_, refs, lawful''.tunnels_eq lawful' refs⟩
  exact lawful''.rules_eq lawful' agree.enis (config'.trans config''.symm)
    (congrArg Outlook.vip? agree.outlook)

theorem Persists.twice {x : Step Unit} {s : Reconciler} {faults : Faults} {acl tunnels : Bool}
    (fails : (x (s.beset faults acl tunnels)).1.isOk = false)
    (succeeds : (x ((x (s.beset faults acl tunnels)).2.beset .none false false)).1.isOk = true) :
    Persists x s (x ((x (s.beset faults acl tunnels)).2.beset .none false false)).2 := by
  generalize first : x (s.beset faults acl tunnels) = outcome at fails succeeds ⊢
  obtain ⟨e | _, s₁⟩ := outcome
  · generalize second : x (s₁.beset .none false false) = outcome at succeeds ⊢
    obtain ⟨e | _, s₂⟩ := outcome
    · cases succeeds
    · exact .again faults acl tunnels first (beside_backlog s₁ s₁.backlog)
        (.done .none false false second)
  · cases fails

def sampleMove : Entry := ⟨"Vnet_1000:aa:bb:cc:dd:ee:ff", .set, [("primary_vdpu", "3")]⟩

def sampleDeclared : List Request :=
  [.set sampleEni [("vdpu_ids", "2,3"), ("primary_vdpu", "2")]]

def lostCreation : Faults := Faults.none.plan .createTunnel (.window 0 (some 1) "lost")

/-- The first attempt to move the sample loses one call that creates a tunnel next hop, so that only
one of its rules is moved. After the second both are, and both use the new tunnel next hop. -/
theorem sampleMove_made_up :
    let s := (fresh {} sampleInventory).run sampleDeclared
    s.initialized = true ∧ (∃ vip, s.ctx.outlook.vip? = .ok vip) ∧
    (follow sampleMove (s.beset lostCreation false false)).1.isOk = false ∧
    ∃ s', Persists (follow sampleMove) s s' ∧
      s'.enis = (follow sampleMove (s.beset .none false false)).2.enis ∧
      s'.ctx.tunnels.refs? ⟨.v4 ⟨20, 0, 0, 3⟩, "mock_tunnel"⟩ = some 2 ∧
      s'.ctx.env.switch.tunnels.contains "20.0.0.2@mock_tunnel" = false := by
  have ready : ((fresh {} sampleInventory).run sampleDeclared).initialized = true := by
    decide +kernel
  have vip : ∃ vip, ((fresh {} sampleInventory).run sampleDeclared).ctx.outlook.vip? = .ok vip :=
    ⟨⟨.v4 ⟨10, 2, 0, 1⟩, 32, by decide⟩, by decide +kernel⟩
  have converge := retries_converge {} sampleInventory sampleDeclared sampleMove ready vip
  have fails : (follow sampleMove (((fresh {} sampleInventory).run sampleDeclared).beset
      lostCreation false false)).1.isOk = false := by decide +kernel
  have persists := Persists.twice fails (by decide +kernel)
  have counted : (follow sampleMove (((fresh {} sampleInventory).run sampleDeclared).beset
      .none false false)).2.ctx.tunnels.refs? ⟨.v4 ⟨20, 0, 0, 3⟩, "mock_tunnel"⟩ = some 2 := by
    decide +kernel
  have gone : (follow sampleMove (((fresh {} sampleInventory).run sampleDeclared).beset
      .none false false)).2.ctx.env.switch.tunnels.contains "20.0.0.2@mock_tunnel" = false := by
    decide +kernel
  generalize (fresh {} sampleInventory).run sampleDeclared = s at *
  obtain ⟨-, enis, -, -, refs, tunnels⟩ := converge _ persists
  exact ⟨ready, vip, fails, _, persists, enis, (refs _).trans counted, (tunnels _).trans gone⟩

end Reconciler

end EniForwarding
