import EniForwarding.Proofs.Rule.Aim

/-! Firing a rule gets it where it aims, or fails on the way.

However far the firing of a rule gets, the rule aims at the same place afterwards, so it
can be fired again and ends where it would have ended. On its way a rule gives back
tunnel next hops that do not lead to its target and takes hold of one that does, so each
tunnel next hop only loses or only gains users. Destroying a rule gives back what it holds.
-/

set_option autoImplicit false

namespace EniForwarding

namespace Action

theorem Leads.onSecond {ρ τ α : Type} {R : τ → τ → Prop} {S : ρ × τ → ρ × τ → Prop}
    {x : Action τ α} {r : ρ} {t : τ} {after : α → τ → Prop} (leads : x.Leads R t after)
    (lift : ∀ t', R t t' → S (r, t) (r, t')) :
    (Action.onSecond x : Action (ρ × τ) α).Leads S (r, t) fun a p => p.1 = r ∧ R t p.2 ∧ after a p.2 :=
  ⟨lift _ leads.1, fun a success => ⟨rfl, leads.1, leads.2 a success⟩⟩

end Action

namespace Context

/-- Users of a tunnel next hop are gained with those that are counted apart from them. -/
def Rises (hop : TunnelHop) (n : Nat) (c : Context) (n' : Nat) (c' : Context) : Prop :=
  n ≤ n' ∧ c'.users hop = min (c.users hop + (n' - n)) (UInt32.size - 1)

/-- Users of a tunnel next hop are lost with those that are counted apart from them. -/
def Falls (hop : TunnelHop) (n : Nat) (c : Context) (n' : Nat) (c' : Context) : Prop :=
  n' ≤ n ∧ c'.users hop = c.users hop - (n - n')

section counts

variable {hop : TunnelHop} {n n' n'' : Nat} {c c' c'' : Context}

theorem Rises.of_eq (same : c'.users hop = c.users hop) : Rises hop n c n c' := by
  have bound := c.users_le hop
  exact ⟨Nat.le_refl n, by omega⟩

theorem Rises.trans (first : Rises hop n c n' c') (second : Rises hop n' c' n'' c'') :
    Rises hop n c n'' c'' := by
  unfold Rises at *
  omega

theorem Rises.add {m m' : Nat} (first : Rises hop n c n' c') (second : Rises hop m c' m' c'') :
    Rises hop (m + n) c (m' + n') c'' := by
  unfold Rises at *
  omega

theorem Falls.of_eq (same : c'.users hop = c.users hop) : Falls hop n c n c' :=
  ⟨Nat.le_refl n, by omega⟩

theorem Falls.trans (first : Falls hop n c n' c') (second : Falls hop n' c' n'' c'') :
    Falls hop n c n'' c'' := by
  unfold Falls at *
  omega

theorem Falls.add {m m' : Nat} (first : Falls hop n c n' c') (second : Falls hop m c' m' c'') :
    Falls hop (m + n) c (m' + n') c'' := by
  unfold Falls at *
  omega

end counts

end Context

namespace NextHop

/-- A next hop is resolved into what can be found out about it, unless a tunnel next hop that
it needs is refused; that is the only thing it takes hold of. -/
theorem resolve_outcome (h : NextHop) (c : Context) :
    (∃ e c', h.resolve c = (.error e, c') ∧ c.Still c') ∨
      ∃ c', h.resolve c = (.ok (h.settled c.outlook), c') ∧
        (c.Still c' ∧ (h.settled c.outlook).hop? = h.hop? ∨
          ∃ hop, h.hop? = none ∧ (h.settled c.outlook).hop? = some hop ∧ Context.Gains hop c c') := by
  rcases h with ⟨ip, resolved⟩ | ⟨ip, vnet, _ | tunnel⟩
  · obtain ⟨still, described⟩ := Context.steadily_reach ip c
    simp only [resolve, Action.run_bind]
    generalize reach ip c = outcome at still described
    obtain ⟨result, c'⟩ := outcome
    cases result with
    | error e => exact .inl ⟨e, c', rfl, still⟩
    | ok found =>
      have answer : found = c.outlook.reaches ip := described found rfl
      exact .inr ⟨c', by rw [answer]; rfl, .inl ⟨still, rfl⟩⟩
  · simp only [resolve, Action.run_bind, Action.run_get]
    have asked : (tunnelled ip vnet none).settled c.outlook =
        .tunnelled ip vnet (c.env.inventory.tunnel? vnet) := rfl
    rw [asked]
    cases c.env.inventory.tunnel? vnet with
    | none => exact .inr ⟨c, rfl, .inl ⟨refl c, rfl⟩⟩
    | some tunnel =>
      simp only [Action.run_bind]
      rcases c.acquire_gains ⟨ip, tunnel⟩ with ⟨handle, c', run, gains⟩ | ⟨e, c', run, still⟩
      · exact .inr ⟨c', by rw [run]; rfl, .inr ⟨⟨ip, tunnel⟩, rfl, rfl, gains⟩⟩
      · exact .inl ⟨e, c', by rw [run], still⟩
  · exact .inr ⟨c, rfl, .inl ⟨refl c, rfl⟩⟩

/-- A next hop is given back unless the removal of its tunnel next hop is refused. -/
theorem release_outcome (h : NextHop) (c : Context) :
    (∃ e c', h.release c = (.error e, c') ∧ c.Still c' ∧ h.hop?.isSome = true) ∨
      ∃ h' c', h.release c = (.ok h', c') ∧
        (c.Still c' ∧ h.hop? = none ∨ ∃ hop, h.hop? = some hop ∧ Context.Loses hop c c') := by
  rcases h with ⟨ip, resolved⟩ | ⟨ip, vnet, _ | tunnel⟩
  · exact .inr ⟨_, c, rfl, .inl ⟨refl c, rfl⟩⟩
  · exact .inr ⟨_, c, rfl, .inl ⟨refl c, rfl⟩⟩
  · simp only [release, Action.run_bind]
    rcases c.release_loses ⟨ip, tunnel⟩ with ⟨c', run, loses⟩ | ⟨e, c', run, still⟩
    · exact .inr ⟨_, c', by rw [run]; rfl, .inr ⟨_, rfl, loses⟩⟩
    · exact .inl ⟨e, c', by rw [run], still, rfl⟩

end NextHop

namespace Rule

def holds (r : Rule) (hop : TunnelHop) : Nat := if r.hop? = some hop then 1 else 0

/-- The rule waits for a neighbor only where it should lead to. -/
def Waits (a : EniAttributes) (dpus : Dpus) (r : Rule) : Prop :=
  r.state = .pending → ∀ ip known, r.nextHop = some (.direct ip known) →
    target r.role a dpus = .ok ⟨.onSwitch, ip⟩

section shedding

variable {r r' : Rule} {c c' : Context}

theorem uninstall_outcome (category : Audit.Category) (r : Rule) (c : Context) :
    (∃ e c', uninstall category (r, c) = (.error e, r, c') ∧ c.Still c') ∨
      ∃ c', uninstall category (r, c) = (.ok (), { r with state := .uninstalled }, c') ∧
        c.Still c' := by
  rcases uninstall_cases category r c with ⟨message, e, record, lost⟩ | ⟨switch, done, carried⟩
  · exact .inl ⟨e, _, lost, c.still_refusal _ message _⟩
  · exact .inr ⟨_, carried, .of_accepted c done rfl rfl rfl, rfl⟩

theorem dropNextHop_outcome (r : Rule) (c : Context) :
    (∃ e c', dropNextHop (r, c) = (.error e, r, c') ∧ c.Still c' ∧ r.hop?.isSome = true) ∨
      ∃ c', dropNextHop (r, c) = (.ok (), { r with nextHop := none }, c') ∧
        (c.Still c' ∧ r.hop? = none ∨ ∃ hop, r.hop? = some hop ∧ Context.Loses hop c c') := by
  cases leads : r.nextHop with
  | none =>
    have same : ({ r with nextHop := none } : Rule) = r := by rw [← leads]
    exact .inr ⟨c, by rw [same, dropNextHop_of_none leads], .inl ⟨refl c, by simp [hop?, leads]⟩⟩
  | some hop =>
    have held : r.hop? = hop.hop? := by simp [hop?, leads]
    rw [run_dropNextHop leads, held]
    rcases hop.release_outcome c with ⟨e, c', failed, still, holds⟩ | ⟨hop', c', done, outcome⟩
    · exact .inl ⟨e, c', by rw [failed], still, holds⟩
    · exact .inr ⟨c', by rw [done], outcome⟩

/-- Something of the rule is taken down; it still fits its place and waits where it should, if
it did. -/
structure Sheds (p p' : Rule × Context) : Prop where
  steady : p.2.Steady p'.2
  named : p'.1.key = p.1.key ∧ p'.1.role = p.1.role
  falls : ∀ hop, Context.Falls hop (p.1.holds hop) p.2 (p'.1.holds hop) p'.2
  fit : ∀ a, p.1.Fit p.2.outlook a → p'.1.Fit p.2.outlook a
  waits : ∀ a dpus, p.1.Waits a dpus → p'.1.Waits a dpus

theorem Sheds.of_still (still : c.Still c') (named : r'.key = r.key ∧ r'.role = r.role)
    (held : r'.hop? = r.hop?) (fit : ∀ a, r.Fit c.outlook a → r'.Fit c.outlook a)
    (waits : ∀ a dpus, r.Waits a dpus → r'.Waits a dpus) : Sheds (r, c) (r', c') where
  steady := still.toSteady
  named := named
  falls hop := by
    simp only [holds, held]
    exact .of_eq (still.users hop)
  fit := fit
  waits := waits

theorem Sheds.same (still : c.Still c') : Sheds (r, c) (r, c') :=
  .of_still still ⟨rfl, rfl⟩ rfl (fun _ => id) fun _ _ => id

instance : IsTrans (Rule × Context) Sheds := by
  constructor
  rintro ⟨r, c⟩ ⟨r', c'⟩ ⟨r'', c''⟩ first second
  have outlook : c'.outlook = c.outlook := first.steady.outlook
  refine ⟨IsTrans.trans _ _ _ first.steady second.steady, ?_, fun hop => ?_, fun a fits => ?_,
    fun a dpus => second.waits a dpus ∘ first.waits a dpus⟩
  · exact ⟨second.named.1.trans first.named.1, second.named.2.trans first.named.2⟩
  · exact (first.falls hop).trans (second.falls hop)
  · have again := second.fit a
    simp only [outlook] at again
    exact again (first.fit a fits)

theorem dropNextHop_sheds (r : Rule) (c : Context) :
    dropNextHop.Leads Sheds (r, c) fun _ p => p.1.nextHop = none := by
  rcases dropNextHop_outcome r c with ⟨e, c', run, still, -⟩ | ⟨c', run, outcome⟩
  · exact .of_error run (.same still)
  · refine .of_ok run ?_ rfl
    have waits : ∀ a dpus, ({ r with nextHop := none } : Rule).Waits a dpus :=
      fun _ _ _ _ _ leads => by cases leads
    rcases outcome with ⟨still, free⟩ | ⟨tunnel, held, loses⟩
    · exact .of_still still ⟨rfl, rfl⟩ free.symm (fun _ fit => fit.dropped) fun a dpus _ => waits a dpus
    · refine ⟨loses.toSteady, ⟨rfl, rfl⟩, fun hop => ?_, fun _ fit => fit.dropped,
        fun a dpus _ => waits a dpus⟩
      have bare : ({ r with nextHop := none } : Rule).holds hop = 0 := rfl
      have one : r.holds hop = if tunnel = hop then 1 else 0 := by simp [holds, held]
      rw [bare, one]
      split
      next same => exact same ▸ ⟨Nat.zero_le 1, loses.here⟩
      next apart => exact .of_eq (loses.others hop (Ne.symm apart))

theorem destroy_sheds (r : Rule) (c : Context) :
    destroy.Leads Sheds (r, c) fun _ p => p.1.nextHop = none := by
  refine .get_bind ?_
  dsimp only
  by_cases on : r.state = .installed
  · simp only [on, if_true]
    have uninstalls : (uninstall .resourceDelete).Leads Sheds (r, c) fun _ _ => True := by
      rcases uninstall_outcome .resourceDelete r c with ⟨e, c', run, still⟩ | ⟨c', run, still⟩
      · exact .of_error run (.same still)
      · have waits : ∀ a dpus, ({ r with state := .uninstalled } : Rule).Waits a dpus :=
          fun _ _ waiting => by cases waiting
        exact .of_ok run (.of_still still ⟨rfl, rfl⟩ rfl (fun _ fit => fit.uninstalled on)
          fun a dpus _ => waits a dpus) trivial
    exact .bind uninstalls fun _ p _ => dropNextHop_sheds p.1 p.2
  · simp only [on, if_false]
    exact dropNextHop_sheds r c

end shedding

def Heads (t : Target) (r : Rule) : Prop := ∀ hop, r.nextHop = some hop → hop.LeadsTo t

/-- The rule is on its way to where it aims, with these attributes of its ENI. -/
structure Pursues (a : EniAttributes) (p p' : Rule × Context) : Prop where
  steady : p.2.Steady p'.2
  named : p'.1.key = p.1.key ∧ p'.1.role = p.1.role
  aim : p'.1.aim p.2.outlook a = p.1.aim p.2.outlook a
  heads : ∀ t, target p.1.role a p.2.dpus = .ok t → p.1.Heads t → p'.1.Heads t
  rises : ∀ hop : TunnelHop, target p.1.role a p.2.dpus = .ok ⟨.inCluster, hop.ip⟩ →
    Context.Rises hop (p.1.holds hop) p.2 (p'.1.holds hop) p'.2
  falls : ∀ hop : TunnelHop, target p.1.role a p.2.dpus ≠ .ok ⟨.inCluster, hop.ip⟩ →
    Context.Falls hop (p.1.holds hop) p.2 (p'.1.holds hop) p'.2

variable {a : EniAttributes} {r r' : Rule} {c c' : Context} {t : Target}

theorem Pursues.of_still (still : c.Still c') (named : r'.key = r.key ∧ r'.role = r.role)
    (aim : r'.aim c.outlook a = r.aim c.outlook a)
    (heads : ∀ t, target r.role a c.dpus = .ok t → r.Heads t → r'.Heads t)
    (held : r'.hop? = r.hop?) : Pursues a (r, c) (r', c') where
  steady := still.toSteady
  named := named
  aim := aim
  heads := heads
  rises hop _ := by
    simp only [holds, held]
    exact .of_eq (still.users hop)
  falls hop _ := by
    simp only [holds, held]
    exact .of_eq (still.users hop)

instance : Std.Refl (Pursues a) :=
  ⟨fun (_, c) => .of_still (refl c) ⟨rfl, rfl⟩ rfl (fun _ _ => id) rfl⟩

instance : IsTrans (Rule × Context) (Pursues a) := by
  constructor
  rintro ⟨r, c⟩ ⟨r', c'⟩ ⟨r'', c''⟩ first second
  have outlook : c'.outlook = c.outlook := first.steady.outlook
  have dpus : c'.dpus = c.dpus := congrArg Outlook.dpus outlook
  have role : r'.role = r.role := first.named.2
  constructor
  · exact IsTrans.trans _ _ _ first.steady second.steady
  · exact ⟨second.named.1.trans first.named.1, second.named.2.trans role⟩
  · have aims := second.aim
    simp only [outlook] at aims
    exact aims.trans first.aim
  · intro t aimed heads
    exact second.heads t (by simpa only [dpus, role] using aimed) (first.heads t aimed heads)
  · intro hop aimed
    exact (first.rises hop aimed).trans (second.rises hop (by simpa only [dpus, role] using aimed))
  · intro hop elsewhere
    exact (first.falls hop elsewhere).trans
      (second.falls hop (by simpa only [dpus, role] using elsewhere))

theorem Pursues.target_eq {p p' : Rule × Context} (pursues : Pursues a p p') :
    target p'.1.role a p'.2.dpus = target p.1.role a p.2.dpus := by
  have dpus : p'.2.dpus = p.2.dpus := congrArg Outlook.dpus pursues.steady.outlook
  rw [pursues.named.2, dpus]

abbrev Arrives (a : EniAttributes) (x : Step Unit) (p : Rule × Context) : Prop :=
  x.Leads (Pursues a) p fun _ p' => p'.1 = p.1.aim p.2.outlook a

theorem Arrives.after {x : Step Unit} {f : Unit → Step Unit} {p : Rule × Context}
    {after : Unit → Rule × Context → Prop} (first : x.Leads (Pursues a) p after)
    (second : ∀ p', Pursues a p p' → after () p' → Arrives a (f ()) p') : Arrives a (x >>= f) p := by
  refine .bind_from first fun _ p' pursues described => ?_
  apply (second p' pursues described).weaken
  intro _ p'' arrived
  have outlook : p'.2.outlook = p.2.outlook := pursues.steady.outlook
  rw [arrived, outlook, pursues.aim]

theorem onSecond_pursues {α : Type} {x : Action Context α} {after : α → Context → Prop}
    (steadily : Context.Steadily x c after) :
    (Action.onSecond x : Step α).Leads (Pursues a) (r, c) fun v p =>
      p.1 = r ∧ c.Still p.2 ∧ after v p.2 :=
  steadily.onSecond fun _ still => .of_still still ⟨rfl, rfl⟩ rfl (fun _ _ => id) rfl

theorem update_pursues (state : RuleState)
    (same : ({ r with state := state } : Rule).aim c.outlook a = r.aim c.outlook a) :
    (update fun r => { r with state := state } : Step Unit).Leads (Pursues a) (r, c) fun _ p =>
      p.1 = { r with state := state } :=
  .modify (.of_still (refl c) ⟨rfl, rfl⟩ same (fun _ _ => id) rfl) rfl

theorem uninstall_pursues (category : Audit.Category)
    (same : ({ r with state := .uninstalled } : Rule).aim c.outlook a = r.aim c.outlook a) :
    (uninstall category).Leads (Pursues a) (r, c) fun _ p => p.1 = { r with state := .uninstalled } := by
  rcases uninstall_outcome category r c with ⟨e, c', run, still⟩ | ⟨c', run, still⟩
  · exact .of_error run (.of_still still ⟨rfl, rfl⟩ rfl (fun _ _ => id) rfl)
  · exact .of_ok run (.of_still still ⟨rfl, rfl⟩ same (fun _ _ => id) rfl) rfl

theorem install_pursues (eni : EniAttributes) (change : Change) (redirect : String)
    (same : ({ r with state := .installed } : Rule).aim c.outlook a = r.aim c.outlook a) :
    (install eni change redirect).Leads (Pursues a) (r, c) fun _ p =>
      p.1 = { r with state := .installed } := by
  refine .bind (onSecond_pursues (Context.steadily_findVip c)) ?_
  rintro vip ⟨r, c₁⟩ ⟨rfl, still, -⟩
  refine .get_bind (.bind (onSecond_pursues
    (Context.steadily_auditFailure (Context.steadily_setRule _ _ c₁))) ?_)
  rintro - ⟨r, c₂⟩ ⟨rfl, still', -⟩
  refine .bind (onSecond_pursues (Context.steadily_audit _ c₂)) ?_
  rintro - ⟨r, c₃⟩ ⟨rfl, still'', -⟩
  apply update_pursues
  have outlook : c₃.outlook = c.outlook :=
    still''.outlook.trans (still'.outlook.trans still.outlook)
  rw [outlook, same]

section pursue

variable (aimed : target r.role a c.dpus = .ok t) (live : r.state ≠ .failed)

include aimed live

theorem dropNextHop_pursues (off : r.state ≠ .installed)
    (elsewhere : ∀ hop, r.nextHop = some hop → ¬ hop.LeadsTo t) :
    dropNextHop.Leads (Pursues a) (r, c) fun _ p => p.1 = { r with nextHop := none } := by
  have same : ({ r with nextHop := none } : Rule).aim c.outlook a = r.aim c.outlook a := by
    apply aim_with_nextHop (o := c.outlook) off live aimed
    rw [heading_of_elsewhere _ elsewhere, heading_of_elsewhere _ (by simp)]
  have bare : ∀ t, ({ r with nextHop := none } : Rule).Heads t := fun t hop leads => by cases leads
  rcases dropNextHop_outcome r c with ⟨e, c', run, still, -⟩ | ⟨c', run, outcome⟩
  · exact .of_error run (.of_still still ⟨rfl, rfl⟩ rfl (fun _ _ => id) rfl)
  · refine .of_ok run ?_ rfl
    rcases outcome with ⟨still, free⟩ | ⟨tunnel, held, loses⟩
    · exact .of_still still ⟨rfl, rfl⟩ same (fun t _ _ => bare t) free.symm
    · obtain ⟨hop, leads, holds⟩ := Option.bind_eq_some_iff.1 held
      have one : ∀ other, r.holds other = if tunnel = other then 1 else 0 := fun other => by
        simp [Rule.holds, held]
      refine ⟨loses.toSteady, ⟨rfl, rfl⟩, same, fun t _ _ => bare t, fun other aimed' => ?_,
        fun other _ => ?_⟩
      · -- the target is no end of the tunnel that is given back
        have apart : tunnel ≠ other := by
          rintro rfl
          have there := Except.ok.inj (aimed.symm.trans aimed')
          exact elsewhere hop leads ((NextHop.leadsTo_of_hop? t holds).2 there)
        rw [one, if_neg apart]
        exact .of_eq (loses.others other (Ne.symm apart))
      · rw [one]
        split
        next same => exact same ▸ ⟨Nat.zero_le 1, loses.here⟩
        next apart => exact .of_eq (loses.others other (Ne.symm apart))

theorem retarget_pursues (off : r.state ≠ .installed)
    (elsewhere : ∀ hop, r.nextHop = some hop → ¬ hop.LeadsTo t) :
    (retarget t a.key.vnet).Leads (Pursues a) (r, c) fun _ p =>
      p.1 = { r with nextHop := some (.toward t.placement t.address a.key.vnet) } := by
  refine .bind_from (dropNextHop_pursues aimed live off elsewhere) ?_
  rintro - ⟨r', c'⟩ pursues rfl
  refine .modify (.of_still (refl c') ⟨rfl, rfl⟩ ?_ ?_ ?_) rfl
  · have outlook : c'.outlook = c.outlook := pursues.steady.outlook
    rw [outlook]
    apply aim_with_nextHop (r := { r with nextHop := none }) (o := c.outlook) off live aimed
    rw [heading_of_leadsTo _ rfl (NextHop.toward_leadsTo t _), heading_of_elsewhere _ (by simp)]
  · rintro t' aimed' - hop leads
    cases leads
    rw [Except.ok.inj (aimed'.symm.trans (pursues.target_eq.trans aimed))]
    exact NextHop.toward_leadsTo t _
  · simp [hop?]

theorem resolve_pursues (off : r.state ≠ .installed) {hop : NextHop} (leads : r.nextHop = some hop)
    (onto : hop.LeadsTo t)
    (outcome : c.Still c' ∧ (hop.settled c.outlook).hop? = hop.hop? ∨
      ∃ tunnel, hop.hop? = none ∧ (hop.settled c.outlook).hop? = some tunnel ∧
        Context.Gains tunnel c c') :
    Pursues a (r, c) ({ r with nextHop := some (hop.settled c.outlook) }, c') := by
  have there := (NextHop.settled_leadsTo c.outlook hop t).2 onto
  have stays := NextHop.settled_settled c.outlook hop
  generalize settled : hop.settled c.outlook = hop' at *
  have same : ({ r with nextHop := some hop' } : Rule).aim c.outlook a = r.aim c.outlook a := by
    apply aim_with_nextHop (o := c.outlook) off live aimed
    rw [heading_of_leadsTo _ rfl there, heading_of_leadsTo _ leads onto, stays, settled]
  have heads : ∀ t, target r.role a c.dpus = .ok t → r.Heads t →
      ({ r with nextHop := some hop' } : Rule).Heads t := by
    rintro t' aimed' - _ leads'
    cases leads'
    rwa [Except.ok.inj (aimed'.symm.trans aimed)]
  rcases outcome with ⟨still, kept⟩ | ⟨tunnel, free, holds, gains⟩
  · exact .of_still still ⟨rfl, rfl⟩ same heads (by simp [hop?, leads, kept])
  · have held : ∀ other, r.holds other = 0 ∧
        ({ r with nextHop := some hop' } : Rule).holds other = if tunnel = other then 1 else 0 :=
      fun other => by simp [Rule.holds, hop?, leads, free, holds]
    refine ⟨gains.toSteady, ⟨rfl, rfl⟩, same, heads, fun other _ => ?_, fun other elsewhere => ?_⟩
    · rw [(held other).1, (held other).2]
      split
      next one => exact one ▸ ⟨Nat.zero_le 1, gains.here⟩
      next apart => exact .of_eq (gains.others other (Ne.symm apart))
    · -- what is taken hold of leads to the target
      have apart : tunnel ≠ other := by
        rintro rfl
        have target_eq := (NextHop.leadsTo_of_hop? t holds).1 there
        exact elsewhere (aimed.trans (by rw [target_eq]))
      rw [(held other).1, (held other).2, if_neg apart]
      exact .of_eq (gains.others other (Ne.symm apart))

theorem settle_arrives (change : Change) (off : r.state ≠ .installed) {hop : NextHop}
    (leads : r.nextHop = some hop) (onto : hop.LeadsTo t) : Arrives a (settle a change) (r, c) := by
  have run := run_settle a change leads c
  have aim := aim_of_off (o := c.outlook) off live aimed
  rw [heading_of_leadsTo _ leads onto] at aim
  rcases hop.resolve_outcome c with ⟨e, c', failed, still⟩ | ⟨c', found, outcome⟩
  · rw [failed] at run
    exact .of_error run (.of_still still ⟨rfl, rfl⟩ rfl (fun _ _ => id) rfl)
  · simp only [found] at run
    have pursues := resolve_pursues aimed live off leads onto outcome
    have outlook : c'.outlook = c.outlook := pursues.steady.outlook
    have same := pursues.aim
    generalize hop.settled c.outlook = hop' at *
    unfold Arrives Action.Leads
    rw [run]
    cases resolved : hop'.isResolved with
    | true =>
      have final : ({ r with nextHop := some hop', state := .installed } : Rule) = r.aim c.outlook a := by
        rw [aim, arrived, resolved]
        rfl
      have installs := install_pursues (a := a) (r := { r with nextHop := some hop' }) (c := c') a
        change hop'.target (by rw [outlook, final, aim_aim, same])
      exact ⟨IsTrans.trans _ _ _ pursues installs.1, fun v ok => (installs.2 v ok).trans final⟩
    | false =>
      have final : ({ r with nextHop := some hop', state := .pending } : Rule) = r.aim c.outlook a := by
        rw [aim, arrived, resolved]
        rfl
      have waits := update_pursues (a := a) (r := { r with nextHop := some hop' }) (c := c')
        .pending (by rw [outlook, final, aim_aim, same])
      exact ⟨IsTrans.trans _ _ _ pursues waits.1, fun v ok => (waits.2 v ok).trans final⟩

theorem renew_arrives (change : Change) (off : r.state ≠ .installed)
    (elsewhere : ∀ hop, r.nextHop = some hop → ¬ hop.LeadsTo t) :
    Arrives a (do retarget t a.key.vnet; settle a change) (r, c) := by
  refine .after (retarget_pursues aimed live off elsewhere) ?_
  rintro ⟨r', c'⟩ pursues rfl
  exact settle_arrives (pursues.target_eq.trans aimed) live change off rfl
    (NextHop.toward_leadsTo t a.key.vnet)

theorem pursue_arrives (sound : r.Sound) : Arrives a (pursue a t) (r, c) := by
  have aim := aim_of_target (o := c.outlook) live aimed
  refine .get_bind ?_
  dsimp only
  split
  next stands => exact .pure (by rw [aim, if_pos stands])
  next refresh =>
    obtain ⟨hop, leads, onto⟩ := leadsTo_of_refresh refresh
    exact settle_arrives aimed live .refresh (off_of_refresh sound refresh) leads onto
  next create =>
    have free := nextHop_of_create create
    exact renew_arrives aimed live .create (off_of_create sound create) (by simp [free])
  next move =>
    have elsewhere := elsewhere_of_move move
    by_cases on : r.state = .installed
    · simp only [on, if_true]
      refine Arrives.after (uninstall_pursues .resourceModify
        (aim_uninstalled (o := c.outlook) live aimed (by simp [move]))) ?_
      rintro ⟨r', c'⟩ pursues rfl
      exact renew_arrives (pursues.target_eq.trans aimed) (by simp) .move (by simp) elsewhere
    · simp only [on, if_false]
      exact renew_arrives aimed live .move on elsewhere

end pursue

/-- Fired, the rule gets where it aims, or is on its way there. -/
theorem fire_arrives (a : EniAttributes) (c : Context) (sound : r.Sound) : Arrives a (fire a) (r, c) := by
  refine .get_bind ?_
  dsimp only
  split
  next failed => exact .pure (aim_of_failed failed).symm
  next live =>
    split
    next t aimed => exact pursue_arrives aimed live sound
    next e invalid =>
      have aim := aim_of_invalid (o := c.outlook) live invalid
      split
      next waiting =>
        rw [if_pos waiting] at aim
        apply (update_pursues .failed (by rw [← aim, aim_aim])).weaken
        intro _ p final
        rw [final, aim]
      next resting => exact .pure (by rw [aim, if_neg resting])

theorem Heads.waits {dpus : Dpus} (heads : r.Heads t) (aimed : target r.role a dpus = .ok t) :
    r.Waits a dpus := by
  rintro - ip known leads
  obtain ⟨placed, address⟩ := heads _ leads
  rw [aimed]
  cases t
  cases placed
  cases address
  rfl

theorem Pursues.waits {p : Rule × Context} (pursues : Pursues a (r, c) p)
    (aimed : target r.role a c.dpus = .ok t) (heads : r.Heads t) : p.1.Waits a c.dpus := by
  have role : p.1.role = r.role := pursues.named.2
  exact (pursues.heads t aimed heads).waits (by rw [role, aimed])

/-- Only a rule that waits for no neighbor can be stopped on its way to a new next hop. -/
theorem renew_waits (aimed : target r.role a c.dpus = .ok t) (live : r.state ≠ .failed)
    (change : Change) (off : r.state ≠ .installed) :
    Waits a c.dpus ((do retarget t a.key.vnet; settle a change : Step Unit) (r, c)).2.1 := by
  rcases dropNextHop_outcome r c with ⟨e, c', run, -, held⟩ | ⟨c', run, outcome⟩
  · have stopped : (do retarget t a.key.vnet; settle a change : Step Unit) (r, c) =
        (.error e, r, c') := by
      simp only [retarget, Action.run_bind, run]
    rw [stopped]
    intro _ ip known leads
    have leads : r.nextHop = some (.direct ip known) := leads
    simp [hop?, leads, NextHop.hop?] at held
  · -- from here on it is as if the rule had had no next hop
    let bare : Rule := { r with nextHop := none }
    have goesOn : (do retarget t a.key.vnet; settle a change : Step Unit) (r, c) =
        (do retarget t a.key.vnet; settle a change : Step Unit) (bare, c') := by
      simp only [retarget, Action.run_bind, run, dropNextHop_of_none (r := bare) rfl c', bare]
    have steady : c.Steady c' := by
      rcases outcome with ⟨still, -⟩ | ⟨hop, -, loses⟩
      · exact still.toSteady
      · exact loses.toSteady
    have dpus : c'.dpus = c.dpus := congrArg Outlook.dpus steady.outlook
    have aimed' : target bare.role a c'.dpus = .ok t := by rw [dpus]; exact aimed
    have pursues := (renew_arrives aimed' live change off (by simp [bare])).1
    have waits := pursues.waits aimed' fun hop leads => by cases leads
    rw [goesOn]
    rwa [dpus] at waits

theorem pursue_waits (aimed : target r.role a c.dpus = .ok t) (live : r.state ≠ .failed)
    (sound : r.Sound) : Waits a c.dpus (pursue a t (r, c)).2.1 := by
  have arrives := pursue_arrives aimed live sound
  cases move : r.change t with
  | none =>
    have stands : pursue a t (r, c) = (.ok (), r, c) := by
      simp only [pursue, Action.run_bind, Action.run_get, move]
      rfl
    obtain ⟨-, -, -, -, on⟩ := change_eq_none_iff.1 move
    rw [stands]
    exact fun waiting => by simp [on] at waiting
  | refresh =>
    obtain ⟨hop, leads, onto⟩ := leadsTo_of_refresh move
    refine arrives.1.waits aimed fun hop' leads' => ?_
    rw [leads] at leads'
    cases leads'
    exact onto
  | create =>
    refine arrives.1.waits aimed fun hop leads => ?_
    simp [nextHop_of_create move] at leads
  | move =>
    by_cases on : r.state = .installed
    · have unfolded : pursue a t (r, c) =
          (do
            uninstall .resourceModify
            retarget t a.key.vnet
            settle a .move : Step Unit) (r, c) := by
        simp only [pursue, Action.run_bind, Action.run_get, move, on, if_true]
      rw [unfolded, Action.run_bind]
      rcases uninstall_outcome .resourceModify r c with ⟨e, c', run, -⟩ | ⟨c', run, still⟩
      · rw [run]
        exact fun waiting => by simp [on] at waiting
      · have dpus : c'.dpus = c.dpus := congrArg Outlook.dpus still.outlook
        have waits := renew_waits (r := { r with state := .uninstalled }) (c := c')
          (by rw [dpus]; exact aimed) (by simp) .move (by simp)
        rw [run, ← dpus]
        exact waits
    · have unfolded : pursue a t (r, c) =
          (do
            retarget t a.key.vnet
            settle a .move : Step Unit) (r, c) := by
        simp only [pursue, Action.run_bind, Action.run_get, move, on, if_false]
      rw [unfolded]
      exact renew_waits aimed live .move on

/-- However it ends, a fired rule waits for a neighbor only where it should lead to. -/
theorem fire_waits (a : EniAttributes) (c : Context) (sound : r.Sound) :
    Waits a c.dpus (fire a (r, c)).2.1 := by
  simp only [fire, Action.run_bind, Action.run_get]
  split
  next failed => exact fun waiting => by simp [failed] at waiting
  next live =>
    cases aimed : target r.role a c.dpus with
    | ok t => exact pursue_waits aimed live sound
    | error e =>
      dsimp only
      split
      · exact fun waiting => by cases waiting
      next resting => exact fun waiting => absurd waiting resting

end Rule

end EniForwarding
