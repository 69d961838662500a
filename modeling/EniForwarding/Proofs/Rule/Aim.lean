import EniForwarding.Proofs.Context.Outlook

/-! What firing a rule comes to.

What a rule becomes when nothing fails is told by its attributes and by what can be looked
up; the tunnel next hops that others hold have no part in it. Firing ends there if it
ends well, and wherever it stops it leaves a rule that would become the same.
-/

set_option autoImplicit false

namespace EniForwarding

namespace NextHop

def settled (o : Outlook) : NextHop → NextHop
  | .direct ip _ => .direct ip (o.reaches ip)
  | .tunnelled ip vnet (some tunnel) => .tunnelled ip vnet (some tunnel)
  | .tunnelled ip vnet none => .tunnelled ip vnet (o.inventory.tunnel? vnet)

def LeadsTo (h : NextHop) (t : Target) : Prop := h.placement = t.placement ∧ h.endpoint = t.address

instance (h : NextHop) (t : Target) : Decidable (h.LeadsTo t) :=
  inferInstanceAs (Decidable (_ ∧ _))

variable (o : Outlook) (h : NextHop) (t : Target) (vnet : String)

theorem settled_settled : (h.settled o).settled o = h.settled o := by
  rcases h with ⟨ip, resolved⟩ | ⟨ip, vnet, _ | tunnel⟩
  · rfl
  · simp only [settled]
    cases found : o.inventory.tunnel? vnet <;> simp [found]
  · rfl

theorem settled_leadsTo : (h.settled o).LeadsTo t ↔ h.LeadsTo t := by
  rcases h with ⟨ip, resolved⟩ | ⟨ip, vnet, _ | tunnel⟩ <;> exact Iff.rfl

theorem toward_leadsTo : (toward t.placement t.address vnet).LeadsTo t := by
  cases placed : t.placement <;> exact ⟨placed.symm, rfl⟩

theorem leadsTo_inj {h : NextHop} {t t' : Target} (first : h.LeadsTo t) (second : h.LeadsTo t') :
    t = t' := by
  cases t
  cases t'
  obtain ⟨rfl, rfl⟩ := first
  obtain ⟨rfl, rfl⟩ := second
  rfl

@[simp]
theorem hop?_toward : (toward t.placement t.address vnet).hop? = none := by
  cases t.placement <;> rfl

theorem leadsTo_of_hop? {h : NextHop} {hop : TunnelHop} (held : h.hop? = some hop) :
    h.LeadsTo t ↔ t = ⟨.inCluster, hop.ip⟩ := by
  rcases h with ⟨ip, resolved⟩ | ⟨ip, vnet, _ | tunnel⟩
  · cases held
  · cases held
  · cases held
    rcases t with ⟨placement, address⟩
    simp only [LeadsTo, NextHop.placement, NextHop.endpoint, Target.mk.injEq]
    exact and_congr eq_comm eq_comm

end NextHop

namespace Rule

/-- The next hop that a rule goes on with: its own if that leads to the target, else a new one. -/
def heading (r : Rule) (t : Target) (vnet : String) : NextHop :=
  match r.nextHop with
  | some hop => if hop.LeadsTo t then hop else .toward t.placement t.address vnet
  | none => .toward t.placement t.address vnet

def arrived (r : Rule) (hop : NextHop) : Rule :=
  { r with nextHop := some hop, state := if hop.isResolved then .installed else .pending }

/-- What the rule becomes if it is fired and nothing fails. -/
def aim (o : Outlook) (a : EniAttributes) (r : Rule) : Rule :=
  if r.state = .failed then r
  else
    match target r.role a o.dpus with
    | .error _ => if r.state = .pending then { r with state := .failed } else r
    | .ok t => if r.change t = .none then r else r.arrived ((r.heading t a.key.vnet).settled o)

/-- The rule would become what a new rule in its place would become. -/
def Fit (o : Outlook) (a : EniAttributes) (r : Rule) : Prop :=
  r.aim o a = (ofRole r.role r.key).aim o a

/-- There is nothing left to do for the rule: it has failed for good, its endpoint makes no
sense, or it leads to its target and is installed, or waits there for its next hop. -/
def Settled (a : EniAttributes) (dpus : Dpus) (r : Rule) : Prop :=
  r.state = .failed ∨ (∃ e, target r.role a dpus = .error e) ∨
    ∃ t hop, target r.role a dpus = .ok t ∧ r.nextHop = some hop ∧ hop.LeadsTo t ∧
      (r.state = .installed ∨ r.state = .pending ∧ hop.isResolved = false)

section change

variable {r : Rule} {t : Target} {hop : NextHop}

theorem change_eq (leads : r.nextHop = some hop) :
    r.change t =
      if hop.LeadsTo t then
        if hop.isResolved = true ∧ r.state = .installed then .none else .refresh
      else .move := by
  unfold change
  simp only [leads]
  by_cases onto : hop.LeadsTo t
  · rw [if_pos onto, if_neg (by simp [onto.1, onto.2])]
  · rw [if_neg onto, if_pos (Decidable.not_and_iff_not_or_not.1 onto)]

theorem change_eq_none_iff : r.change t = .none ↔
    ∃ hop, r.nextHop = some hop ∧ hop.LeadsTo t ∧ hop.isResolved = true ∧ r.state = .installed := by
  cases leads : r.nextHop with
  | none => simp [change, leads]
  | some hop =>
    rw [change_eq leads]
    by_cases onto : hop.LeadsTo t <;> by_cases stands : hop.isResolved = true ∧ r.state = .installed <;>
      simp [onto, stands]

theorem leadsTo_of_refresh (refresh : r.change t = .refresh) :
    ∃ hop, r.nextHop = some hop ∧ hop.LeadsTo t := by
  cases leads : r.nextHop with
  | none => simp [change, leads] at refresh
  | some hop =>
    rw [change_eq leads] at refresh
    by_cases onto : hop.LeadsTo t
    · exact ⟨hop, rfl, onto⟩
    · simp [onto] at refresh

theorem not_leadsTo_of_move (move : r.change t = .move) :
    ∃ hop, r.nextHop = some hop ∧ ¬ hop.LeadsTo t := by
  cases leads : r.nextHop with
  | none => simp [change, leads] at move
  | some hop =>
    rw [change_eq leads] at move
    refine ⟨hop, rfl, fun onto => ?_⟩
    rw [if_pos onto] at move
    split at move <;> cases move

theorem elsewhere_of_move (move : r.change t = .move) :
    ∀ hop, r.nextHop = some hop → ¬ hop.LeadsTo t := by
  intro hop leads
  obtain ⟨hop', leads', away⟩ := not_leadsTo_of_move move
  obtain rfl : hop' = hop := Option.some.inj (leads'.symm.trans leads)
  exact away

theorem change_ne_none_of_off (off : r.state ≠ .installed) : r.change t ≠ .none := by
  intro stands
  obtain ⟨-, -, -, -, on⟩ := change_eq_none_iff.1 stands
  exact off on

theorem heading_of_leadsTo (vnet : String) (leads : r.nextHop = some hop) (onto : hop.LeadsTo t) :
    r.heading t vnet = hop := by
  simp [heading, leads, onto]

theorem heading_of_elsewhere (vnet : String)
    (elsewhere : ∀ hop, r.nextHop = some hop → ¬ hop.LeadsTo t) :
    r.heading t vnet = .toward t.placement t.address vnet := by
  cases leads : r.nextHop with
  | none => simp [heading, leads]
  | some hop => simp [heading, leads, elsewhere hop leads]

theorem heading_leadsTo (r : Rule) (t : Target) (vnet : String) : (r.heading t vnet).LeadsTo t := by
  by_cases there : ∃ hop, r.nextHop = some hop ∧ hop.LeadsTo t
  · obtain ⟨hop, leads, onto⟩ := there
    rwa [heading_of_leadsTo vnet leads onto]
  · rw [heading_of_elsewhere vnet fun hop leads onto => there ⟨hop, leads, onto⟩]
    exact NextHop.toward_leadsTo t vnet

theorem arrived_state_ne_failed (r : Rule) (hop : NextHop) : (r.arrived hop).state ≠ .failed := by
  simp only [arrived]
  split <;> simp

end change

section aim

variable {o : Outlook} {a : EniAttributes} {r r' : Rule} {t : Target}

theorem aim_of_failed (failed : r.state = .failed) : r.aim o a = r := by
  rw [aim, if_pos failed]

theorem aim_of_target (live : r.state ≠ .failed) (aimed : target r.role a o.dpus = .ok t) :
    r.aim o a =
      if r.change t = .none then r else r.arrived ((r.heading t a.key.vnet).settled o) := by
  simp only [aim, live, if_false, aimed]

theorem aim_of_invalid {e : Failure} (live : r.state ≠ .failed)
    (invalid : target r.role a o.dpus = .error e) :
    r.aim o a = if r.state = .pending then { r with state := .failed } else r := by
  simp only [aim, live, if_false, invalid]

theorem aim_of_off (off : r.state ≠ .installed) (live : r.state ≠ .failed)
    (aimed : target r.role a o.dpus = .ok t) :
    r.aim o a = r.arrived ((r.heading t a.key.vnet).settled o) := by
  rw [aim_of_target live aimed, if_neg (change_ne_none_of_off off)]

theorem aim_with_nextHop {next : Option NextHop} (off : r.state ≠ .installed)
    (live : r.state ≠ .failed) (aimed : target r.role a o.dpus = .ok t)
    (heading : (({ r with nextHop := next } : Rule).heading t a.key.vnet).settled o =
      (r.heading t a.key.vnet).settled o) :
    ({ r with nextHop := next } : Rule).aim o a = r.aim o a := by
  have before := aim_of_off off live aimed
  have after := aim_of_off (r := { r with nextHop := next }) off live aimed
  rw [before, after, heading]
  rfl

theorem aim_uninstalled (live : r.state ≠ .failed) (aimed : target r.role a o.dpus = .ok t)
    (changes : r.change t ≠ .none) :
    ({ r with state := .uninstalled } : Rule).aim o a = r.aim o a := by
  have after := aim_of_off (r := { r with state := .uninstalled }) (by simp) (by simp) aimed
  rw [aim_of_target live aimed, if_neg changes, after]
  rfl

/-- A rule that has got where it goes stays there. -/
theorem aim_arrived (aimed : target r.role a o.dpus = .ok t) :
    (r.arrived ((r.heading t a.key.vnet).settled o)).aim o a =
      r.arrived ((r.heading t a.key.vnet).settled o) := by
  have leads := heading_leadsTo r t a.key.vnet
  generalize r.heading t a.key.vnet = hop at leads ⊢
  have there : (hop.settled o).LeadsTo t := (NextHop.settled_leadsTo o hop t).2 leads
  have again : ((r.arrived (hop.settled o)).heading t a.key.vnet).settled o = hop.settled o := by
    rw [heading_of_leadsTo _ rfl there, NextHop.settled_settled]
  rw [aim_of_target (arrived_state_ne_failed r _) aimed, again]
  split <;> rfl

theorem aim_aim : (r.aim o a).aim o a = r.aim o a := by
  by_cases failed : r.state = .failed
  · rw [aim_of_failed failed, aim_of_failed failed]
  · cases aimed : target r.role a o.dpus with
    | error e =>
      rw [aim_of_invalid failed aimed]
      by_cases waiting : r.state = .pending
      · simp only [waiting, if_true]
        exact aim_of_failed rfl
      · simp only [waiting, if_false]
        rw [aim_of_invalid failed aimed, if_neg waiting]
    | ok t =>
      rw [aim_of_target failed aimed]
      by_cases stands : r.change t = .none
      · simp only [stands, if_true]
        rw [aim_of_target failed aimed, if_pos stands]
      · simp only [stands, if_false]
        exact aim_arrived aimed

theorem aim_settled (o : Outlook) (a : EniAttributes) (r : Rule) : (r.aim o a).Settled a o.dpus := by
  by_cases failed : r.state = .failed
  · rw [aim_of_failed failed]
    exact .inl failed
  · cases aimed : target r.role a o.dpus with
    | error e =>
      rw [aim_of_invalid failed aimed]
      split
      · exact .inl rfl
      · exact .inr (.inl ⟨e, aimed⟩)
    | ok t =>
      rw [aim_of_target failed aimed]
      split
      next stands =>
        obtain ⟨hop, leads, onto, -, on⟩ := change_eq_none_iff.1 stands
        exact .inr (.inr ⟨t, hop, aimed, leads, onto, .inl on⟩)
      next =>
        have onto := (NextHop.settled_leadsTo o _ t).2 (heading_leadsTo r t a.key.vnet)
        generalize (r.heading t a.key.vnet).settled o = hop at onto ⊢
        refine .inr (.inr ⟨t, hop, aimed, rfl, onto, ?_⟩)
        cases resolved : hop.isResolved <;> simp [arrived, resolved]

theorem placement_of_term {role : Role} {dpus : Dpus} (term : role.isTerm = true)
    (aimed : target role a dpus = .ok t) : t.placement = .onSwitch := by
  unfold target targetDpu at aimed
  rw [if_pos term] at aimed
  cases first : a.localEndpoint dpus with
  | none => simp [first, bind, Except.bind] at aimed
  | some id =>
    have here : dpus.isLocal id = true := List.find?_some first
    unfold Dpus.isLocal at here
    simp only [first, bind, Except.bind] at aimed
    cases known : dpus.get? id with
    | none => simp [known] at here
    | some dpu =>
      have placed : dpu.placement = .onSwitch := by simpa [known, Dpu.isLocal] using here
      simp only [known, placed] at aimed
      split at aimed <;> cases aimed
      exact rfl

section tunnels

variable {hop : TunnelHop}

/-- What the rule holds at its target it goes on to hold. -/
theorem hop?_aim (aimed : target r.role a o.dpus = .ok ⟨.inCluster, hop.ip⟩)
    (held : r.hop? = some hop) : (r.aim o a).hop? = some hop := by
  by_cases failed : r.state = .failed
  · rwa [aim_of_failed failed]
  · obtain ⟨next, leads, holds⟩ := Option.bind_eq_some_iff.1 held
    have onto : next.LeadsTo ⟨.inCluster, hop.ip⟩ := (NextHop.leadsTo_of_hop? _ holds).2 rfl
    rw [aim_of_target failed aimed, heading_of_leadsTo _ leads onto]
    split
    · exact held
    · rcases next with ⟨ip, resolved⟩ | ⟨ip, vnet, _ | tunnel⟩
      · cases holds
      · cases holds
      · exact holds

end tunnels

section fit

variable {role : Role} {key : String}

theorem aim_ofRole (aimed : target role a o.dpus = .ok t) :
    (ofRole role key).aim o a =
      (ofRole role key).arrived ((NextHop.toward t.placement t.address a.key.vnet).settled o) := by
  have live : (ofRole role key).state ≠ .failed := by simp [ofRole]
  rw [aim_of_target live aimed, if_neg]
  · rfl
  · exact change_ne_none_of_off (by simp [ofRole])

theorem aim_ofRole_of_invalid {e : Failure} (invalid : target role a o.dpus = .error e) :
    (ofRole role key).aim o a = { ofRole role key with state := .failed } := by
  have live : (ofRole role key).state ≠ .failed := by simp [ofRole]
  exact (aim_of_invalid live invalid).trans (if_pos rfl)

theorem Fit.uninstalled (fit : r.Fit o a) (on : r.state = .installed) :
    ({ r with state := .uninstalled } : Rule).Fit o a := by
  have live : r.state ≠ .failed := by simp [on]
  have off : ({ r with state := .uninstalled } : Rule).state ≠ .failed := by simp
  unfold Fit at fit ⊢
  cases aimed : target r.role a o.dpus with
  | error e =>
    -- a new rule would fail, and this one would not
    rw [aim_of_invalid live aimed, aim_ofRole_of_invalid aimed, if_neg (by simp [on])] at fit
    exact absurd (congrArg state fit) live
  | ok t =>
    rw [aim_of_target live aimed, aim_ofRole aimed] at fit
    rw [aim_of_target off aimed, aim_ofRole aimed, if_neg (change_ne_none_of_off (by simp))]
    split at fit
    next stands =>
      obtain ⟨hop, leads, onto, -, -⟩ := change_eq_none_iff.1 stands
      -- the next hop is the one that a new rule would have
      have same : hop = (NextHop.toward t.placement t.address a.key.vnet).settled o :=
        Option.some.inj (leads.symm.trans (congrArg nextHop fit))
      have heading : ({ r with state := .uninstalled } : Rule).heading t a.key.vnet = hop :=
        heading_of_leadsTo _ leads onto
      rw [heading, same, NextHop.settled_settled]
      rfl
    next => exact fit

theorem Fit.dropped (fit : r.Fit o a) : ({ r with nextHop := none } : Rule).Fit o a := by
  unfold Fit at fit ⊢
  cases aimed : target r.role a o.dpus with
  | error e =>
    rw [aim_ofRole_of_invalid aimed] at fit ⊢
    -- a rule that is as good as a new one has no next hop here
    have bare : r.nextHop = none := by
      by_cases failed : r.state = .failed
      · rw [aim_of_failed failed] at fit
        exact congrArg nextHop fit
      · rw [aim_of_invalid failed aimed] at fit
        split at fit <;> exact congrArg nextHop fit
    have same : ({ r with nextHop := none } : Rule) = r := by rw [← bare]
    rw [same, fit]
  | ok t =>
    have live : r.state ≠ .failed := by
      intro failed
      rw [aim_of_failed failed, aim_ofRole aimed] at fit
      exact arrived_state_ne_failed _ _ ((congrArg state fit).symm.trans failed)
    have heading : ({ r with nextHop := none } : Rule).heading t a.key.vnet =
        .toward t.placement t.address a.key.vnet := heading_of_elsewhere _ (by simp)
    have changes : ({ r with nextHop := none } : Rule).change t ≠ .none := by simp [change]
    have dropped : ({ r with nextHop := none } : Rule).state ≠ .failed := live
    rw [aim_ofRole aimed, aim_of_target dropped aimed, if_neg changes, heading]
    rfl

/-- Declared anew, with the same VNET, a rule becomes what a new rule becomes. -/
theorem aim_anew {a' : EniAttributes} {t' : Target} (vnet : a'.key.vnet = a.key.vnet)
    (aimed : target role a o.dpus = .ok t) (aimed' : target role a' o.dpus = .ok t') :
    ((ofRole role key).aim o a).aim o a' = (ofRole role key).aim o a' := by
  rw [aim_ofRole aimed]
  generalize headed : NextHop.toward t.placement t.address a.key.vnet = hop
  have onto : (hop.settled o).LeadsTo t := by
    rw [NextHop.settled_leadsTo, ← headed]
    exact NextHop.toward_leadsTo t a.key.vnet
  by_cases same : t' = t
  · -- the new target is the old one
    have renewed : hop = (ofRole role key).heading t' a'.key.vnet := by
      rw [heading_of_elsewhere _ (by simp [ofRole]), same, vnet, headed]
    rw [aim_ofRole aimed', renewed, aim_arrived aimed', ← renewed, ← headed, same, vnet]
  · have away : ¬ (hop.settled o).LeadsTo t' := fun there => same (NextHop.leadsTo_inj there onto)
    have heading : ((ofRole role key).arrived (hop.settled o)).heading t' a'.key.vnet =
        .toward t'.placement t'.address a'.key.vnet := by
      refine heading_of_elsewhere _ fun other leads => ?_
      cases leads
      exact away
    have changes : ((ofRole role key).arrived (hop.settled o)).change t' ≠ .none := by
      intro stands
      obtain ⟨other, leads, there, -⟩ := change_eq_none_iff.1 stands
      cases leads
      exact away there
    have live := arrived_state_ne_failed (ofRole role key) (hop.settled o)
    rw [aim_ofRole aimed', aim_of_target live aimed', if_neg changes, heading]
    rfl

end fit

end aim

end Rule

end EniForwarding
