import EniForwarding.Proofs.Eni.Firing

/-! Rules that get where they aim by a detour.

If not all rules of a new ENI can be set up, those that could be are taken down again, and
that may fail too. Whatever rules there are when the ENI is fired once more, they get where
new ones would have got at once, and the tunnel next hops have the users that they would
have had: what was taken hold of and given back on the way makes no difference.
-/

set_option autoImplicit false

namespace EniForwarding

namespace Rule

variable {a : EniAttributes} {o : Outlook} {rules rules' news : List Rule} {c c₁ c₂ c' : Context}

def New (rules : List Rule) : Prop := ∀ r ∈ rules, ofRole r.role r.key = r

theorem label_aim (o : Outlook) (a : EniAttributes) (r : Rule) : (r.aim o a).label = r.label := by
  unfold aim
  repeat' split
  all_goals rfl

/-- Rules in the places of new ones get where these aim if and only if each fits its place. -/
theorem aims_eq_iff_fit (new : New news) (labels : rules.map label = news.map label) :
    rules.map (aim o a) = news.map (aim o a) ↔ ∀ r ∈ rules, r.Fit o a := by
  have places : ∀ rules : List Rule, rules.map (fun r => (ofRole r.role r.key).aim o a) =
      (rules.map label).map fun l => (ofRole l.2 l.1).aim o a := by
    simp [label]
  have renewed : news.map (aim o a) = news.map fun r => (ofRole r.role r.key).aim o a :=
    List.map_congr_left fun r member => by rw [new r member]
  rw [renewed, places, ← labels, ← places]
  exact List.map_inj_left

theorem New.bare (new : New news) : Bare news := by
  intro r member _
  rw [← new r member]
  rfl

theorem New.holdings_eq_zero (new : New news) (hop : TunnelHop) : holdings news hop = 0 := by
  refine Rule.holdings_eq_zero (fun r member => ?_) hop
  rw [← new r member]
  rfl

theorem holdings_le_aim {hop : TunnelHop} (bare : Bare rules)
    (aimed : target .inbound a o.dpus = .ok ⟨.inCluster, hop.ip⟩) :
    holdings rules hop ≤ holdings (rules.map (aim o a)) hop := by
  unfold holdings
  rw [List.countP_map]
  refine List.countP_mono_left fun r member held => ?_
  have held : r.hop? = some hop := of_decide_eq_true held
  have follows : r.role.isTerm = false := by
    by_contra term
    rw [bare r member (by simpa using term)] at held
    cases held
  exact decide_eq_true (hop?_aim ((target_of_not_term follows).trans aimed) held)

/-- The rules tell how many users a tunnel next hop has gained or lost. -/
theorem Pursuit.users_eq (bare : Bare rules) (first : Pursuit a (rules, c) (rules', c₁))
    (second : Pursuit a (rules, c) (rules', c₂)) (hop : TunnelHop) : c₁.users hop = c₂.users hop := by
  by_cases aimed : target .inbound a c.dpus = .ok ⟨.inCluster, hop.ip⟩
  · exact (first.rises hop aimed bare).2.trans (second.rises hop aimed bare).2.symm
  · exact (first.falls hop aimed).2.trans (second.falls hop aimed).2.symm

theorem Pursuit.of_alike (pursuit : Pursuit a (rules, c₁) (rules', c'))
    (outlook : c₁.outlook = c.outlook) (users : ∀ hop, c₁.users hop = c.users hop) : Pursuit a (rules, c) (rules', c') :=
  IsTrans.trans _ _ _ (.of_eq rules outlook users) pursuit

/-- Rules that have been fired and then taken down in part get where new ones would have got. -/
theorem Pursuit.aims_of_clearing (new : New news) (first : Pursuit a (news, c) (rules, c₁))
    (clearing : Clearing (rules, c₁) (rules', c₂)) :
    rules'.map (aim c.outlook a) = news.map (aim c.outlook a) := by
  have outlook : c₁.outlook = c.outlook := first.outlook
  have labels : rules'.map label = news.map label := clearing.labels.trans first.labels
  refine (aims_eq_iff_fit new labels).2 ?_
  have fit := clearing.fit a
  dsimp only at fit
  rw [outlook] at fit
  exact fit ((aims_eq_iff_fit new first.labels).1 first.aims)

/-- New rules are fired, given up in part, and fired again: that is as good as being fired at once. -/
theorem Pursuit.detour {rules₁ rules₂ : List Rule} (new : New news)
    (first : Pursuit a (news, c) (rules₁, c₁)) (outlook : c₂.outlook = c₁.outlook)
    (falls : ∀ hop, Context.Falls hop (holdings rules₁ hop) c₁ (holdings rules₂ hop) c₂)
    (bare : Bare rules₂) (last : Pursuit a (rules₂, c₂) (news.map (aim c.outlook a), c')) :
    Pursuit a (news, c) (news.map (aim c.outlook a), c') := by
  have outlook₁ : c₁.outlook = c.outlook := first.outlook
  have dpus : c₂.dpus = c.dpus := congrArg Outlook.dpus (outlook.trans outlook₁)
  have aims : rules₁.map (aim c.outlook a) = news.map (aim c.outlook a) := first.aims
  constructor
  · exact last.outlook.trans (outlook.trans outlook₁)
  · simp [label_aim]
  · simp [aim_aim]
  · exact fun _ => last.bare bare
  · intro hop aimed _
    have up := first.rises hop aimed new.bare
    have down := falls hop
    have again := last.rises hop (by rw [dpus, aimed]) bare
    -- what was held before the rules were taken down is held in the end
    have more := holdings_le_aim (o := c.outlook) (first.bare new.bare) aimed
    rw [aims] at more
    have bound := c.users_le hop
    rw [new.holdings_eq_zero hop] at up ⊢
    unfold Context.Rises Context.Falls at *
    dsimp only at *
    omega
  · intro hop elsewhere
    have before := first.falls hop elsewhere
    have between := falls hop
    have after := last.falls hop (by rw [dpus]; exact elsewhere)
    exact (before.trans between).trans after

end Rule

theorem Eni.ofAttributes_new (a : EniAttributes) (dpus : Dpus) (table : String) :
    Rule.New (ofAttributes a dpus table).rules := by
  intro r member
  obtain ⟨role, -, rfl⟩ := List.mem_map.1 member
  rfl

end EniForwarding
