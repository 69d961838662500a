import EniForwarding.Proofs.Lawful
import EniForwarding.Proofs.Rule.Reached

/-! An interrupted firing is taken up where it stopped.

An attempt to fire a rule may be stopped by any call that is lost or refused, or because
the VIP cannot be read. It leaves a rule that needs the calls that were not made, so however
often the rule is fired again, no call is made twice and none is left out: once an attempt
ends well, all calls that the rule needed in the beginning have been made, in their order,
and the rule, the users of the tunnel next hops and the switch are those that one undisturbed
firing leaves.
-/

set_option autoImplicit false

namespace EniForwarding

open Relation

namespace Rule

variable {a : EniAttributes} {vip : Net.Prefix} {r : Rule} {c c' : Context} {t : Target}

/-- The calls made are the first ones that the rule needed, and it still needs the others. -/
def Resumes (a : EniAttributes) (vip : Net.Prefix) (p p' : Rule × Context) : Prop :=
  ∃ made, p.2.Makes made p'.2 ∧ p.1.agenda a vip p.2 = made ++ p'.1.agenda a vip p'.2

theorem Resumes.of_eq (makes : c.Makes [] c') (tunnels : c'.tunnels = c.tunnels) :
    Resumes a vip (r, c) (r, c') :=
  ⟨[], makes, (agenda_eq makes.agrees makes.base tunnels).symm⟩

instance : Std.Refl (Resumes a vip) := ⟨fun p => ⟨[], .refl p.2, rfl⟩⟩

instance : IsTrans (Rule × Context) (Resumes a vip) := by
  constructor
  rintro p p' p'' ⟨made, makes, first⟩ ⟨made', makes', second⟩
  exact ⟨made ++ made', makes.trans makes', by rw [first, second, List.append_assoc]⟩

theorem settling_eq (makes : ∃ calls, c.Makes calls c')
    (elsewhere : ∀ hop, r.nextHop = some hop → ¬ hop.LeadsTo t)
    (others : ∀ other, r.hop? ≠ some other → c'.tunnels.get? other = c.tunnels.get? other)
    {hop : NextHop} (onto : hop.LeadsTo t) :
    settling a vip r c' hop = settling a vip r c hop := by
  obtain ⟨calls, makes⟩ := makes
  have joining : hop.joining c' = hop.joining c := by
    unfold NextHop.joining
    rw [makes.outlook]
    cases needed : (hop.settled c.outlook).hop? with
    | none => rfl
    | some tunnel =>
      have apart : r.hop? ≠ some tunnel := by
        intro held
        obtain ⟨old, leads, holds⟩ := Option.bind_eq_some_iff.1 held
        have there := (NextHop.settled_leadsTo c.outlook hop t).2 onto
        have target_eq := (NextHop.leadsTo_of_hop? t needed).1 there
        exact elsewhere old leads ((NextHop.leadsTo_of_hop? t holds).2 target_eq)
      have same : c'.joining tunnel = c.joining tunnel := by
        rw [Context.joining, SortedMap.contains, others tunnel apart]
        rfl
      rw [Option.elim_some, Option.elim_some, same]
  simp only [settling, joining, makes.outlook, makes.base]

section steps

variable (aimed : target r.role a c.dpus = .ok t) (live : r.state ≠ .failed)

include aimed live

theorem uninstall_resumes (category : Audit.Category) (on : r.state = .installed)
    (changes : r.change t ≠ .none) :
    (uninstall category).Leads (Resumes a vip) (r, c) fun _ p =>
      p.1 = { r with state := .uninstalled } ∧ p.2.dpus = c.dpus := by
  rcases uninstall_makes r c category with ⟨e, c', run, makes, tunnels⟩ | ⟨c', run, makes, tunnels⟩
  · exact .of_error run (.of_eq makes tunnels)
  · refine .of_ok run ⟨_, makes, ?_⟩ ⟨rfl, makes.dpus⟩
    have rest := @agenda_of_off a vip { r with state := .uninstalled } c t (by simp) (by simp) aimed
    rw [agenda_eq makes.agrees makes.base tunnels, rest, agenda_of_target live aimed, if_neg changes, if_pos on]
    rfl

theorem dropNextHop_resumes (off : r.state ≠ .installed)
    (elsewhere : ∀ hop, r.nextHop = some hop → ¬ hop.LeadsTo t) :
    dropNextHop.Leads (Resumes a vip) (r, c) fun _ p =>
      p.1 = { r with nextHop := none } ∧ p.2.dpus = c.dpus := by
  rcases dropNextHop_makes r c with ⟨e, c', run, makes, tunnels⟩ | ⟨c', run, makes, others⟩
  · exact .of_error run (.of_eq makes tunnels)
  · refine .of_ok run ⟨_, makes, ?_⟩ ⟨rfl, makes.dpus⟩
    have departs : r.departing t c = r.nextHop.elim [] (·.leaving c) := by
      unfold departing
      cases leads : r.nextHop with
      | none => rfl
      | some hop => exact if_neg (elsewhere hop leads)
    have rest := @agenda_of_off a vip { r with nextHop := none } c' t off live
      (by rw [makes.dpus]; exact aimed)
    have goesOn : settling a vip ({ r with nextHop := none } : Rule) c' =
        settling a vip r c' := rfl
    rw [agenda_of_off off live aimed, rest, departs, heading_of_elsewhere _ elsewhere,
      heading_of_elsewhere _ (by simp), goesOn,
      settling_eq ⟨_, makes⟩ elsewhere others (NextHop.toward_leadsTo t _)]
    rfl

theorem retarget_resumes (off : r.state ≠ .installed)
    (elsewhere : ∀ hop, r.nextHop = some hop → ¬ hop.LeadsTo t) :
    (retarget t a.key.vnet).Leads (Resumes a vip) (r, c) fun _ p =>
      p.1 = { r with nextHop := some (.toward t.placement t.address a.key.vnet) } ∧
        p.2.dpus = c.dpus := by
  refine .bind (dropNextHop_resumes aimed live off elsewhere) ?_
  rintro - ⟨r', c'⟩ ⟨rfl, dpus⟩
  refine .modify ⟨[], .refl c', ?_⟩ ⟨rfl, dpus⟩
  rw [← dpus] at aimed
  have onto := NextHop.toward_leadsTo t a.key.vnet
  have before := @agenda_of_off a vip { r with nextHop := none } c' t off live aimed
  have after := @agenda_of_off a vip
    { r with nextHop := some (.toward t.placement t.address a.key.vnet) } c' t off live aimed
  rw [heading_of_elsewhere _ (by simp)] at before
  rw [heading_of_leadsTo _ rfl onto] at after
  show _ = [] ++ _
  rw [before, after]
  simp only [departing, Option.elim_some, Option.elim_none, if_pos onto]
  rfl

section settled

variable (off : r.state ≠ .installed) {hop : NextHop} (leads : r.nextHop = some hop)
  (onto : hop.LeadsTo t) (stays : hop.settled c.outlook = hop)

include off leads onto stays

theorem install_resumes (change : Change) (fixed : ∀ known, c.outlook.vip? = .ok known → known = vip)
    (resolved : hop.isResolved = true) :
    (install a change hop.target).Leads (Resumes a vip) (r, c) fun _ p =>
      p.1.agenda a vip p.2 = [] := by
  rcases install_makes r c a change hop.target with
    ⟨e, c', lost, makes, tunnels⟩ | ⟨known, c', written, readable, -, makes⟩
  · exact .of_error lost (.of_eq makes tunnels)
  · have final : ({ r with state := .installed } : Rule) = r.arrived hop := by
      rw [arrived, resolved, ← leads]
      rfl
    have done : ({ r with state := .installed } : Rule).agenda a vip c' = [] := by
      rw [final]
      exact agenda_arrived (by rw [makes.dpus, aimed]) onto (by rw [makes.outlook, stays])
    obtain rfl : known = vip := fixed known readable
    refine .of_ok written ⟨_, makes, ?_⟩ done
    rw [done, agenda_of_settled off live aimed leads onto stays, if_pos resolved]
    rfl

theorem wait_resumes (waiting : hop.isResolved = false) :
    (update fun r => { r with state := .pending }).Leads (Resumes a vip) (r, c) fun _ p =>
      p.1.agenda a vip p.2 = [] := by
  have final : ({ r with state := .pending } : Rule) = r.arrived hop := by
    rw [arrived, waiting, ← leads]
    rfl
  have done : ({ r with state := .pending } : Rule).agenda a vip c = [] := by
    rw [final]
    exact agenda_arrived aimed onto stays
  refine .modify ⟨[], .refl c, ?_⟩ done
  show _ = [] ++ ({ r with state := .pending } : Rule).agenda a vip c
  rw [done, agenda_of_settled off live aimed leads onto stays, if_neg (by simp [waiting])]
  rfl

end settled

theorem settle_resumes (change : Change) (fixed : ∀ known, c.outlook.vip? = .ok known → known = vip)
    (off : r.state ≠ .installed) {hop : NextHop} (leads : r.nextHop = some hop)
    (onto : hop.LeadsTo t) :
    (settle a change).Leads (Resumes a vip) (r, c) fun _ p => p.1.agenda a vip p.2 = [] := by
  have run := run_settle a change leads c
  rcases hop.resolve_makes c with ⟨e, c', failed, makes, tunnels⟩ | ⟨c', found, makes⟩
  · rw [failed] at run
    exact .of_error run (.of_eq makes tunnels)
  · have there := (NextHop.settled_leadsTo c.outlook hop t).2 onto
    have stays : (hop.settled c.outlook).settled c'.outlook = hop.settled c.outlook := by
      rw [makes.outlook, NextHop.settled_settled]
    have aimed' : target r.role a c'.dpus = .ok t := by rw [makes.dpus, aimed]
    have fixed' : ∀ known, c'.outlook.vip? = .ok known → known = vip := by
      rwa [makes.outlook]
    have resolves : Resumes a vip (r, c) ({ r with nextHop := some (hop.settled c.outlook) }, c') := by
      have rest := @agenda_of_settled a vip { r with nextHop := some (hop.settled c.outlook) } c' t _
        off live aimed' rfl there stays
      refine ⟨_, makes, ?_⟩
      rw [rest, agenda_of_off off live aimed, heading_of_leadsTo _ leads onto]
      simp only [departing, leads, Option.elim_some, if_pos onto, List.nil_append, settling, makes.base]
    simp only [found] at run
    generalize hop.settled c.outlook = hop' at run resolves there stays
    have finishes : (if hop'.isResolved then install a change hop'.target
        else update fun r => { r with state := .pending }).Leads (Resumes a vip)
          ({ r with nextHop := some hop' }, c') fun _ p => p.1.agenda a vip p.2 = [] := by
      split
      next resolved =>
        exact install_resumes (r := { r with nextHop := some hop' }) aimed' live off rfl there stays
          change fixed' resolved
      next waiting =>
        exact wait_resumes (r := { r with nextHop := some hop' }) aimed' live off rfl there stays
          (by simpa using waiting)
    unfold Action.Leads
    rw [run]
    exact ⟨IsTrans.trans _ _ _ resolves finishes.1, finishes.2⟩

theorem renew_resumes (change : Change) (fixed : ∀ known, c.outlook.vip? = .ok known → known = vip)
    (off : r.state ≠ .installed) (elsewhere : ∀ hop, r.nextHop = some hop → ¬ hop.LeadsTo t) :
    (do retarget t a.key.vnet; settle a change : Step Unit).Leads (Resumes a vip) (r, c)
      fun _ p => p.1.agenda a vip p.2 = [] := by
  refine .bind_from (retarget_resumes aimed live off elsewhere) ?_
  rintro - ⟨r', c'⟩ ⟨made, makes, -⟩ ⟨rfl, dpus⟩
  exact settle_resumes (r := { r with nextHop := some _ }) (by rw [dpus]; exact aimed) live change
    (fun known readable => fixed known (by rw [← makes.outlook, readable])) off rfl
    (NextHop.toward_leadsTo t a.key.vnet)

theorem pursue_resumes (fixed : ∀ known, c.outlook.vip? = .ok known → known = vip) (sound : r.Sound) :
    (pursue a t).Leads (Resumes a vip) (r, c) fun _ p => p.1.agenda a vip p.2 = [] := by
  refine .get_bind ?_
  dsimp only
  split
  next stands => exact .pure (by rw [agenda_of_target live aimed, if_pos stands])
  next refresh =>
    obtain ⟨hop, leads, onto⟩ := leadsTo_of_refresh refresh
    exact settle_resumes aimed live .refresh fixed (off_of_refresh sound refresh) leads onto
  next create =>
    have free := nextHop_of_create create
    exact renew_resumes aimed live .create fixed (off_of_create sound create) (by simp [free])
  next move =>
    have elsewhere := elsewhere_of_move move
    by_cases on : r.state = .installed
    · simp only [on, if_true]
      refine .bind_from (uninstall_resumes aimed live .resourceModify on (by simp [move])) ?_
      rintro - ⟨r', c'⟩ ⟨made, makes, -⟩ ⟨rfl, dpus⟩
      exact renew_resumes (r := { r with state := .uninstalled }) (by rw [dpus]; exact aimed)
        (by simp) .move (fun known readable => fixed known (by rw [← makes.outlook, readable]))
        (by simp) elsewhere
    · simp only [on, if_false]
      exact renew_resumes aimed live .move fixed on elsewhere

end steps

/-- Fired with a VIP that is this one if it can be read, a rule makes the first of the calls that
it needs; if nothing fails it makes them all. -/
theorem fire_resumes (a : EniAttributes) (fixed : ∀ known, c.outlook.vip? = .ok known → known = vip)
    (sound : r.Sound) :
    (fire a).Leads (Resumes a vip) (r, c) fun _ p => p.1.agenda a vip p.2 = [] := by
  refine .get_bind ?_
  dsimp only
  split
  next failed => exact .pure (by simp [agenda, failed])
  next live =>
    split
    next t aimed => exact pursue_resumes aimed live fixed sound
    next e invalid =>
      have nothing : r.agenda a vip c = [] := by simp [agenda, invalid]
      split
      next waiting =>
        have done : ({ r with state := .failed } : Rule).agenda a vip c = [] := by simp [agenda]
        exact .modify ⟨[], .refl c, nothing.trans done.symm⟩ done
      next => exact .pure nothing

end Rule

namespace History

theorem recalled_eq_foldl (h : History) : recalled h = h.done.foldl Switch.after .empty := by
  induction h with
  | nil => rfl
  | cons e earlier ih =>
    cases e with
    | called call failure =>
      cases failure with
      | none => rw [recalled, done, List.foldl_append, ← ih]; rfl
      | some message => exact ih
    | asked | audited | joined | left => exact ih

end History

namespace Context

/-- A context that an empty switch and work on rules, whoever has them, have led to. -/
inductive Worked : Context → Prop
  | start (inventory : Inventory) (table : String) (base : UInt32) :
      Worked (.ofEnvironment (.ofInventory inventory) table base)
  | move {owner : EniAttributes} {r r' : Rule} {c c' : Context} (before : Worked c)
      (move : Rule.Move owner (r, c) (r', c')) : Worked c'

/-- Trace, tables and switch tell the same, and what is in the table is in use. -/
structure Consistent (c : Context) : Prop where
  recalled : c.Recalled
  mirrored : c.Mirrored
  used : c.Used

section consistent

variable {c c' : Context}

theorem Consistent.move {owner : EniAttributes} {r r' : Rule} (consistent : c.Consistent)
    (move : Rule.Move owner (r, c) (r', c')) : c'.Consistent :=
  ⟨move.recalled consistent.recalled, move.mirrored consistent.mirrored, move.used consistent.used⟩

theorem Consistent.moves {owner : EniAttributes} {p p' : Rule × Context}
    (moves : Rule.Moves owner p p') (consistent : p.2.Consistent) : p'.2.Consistent := by
  induction moves with
  | refl => exact consistent
  | tail _ move ih => exact ih.move move

theorem Worked.moves {owner : EniAttributes} {p p' : Rule × Context} (moves : Rule.Moves owner p p')
    (worked : p.2.Worked) : p'.2.Worked := by
  induction moves with
  | refl => exact worked
  | tail _ move ih => exact ih.move move

theorem Worked.consistent (worked : c.Worked) : c.Consistent := by
  induction worked with
  | start inventory table base =>
    have coherent := World.Coherent.start inventory table base
    exact ⟨coherent.recalled, coherent.mirrored, fun _ _ known => by cases known⟩
  | move _ move ih => exact ih.move move

theorem Around.consistent (around : c.Around c') (consistent : c.Consistent) : c'.Consistent := by
  obtain ⟨-, same, table, -⟩ := around.quiet.same
  exact ⟨around.quiet.recalled consistent.recalled,
    consistent.mirrored.transfer same fun hop => by rw [table],
    consistent.used.of_eq around.tunnels⟩

theorem Consistent.switch_eq (consistent : c.Consistent) (consistent' : c'.Consistent)
    (done : History.done c'.env.trace = History.done c.env.trace) :
    c'.env.switch.calm = c.env.switch.calm := by
  have recalled : History.recalled c.env.trace = _ := consistent.recalled
  have recalled' : History.recalled c'.env.trace = _ := consistent'.recalled
  rw [← recalled, ← recalled', History.recalled_eq_foldl, History.recalled_eq_foldl, done]

end consistent

end Context

namespace Rule

variable {a : EniAttributes} {vip : Net.Prefix} {r : Rule} {c c' : Context}

/-- The rule is as near to where it aims as the calls made have brought it. -/
structure Nears (a : EniAttributes) (vip : Net.Prefix) (p p' : Rule × Context) : Prop where
  agrees : p.2.outlook.Agrees p'.2.outlook
  named : p'.1.key = p.1.key ∧ p'.1.role = p.1.role
  sound : p'.1.Sound
  consistent : p.2.Consistent → p'.2.Consistent
  aim : p'.1.aim p.2.outlook a = p.1.aim p.2.outlook a
  rises : ∀ hop : TunnelHop, target p.1.role a p.2.dpus = .ok ⟨.inCluster, hop.ip⟩ →
    Context.Rises hop (p.1.holds hop) p.2 (p'.1.holds hop) p'.2
  falls : ∀ hop : TunnelHop, target p.1.role a p.2.dpus ≠ .ok ⟨.inCluster, hop.ip⟩ →
    Context.Falls hop (p.1.holds hop) p.2 (p'.1.holds hop) p'.2
  calls : ∃ made, History.done p'.2.env.trace = History.done p.2.env.trace ++ made ∧
    p.1.agenda a vip p.2 = made ++ p'.1.agenda a vip p'.2

theorem Nears.refl {p : Rule × Context} (sound : p.1.Sound) : Nears a vip p p where
  agrees := .of_eq rfl
  named := ⟨rfl, rfl⟩
  sound := sound
  consistent := id
  aim := rfl
  rises _ _ := .of_eq rfl
  falls _ _ := .of_eq rfl
  calls := ⟨[], by simp, rfl⟩

theorem Nears.trans {p p' p'' : Rule × Context} (first : Nears a vip p p')
    (second : Nears a vip p' p'') : Nears a vip p p'' := by
  have dpus : p'.2.dpus = p.2.dpus := first.agrees.dpus
  have target_eq : target p'.1.role a p'.2.dpus = target p.1.role a p.2.dpus := by
    rw [first.named.2, dpus]
  have aim := second.aim
  rw [aim_eq first.agrees, aim_eq first.agrees, first.aim] at aim
  obtain ⟨made, done, agenda⟩ := first.calls
  obtain ⟨made', done', agenda'⟩ := second.calls
  constructor
  · exact first.agrees.trans second.agrees
  · exact ⟨second.named.1.trans first.named.1, second.named.2.trans first.named.2⟩
  · exact second.sound
  · exact second.consistent ∘ first.consistent
  · exact aim
  · exact fun hop aimed => (first.rises hop aimed).trans (second.rises hop (target_eq.trans aimed))
  · exact fun hop elsewhere => (first.falls hop elsewhere).trans
      (second.falls hop (by rw [target_eq]; exact elsewhere))
  · exact ⟨made ++ made', by rw [done', done, List.append_assoc],
      by rw [agenda, agenda', List.append_assoc]⟩

/-- An attempt to fire the rule, where the same can be looked up as before and the VIP is this one
or cannot be read. -/
def Attempt (a : EniAttributes) (vip : Net.Prefix) (result : Except Failure Unit)
    (p p' : Rule × Context) : Prop :=
  ∃ c, p.2.Around c ∧ (∀ known, c.outlook.vip? = .ok known → known = vip) ∧
    fire a (p.1, c) = (result, p')

def Fails (a : EniAttributes) (vip : Net.Prefix) (p p' : Rule × Context) : Prop :=
  ∃ e, Attempt a vip (.error e) p p'

/-- Attempts are made until one succeeds. -/
def Persists (a : EniAttributes) (vip : Net.Prefix) (p p' : Rule × Context) : Prop :=
  ∃ stopped, ReflTransGen (Fails a vip) p stopped ∧ Attempt a vip (.ok ()) stopped p'

section attempts

variable {p p' : Rule × Context} {result : Except Failure Unit}

theorem Attempt.nears (attempt : Attempt a vip result p p') (sound : p.1.Sound) : Nears a vip p p' := by
  obtain ⟨r, c⟩ := p
  obtain ⟨c₁, around, fixed, run⟩ := attempt
  obtain ⟨pursues, -⟩ := fire_arrives a c₁ sound
  obtain ⟨⟨made, makes, agenda⟩, -⟩ := fire_resumes a fixed sound
  obtain ⟨moves, -⟩ := @fire_leads r c₁ a sound
  rw [run] at pursues makes agenda moves
  have dpus : c₁.dpus = c.dpus := around.agrees.dpus
  have aim := pursues.aim
  rw [aim_eq around.agrees, aim_eq around.agrees] at aim
  constructor
  · exact around.agrees.trans (.of_eq pursues.steady.outlook)
  · exact pursues.named
  · exact moves.sound sound
  · exact fun consistent => .moves moves (around.consistent consistent)
  · exact aim
  · intro hop aimed
    have rises := pursues.rises hop (by rw [dpus]; exact aimed)
    unfold Context.Rises at rises ⊢
    rwa [around.users] at rises
  · intro hop elsewhere
    have falls := pursues.falls hop (by rw [dpus]; exact elsewhere)
    unfold Context.Falls at falls ⊢
    rwa [around.users] at falls
  · refine ⟨made, ?_, ?_⟩
    · rw [← around.trace]
      exact makes.done
    · rw [← agenda]
      exact (agenda_eq around.agrees around.base around.tunnels).symm

theorem Attempt.ends (attempt : Attempt a vip (.ok ()) p p') (sound : p.1.Sound) :
    p'.1 = p.1.aim p.2.outlook a ∧ p'.1.agenda a vip p'.2 = [] := by
  obtain ⟨c₁, around, fixed, run⟩ := attempt
  obtain ⟨-, arrived⟩ := (fire_arrives a c₁ sound).of_run run
  obtain ⟨-, done⟩ := (fire_resumes a fixed sound).of_run run
  exact ⟨arrived.trans (aim_eq around.agrees a p.1), done⟩

theorem nears_of_fails (fails : ReflTransGen (Fails a vip) p p') (sound : p.1.Sound) :
    Nears a vip p p' := by
  induction fails with
  | refl => exact .refl sound
  | tail _ fail ih =>
    obtain ⟨e, attempt⟩ := fail
    exact ih.trans (attempt.nears ih.sound)

/-- However often it was stopped, a rule ends where it aimed in the beginning, and the calls made are
those that it needed then. -/
theorem Persists.ends (persists : Persists a vip p p') (sound : p.1.Sound) :
    Nears a vip p p' ∧ p'.1 = p.1.aim p.2.outlook a ∧
      History.done p'.2.env.trace = History.done p.2.env.trace ++ p.1.agenda a vip p.2 := by
  obtain ⟨stopped, fails, attempt⟩ := persists
  have before := nears_of_fails fails sound
  obtain ⟨arrived, nothing⟩ := attempt.ends before.sound
  have nears := before.trans (attempt.nears before.sound)
  obtain ⟨made, done, agenda⟩ := nears.calls
  refine ⟨nears, ?_, ?_⟩
  · rw [arrived, aim_eq before.agrees, before.aim]
  · rw [done, agenda, nothing, List.append_nil]

end attempts

theorem Nears.users_eq {p p₁ p₂ : Rule × Context} (first : Nears a vip p p₁)
    (second : Nears a vip p p₂) (same : p₂.1 = p₁.1) (hop : TunnelHop) :
    p₂.2.users hop = p₁.2.users hop := by
  by_cases aimed : target p.1.role a p.2.dpus = .ok ⟨.inCluster, hop.ip⟩
  · have rises := (second.rises hop aimed).2
    rw [same] at rises
    exact rises.trans (first.rises hop aimed).2.symm
  · have falls := (second.falls hop aimed).2
    rw [same] at falls
    exact falls.trans (first.falls hop aimed).2.symm

/-- A rule that is fired until it succeeds ends as if it had been fired once and undisturbed: with
the same calls made in the same order, as the same rule, and with the same users of the tunnel next
hops and the same switch. Whatever has stopped it, once nothing fails it succeeds. -/
theorem interrupted_fire_resumes {role : Role} {key : String} {r : Rule} {c : Context}
    (reached : Reached role key r c) (worked : c.Worked) (a : EniAttributes) (vip : Net.Prefix) :
    (∀ stopped, ReflTransGen (Fails a vip) (r, c) stopped → ∀ c₁, stopped.2.Around c₁ →
      c₁.Willing → c₁.outlook.vip? = .ok vip → (fire a (stopped.1, c₁)).1 = .ok ()) ∧
    ∀ once final, Attempt a vip (.ok ()) (r, c) once → Persists a vip (r, c) final →
      final.1 = once.1 ∧
      History.done once.2.env.trace = History.done c.env.trace ++ r.agenda a vip c ∧
      History.done final.2.env.trace = History.done c.env.trace ++ r.agenda a vip c ∧
      (∀ hop, final.2.tunnels.refs? hop = once.2.tunnels.refs? hop) ∧
      final.2.env.switch.rules = once.2.env.switch.rules ∧
      final.2.env.switch.tunnels = once.2.env.switch.tunnels := by
  have sound : (r, c).1.Sound := reached.standing.sound
  constructor
  · intro stopped fails c₁ around willing readable
    have nears := nears_of_fails fails sound
    have consistent := around.consistent (nears.consistent worked.consistent)
    have obliging : c₁.Obliging := ⟨willing, consistent.mirrored, vip, readable⟩
    obtain ⟨⟨⟩, succeeds⟩ := fire_succeeds a obliging nears.sound
    exact succeeds
  · intro once final attempt persists
    obtain ⟨nears, arrived, done⟩ := Persists.ends ⟨_, .refl, attempt⟩ sound
    obtain ⟨nears', arrived', done'⟩ := persists.ends sound
    have same : final.1 = once.1 := arrived'.trans arrived.symm
    have consistent := nears.consistent worked.consistent
    have consistent' := nears'.consistent worked.consistent
    have switch := consistent.switch_eq consistent' (done'.trans done.symm)
    have rules : final.2.env.switch.calm.rules = once.2.env.switch.calm.rules := by rw [switch]
    have tunnels : final.2.env.switch.calm.tunnels = once.2.env.switch.calm.tunnels := by rw [switch]
    exact ⟨same, done, done',
      fun hop => Context.refs?_eq consistent.used consistent'.used (nears.users_eq nears' same hop),
      rules, tunnels⟩

def sampleVip : Net.Prefix := ⟨.v4 ⟨10, 2, 0, 1⟩, 32, by decide⟩

def sampleStopped : Rule × Context := (fire (sampleAttributes 3) sampleBlocked).2

theorem sample_interrupted_fire_resumes :
    Reached .inbound "rule" sampleFired.1 sampleFired.2 ∧ sampleFired.2.Worked ∧
      (sampleFired.1.agenda (sampleAttributes 3) sampleVip sampleFired.2).map Call.kind =
        [.deleteRule, .removeTunnel, .createTunnel, .setRule] ∧
      Fails (sampleAttributes 3) sampleVip sampleFired sampleStopped ∧
      ∃ once final, Attempt (sampleAttributes 3) sampleVip (.ok ()) sampleFired once ∧
        Attempt (sampleAttributes 3) sampleVip (.ok ()) sampleStopped final ∧ final.1 = once.1 ∧
        History.done final.2.env.trace = History.done once.2.env.trace ∧
        final.2.env.switch.rules = once.2.env.switch.rules := by
  let a := sampleAttributes 3
  have new : Reached .inbound "rule" (ofRole .inbound "rule") sampleContext := .new (by decide +kernel)
  have reached : Reached .inbound "rule" sampleFired.1 sampleFired.2 := .fire (sampleAttributes 2) new
  have populated : Moves a (ofRole .inbound "rule", _) (ofRole .inbound "rule", sampleContext) :=
    Moves.of_quiet (ofRole .inbound "rule") (Context.quietly_populate
      (.ofEnvironment (.ofInventory Reconciler.sampleInventory) "ENI" 10)).1
  have worked : sampleFired.2.Worked :=
    .moves (fire_leads (sampleAttributes 2) new.standing.sound).1 (.moves populated (.start _ _ _))
  -- the VIP has been found when the rule was installed
  have fixed : ∀ c : Context, c.vip = some sampleVip →
      ∀ known, c.outlook.vip? = .ok known → known = sampleVip := fun c found known readable =>
    Except.ok.inj (readable.symm.trans (Context.vip?_of_known found))
  let calm (p : Rule × Context) : Context := p.2.surround p.2.env.inventory .none false false
  have attempt : ∀ p result, (calm p).vip = some sampleVip → (fire a (p.1, calm p)).1 = result →
      Attempt a sampleVip result p (fire a (p.1, calm p)).2 := fun p result found ends =>
    ⟨calm p, p.2.around_surround _ _ _, fixed _ found, Prod.ext ends rfl⟩
  have once := attempt sampleFired (.ok ()) (by decide +kernel) (by decide +kernel)
  have final := attempt sampleStopped (.ok ()) (by decide +kernel) (by decide +kernel)
  have fails : Fails a sampleVip sampleFired sampleStopped := by
    cases ended : (fire a sampleBlocked).1 with
    | ok _ =>
      have blocked : (fire a sampleBlocked).1 ≠ .ok () := by decide +kernel
      exact absurd ended blocked
    | error e =>
      exact ⟨e, sampleBlocked.2, sampleFired.2.around_surround _ _ _, fixed _ (by decide +kernel),
        Prod.ext ended rfl⟩
  obtain ⟨-, agrees⟩ := interrupted_fire_resumes reached worked a sampleVip
  obtain ⟨same, done, done', -, rules, -⟩ := agrees _ _ once ⟨_, .single fails, final⟩
  exact ⟨reached, worked, by decide +kernel, fails, _, _, once, final, same, done'.trans done.symm, rules⟩

end Rule

end EniForwarding
