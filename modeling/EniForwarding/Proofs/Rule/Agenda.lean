import EniForwarding.Proofs.Rule.Frame
import EniForwarding.Proofs.Rule.Surroundings

/-! The calls that a rule still needs.

What firing a rule asks of the switch can be told beforehand: a rule that is on the switch
and leads elsewhere is deleted, what it holds is given back, what its next hop needs is
taken hold of, and the rule is written. However far the firing gets, the calls that it has
made are the first ones of this list, and the rule that it leaves needs the others.
-/

set_option autoImplicit false

namespace EniForwarding

def Event.IsCall : Event → Prop
  | .called .. => True
  | _ => False

namespace Context

/-- What can be looked up stays, and these are the calls made with success, the oldest first. -/
structure Makes (calls : List Call) (c c' : Context) : Prop extends Steady c c' where
  base : c'.basePriority = c.basePriority
  done : History.done c'.env.trace = History.done c.env.trace ++ calls

section makes

variable {c c' c'' : Context} {calls calls' : List Call}

theorem Makes.refl (c : Context) : c.Makes [] c := ⟨Std.Refl.refl c, rfl, by simp⟩

theorem Makes.trans (first : c.Makes calls c') (second : c'.Makes calls' c'') :
    c.Makes (calls ++ calls') c'' where
  toSteady := IsTrans.trans _ _ _ first.toSteady second.toSteady
  base := second.base.trans first.base
  done := by rw [second.done, first.done, List.append_assoc]

instance : Std.Refl (Makes []) := ⟨Makes.refl⟩

instance : IsTrans Context (Makes []) := ⟨fun _ _ _ => Makes.trans⟩

theorem Makes.dpus (makes : c.Makes calls c') : c'.dpus = c.dpus :=
  congrArg Outlook.dpus makes.outlook

theorem Makes.agrees (makes : c.Makes calls c') : c.outlook.Agrees c'.outlook := .of_eq makes.outlook

theorem Without.done_eq (without : c.Without Event.IsCall c') :
    History.done c'.env.trace = History.done c.env.trace := by
  obtain ⟨new, trace, uncalled⟩ := without
  have nothing : History.done new = [] :=
    List.eq_nil_iff_forall_not_mem.2 fun call made => uncalled _ (History.mem_done.1 made) trivial
  rw [trace, History.done_append, nothing, List.append_nil]

end makes

/-- No call is made, whether with success or not, and the switch and the users of tunnel next hops
stay. -/
structure Inert (c c' : Context) : Prop extends Still c c' where
  uncalled : c.Without Event.IsCall c'
  switch : c'.env.switch = c.env.switch
  base : c'.basePriority = c.basePriority

instance : Std.Refl Inert := ⟨fun c => ⟨refl c, refl c, rfl, rfl⟩⟩

instance : IsTrans Context Inert := by
  constructor
  intro c c' c'' first second
  exact ⟨IsTrans.trans _ _ _ first.toStill second.toStill,
    IsTrans.trans _ _ _ first.uncalled second.uncalled, second.switch.trans first.switch,
    second.base.trans first.base⟩

section inert

variable {c c' : Context}

theorem Inert.makes (inert : c.Inert c') : c.Makes [] c' :=
  ⟨inert.toSteady, inert.base, by rw [inert.uncalled.done_eq, List.append_nil]⟩

theorem alias_inert (ip : Net.Address) (c : Context) : c.Inert (Context.«alias» ip c).2 := by
  have still := (steadily_alias ip c).1
  rcases alias_cases ip c with ⟨name, -, run⟩ | ⟨-, -, run⟩ | ⟨name, -, -, run⟩ <;>
    rw [run] at still ⊢
  · exact refl c
  · exact ⟨still, .of_eq rfl, rfl, rfl⟩
  · exact ⟨still, .of_eq rfl, rfl, rfl⟩

theorem findVip_inert (c : Context) : c.Inert (findVip c).2 := by
  have still := (steadily_findVip c).1
  rcases c.findVip_cases with ⟨vip, -, run⟩ | ⟨e, -, -, run⟩ | ⟨vip, -, -, run⟩ <;>
    rw [run] at still ⊢
  · exact refl c
  · exact refl c
  · exact ⟨still, .of_eq rfl, rfl, rfl⟩

theorem ask_inert (n : Neighbor) (c : Context) : c.Inert (ask n c).2 :=
  ⟨c.still_noted (.asked n), .cons rfl id, rfl, rfl⟩

theorem reach_inert (ip : Net.Address) (c : Context) : c.Inert (NextHop.reach ip c).2 := by
  have looked : (Context.«alias» ip).Leads Inert c fun _ _ => True :=
    ⟨alias_inert ip c, fun _ _ => trivial⟩
  have leads : (NextHop.reach ip).Leads Inert c fun _ _ => True := by
    refine .bind looked ?_
    rintro (- | name) c' -
    · exact .pure trivial
    · refine .get_bind ?_
      split
      · exact .pure trivial
      · have asked : (ask ⟨ip, name⟩).Leads Inert c' fun _ _ => True :=
          ⟨ask_inert _ c', fun _ _ => trivial⟩
        exact .bind asked fun _ _ _ => .pure trivial
  exact leads.1

end inert

def leaving (c : Context) (hop : TunnelHop) : List Call :=
  match c.tunnels.get? hop with
  | none => []
  | some use => if 1 < use.refs then [] else [.removeTunnel hop]

def joining (c : Context) (hop : TunnelHop) : List Call :=
  if c.tunnels.contains hop then [] else [.createTunnel hop]

section tunnels

variable (c : Context) (hop : TunnelHop)

theorem makes_refusal (call : Call) (message : String) (record : Audit.Record) :
    c.Makes [] ((c.refused call message).noted (.audited record)) where
  toSteady := (c.still_refusal call message _).toSteady
  base := rfl
  done := (List.append_nil _).symm

theorem release_makes :
    (∃ e c', release hop c = (.error e, c') ∧ c.Makes [] c' ∧ c'.tunnels = c.tunnels) ∨
      ∃ c', release hop c = (.ok (), c') ∧ c.Makes (c.leaving hop) c' ∧
        ∀ other, other ≠ hop → c'.tunnels.get? other = c.tunnels.get? other := by
  unfold leaving
  cases known : c.tunnels.get? hop with
  | none =>
    refine .inr ⟨_, release_unknown known, ⟨?_, rfl, ?_⟩, fun _ _ => rfl⟩
    · exact (c.still_noted _).toSteady
    · exact (List.append_nil _).symm
  | some use =>
    by_cases shared : 1 < use.refs
    · refine .inr ⟨_, release_shared known shared, ⟨?_, rfl, ?_⟩, fun other apart => ?_⟩
      · exact .of_eq c rfl rfl rfl
      · simp [shared, left, Environment.record, History.done]
      · exact SortedMap.get?_insert_ne _ _ apart
    · rcases release_last known shared with ⟨message, record, refusal⟩ | ⟨switch, done, carried⟩
      · exact .inl ⟨_, _, refusal, c.makes_refusal _ message record, rfl⟩
      · refine .inr ⟨_, carried, ⟨.of_accepted c done rfl rfl rfl, rfl, ?_⟩, fun other apart => ?_⟩
        · simp [shared, abandoned, Environment.record, Environment.audit, Environment.accepted,
            History.done]
        · exact SortedMap.get?_erase_ne _ apart

theorem acquire_makes :
    (∃ e c', acquire hop c = (.error e, c') ∧ c.Makes [] c' ∧ c'.tunnels = c.tunnels) ∨
      ∃ handle c', acquire hop c = (.ok handle, c') ∧ c.Makes (c.joining hop) c' := by
  cases known : c.tunnels.get? hop with
  | some use =>
    refine .inr ⟨_, _, acquire_known known, .of_eq c rfl rfl rfl, rfl, ?_⟩
    simp [joining, SortedMap.contains, known, joined, Environment.record, History.done]
  | none =>
    rcases acquire_unknown known with ⟨message, record, refusal⟩ | ⟨switch, done, carried⟩
    · exact .inl ⟨_, _, refusal, c.makes_refusal _ message record, rfl⟩
    · refine .inr ⟨_, _, carried, .of_accepted c done rfl rfl rfl, rfl, ?_⟩
      simp [joining, SortedMap.contains, known, founded, Environment.record, Environment.audit,
        Environment.accepted, History.done]

end tunnels

end Context

namespace NextHop

/-- The calls by which what a next hop holds is given back. -/
def leaving (h : NextHop) (c : Context) : List Call := h.hop?.elim [] c.leaving

/-- The calls by which a next hop takes hold of what it needs and does not hold yet. -/
def joining (h : NextHop) (c : Context) : List Call :=
  if h.hop?.isSome then [] else (h.settled c.outlook).hop?.elim [] c.joining

theorem release_makes (h : NextHop) (c : Context) :
    (∃ e c', h.release c = (.error e, c') ∧ c.Makes [] c' ∧ c'.tunnels = c.tunnels) ∨
      ∃ h' c', h.release c = (.ok h', c') ∧ c.Makes (h.leaving c) c' ∧
        ∀ other, h.hop? ≠ some other → c'.tunnels.get? other = c.tunnels.get? other := by
  rcases h with ⟨ip, resolved⟩ | ⟨ip, vnet, _ | tunnel⟩
  · exact .inr ⟨_, c, rfl, .refl c, fun _ _ => rfl⟩
  · exact .inr ⟨_, c, rfl, .refl c, fun _ _ => rfl⟩
  · simp only [release, Action.run_bind]
    rcases c.release_makes ⟨ip, tunnel⟩ with
      ⟨e, c', run, makes, same⟩ | ⟨c', run, makes, others⟩
    · exact .inl ⟨e, c', by rw [run], makes, same⟩
    · refine .inr ⟨_, c', by rw [run]; rfl, makes, fun other apart => others other ?_⟩
      rintro rfl
      exact apart rfl

theorem resolve_makes (h : NextHop) (c : Context) :
    (∃ e c', h.resolve c = (.error e, c') ∧ c.Makes [] c' ∧ c'.tunnels = c.tunnels) ∨
      ∃ c', h.resolve c = (.ok (h.settled c.outlook), c') ∧ c.Makes (h.joining c) c' := by
  rcases h with ⟨ip, resolved⟩ | ⟨ip, vnet, _ | tunnel⟩
  · obtain ⟨answer, reached⟩ := Context.reach_succeeds ip c
    obtain ⟨-, described⟩ := Context.steadily_reach ip c
    have makes := (Context.reach_inert ip c).makes
    have told : answer = c.outlook.reaches ip := described answer reached
    have run : reach ip c = (.ok answer, (reach ip c).2) := Prod.ext reached rfl
    generalize (reach ip c).2 = c' at makes run
    refine .inr ⟨c', ?_, makes⟩
    simp only [resolve, Action.run_bind, run, told]
    rfl
  · simp only [resolve, Action.run_bind, Action.run_get]
    have settled : (tunnelled ip vnet none).settled c.outlook =
        .tunnelled ip vnet (c.env.inventory.tunnel? vnet) := rfl
    have joins : (tunnelled ip vnet none).joining c =
        ((c.env.inventory.tunnel? vnet).map (⟨ip, ·⟩)).elim [] c.joining := rfl
    rw [settled, joins]
    cases c.env.inventory.tunnel? vnet with
    | none => exact .inr ⟨c, rfl, .refl c⟩
    | some tunnel =>
      simp only [Action.run_bind]
      rcases c.acquire_makes ⟨ip, tunnel⟩ with
        ⟨e, c', run, makes, same⟩ | ⟨handle, c', run, makes⟩
      · exact .inl ⟨e, c', by rw [run], makes, same⟩
      · exact .inr ⟨c', by rw [run]; rfl, makes⟩
  · exact .inr ⟨c, rfl, .refl c⟩

end NextHop

namespace Rule

section steps

variable (r : Rule) (c : Context)

theorem uninstall_makes (category : Audit.Category) :
    (∃ e c', uninstall category (r, c) = (.error e, r, c') ∧ c.Makes [] c' ∧
        c'.tunnels = c.tunnels) ∨
      ∃ c', uninstall category (r, c) = (.ok (), { r with state := .uninstalled }, c') ∧
        c.Makes [.deleteRule r.key] c' ∧ c'.tunnels = c.tunnels := by
  rcases uninstall_cases category r c with ⟨message, e, record, lost⟩ | ⟨switch, done, carried⟩
  · exact .inl ⟨e, _, lost, c.makes_refusal _ message record, rfl⟩
  · exact .inr ⟨_, carried, ⟨.of_accepted c done rfl rfl rfl, rfl, rfl⟩, rfl⟩

theorem dropNextHop_makes :
    (∃ e c', dropNextHop (r, c) = (.error e, r, c') ∧ c.Makes [] c' ∧ c'.tunnels = c.tunnels) ∨
      ∃ c', dropNextHop (r, c) = (.ok (), { r with nextHop := none }, c') ∧
        c.Makes (r.nextHop.elim [] (·.leaving c)) c' ∧
        ∀ other, r.hop? ≠ some other → c'.tunnels.get? other = c.tunnels.get? other := by
  cases leads : r.nextHop with
  | none =>
    have same : ({ r with nextHop := none } : Rule) = r := by rw [← leads]
    exact .inr ⟨c, by rw [same, dropNextHop_of_none leads], .refl c, fun _ _ => rfl⟩
  | some hop =>
    have held : r.hop? = hop.hop? := by simp [hop?, leads]
    rw [run_dropNextHop leads, held]
    rcases hop.release_makes c with ⟨e, c', run, makes, same⟩ | ⟨hop', c', run, makes, others⟩
    · exact .inl ⟨e, c', by rw [run], makes, same⟩
    · exact .inr ⟨c', by rw [run], makes, others⟩

theorem install_makes (a : EniAttributes) (change : Change) (redirect : String) :
    (∃ e c', install a change redirect (r, c) = (.error e, r, c') ∧ c.Makes [] c' ∧
        c'.tunnels = c.tunnels) ∨
      ∃ vip c', install a change redirect (r, c) = (.ok (), { r with state := .installed }, c') ∧
        c.outlook.vip? = .ok vip ∧ c'.tunnels = c.tunnels ∧
        c.Makes [.setRule r.key (fields r.role a c.basePriority vip redirect)] c' := by
  have looked := c.findVip_inert.makes
  obtain ⟨still, described⟩ := Context.steadily_findVip c
  have tunnels := still.tunnels
  cases found : (Context.findVip c).1 with
  | error e =>
    have run : Context.findVip c = (.error e, (Context.findVip c).2) := Prod.ext found rfl
    generalize (Context.findVip c).2 = c' at looked tunnels run
    refine .inl ⟨e, c', ?_, looked, tunnels⟩
    simp only [install, Action.run_bind, Action.onSecond, run]
  | ok vip =>
    obtain ⟨readable, -⟩ := described vip found
    have run : Context.findVip c = (.ok vip, (Context.findVip c).2) := Prod.ext found rfl
    generalize (Context.findVip c).2 = c' at looked tunnels run
    rw [← looked.base]
    rcases c'.setRule_cases r.key (fields r.role a c'.basePriority vip redirect) with
      ⟨message, e, refused⟩ | ⟨switch, done, carried⟩
    · let record := (r.record .resourceCreate "install_rule").withError e.message
      have lost : install a change redirect (r, c) = (.error e, r,
          (c'.refused (.setRule r.key (fields r.role a c'.basePriority vip redirect)) message).noted
            (.audited record)) := by
        simp only [install, Action.run_bind, Action.onSecond, run, Action.run_get,
          Context.auditFailure, Action.onFailure, refused]
        rfl
      exact .inl ⟨e, _, lost, looked.trans (c'.makes_refusal _ message record), tunnels⟩
    · obtain ⟨record, written⟩ : ∃ record, install a change redirect (r, c) =
          (.ok (), { r with state := .installed },
            (c'.installed r.key (fields r.role a c'.basePriority vip redirect) switch).noted
              (.audited record)) := by
        simp only [install, Action.run_bind, Action.onSecond, run, Action.run_get,
          Context.auditFailure, Action.onFailure, carried, Context.run_audit]
        exact ⟨_, rfl⟩
      exact .inr ⟨vip, _, written, readable, tunnels,
        looked.trans ⟨.of_accepted c' done rfl rfl rfl, rfl, rfl⟩⟩

end steps

def departing (r : Rule) (t : Target) (c : Context) : List Call :=
  r.nextHop.elim [] fun hop => if hop.LeadsTo t then [] else hop.leaving c

/-- The calls by which a rule that is off the switch takes hold of a next hop and is written, if
the next hop can be used. -/
def settling (a : EniAttributes) (vip : Net.Prefix) (r : Rule) (c : Context) (hop : NextHop) :
    List Call :=
  hop.joining c ++
    if (hop.settled c.outlook).isResolved then
      [.setRule r.key (fields r.role a c.basePriority vip (hop.settled c.outlook).target)]
    else []

/-- The calls that firing the rule makes if none of them fails, with this VIP. -/
def agenda (a : EniAttributes) (vip : Net.Prefix) (r : Rule) (c : Context) : List Call :=
  if r.state = .failed then []
  else
    match target r.role a c.dpus with
    | .error _ => []
    | .ok t =>
      if r.change t = .none then []
      else
        (if r.state = .installed then [.deleteRule r.key] else []) ++ r.departing t c ++
          settling a vip r c (r.heading t a.key.vnet)

variable {a : EniAttributes} {vip : Net.Prefix} {r : Rule} {c c' : Context} {t : Target}

section agenda

theorem agenda_of_target (live : r.state ≠ .failed) (aimed : target r.role a c.dpus = .ok t) :
    r.agenda a vip c =
      if r.change t = .none then []
      else
        (if r.state = .installed then [.deleteRule r.key] else []) ++ r.departing t c ++
          settling a vip r c (r.heading t a.key.vnet) := by
  simp only [agenda, live, if_false, aimed]

theorem agenda_of_off (off : r.state ≠ .installed) (live : r.state ≠ .failed)
    (aimed : target r.role a c.dpus = .ok t) :
    r.agenda a vip c = r.departing t c ++ settling a vip r c (r.heading t a.key.vnet) := by
  rw [agenda_of_target live aimed, if_neg (change_ne_none_of_off off), if_neg off, List.nil_append]

theorem joining_of_settled {hop : NextHop} (stays : hop.settled c.outlook = hop) :
    hop.joining c = [] := by
  unfold NextHop.joining
  rw [stays]
  cases held : hop.hop? <;> simp

theorem agenda_of_settled {hop : NextHop} (off : r.state ≠ .installed) (live : r.state ≠ .failed)
    (aimed : target r.role a c.dpus = .ok t) (leads : r.nextHop = some hop) (onto : hop.LeadsTo t)
    (stays : hop.settled c.outlook = hop) :
    r.agenda a vip c =
      if hop.isResolved then [.setRule r.key (fields r.role a c.basePriority vip hop.target)]
      else [] := by
  rw [agenda_of_off off live aimed, heading_of_leadsTo _ leads onto]
  simp only [departing, leads, Option.elim_some, if_pos onto, settling, joining_of_settled stays, stays,
    List.nil_append]

/-- A rule that has got where it aims needs no calls. -/
theorem agenda_arrived {hop : NextHop} (aimed : target r.role a c.dpus = .ok t)
    (onto : hop.LeadsTo t) (stays : hop.settled c.outlook = hop) :
    (r.arrived hop).agenda a vip c = [] := by
  have live := arrived_state_ne_failed r hop
  by_cases resolved : hop.isResolved = true
  · rw [agenda_of_target live aimed,
      if_pos (change_eq_none_iff.2 ⟨hop, rfl, onto, resolved, by simp [arrived, resolved]⟩)]
  · have off : (r.arrived hop).state ≠ .installed := by simp [arrived, resolved]
    rw [agenda_of_settled off live aimed rfl onto stays, if_neg resolved]

/-- What is left to do is told by what can be looked up and by the table of tunnel next hops. -/
theorem agenda_eq (agrees : c.outlook.Agrees c'.outlook) (base : c'.basePriority = c.basePriority)
    (tunnels : c'.tunnels = c.tunnels) : r.agenda a vip c' = r.agenda a vip c := by
  have dpus : c'.dpus = c.dpus := agrees.dpus
  have leaving : c'.leaving = c.leaving := by
    funext hop
    simp only [Context.leaving, tunnels]
  have joining : c'.joining = c.joining := by
    funext hop
    simp only [Context.joining, tunnels]
  simp only [agenda, departing, settling, NextHop.leaving, NextHop.joining, leaving, joining,
    dpus, NextHop.settled_eq agrees, base]

end agenda

end Rule

end EniForwarding
