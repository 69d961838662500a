import EniForwarding.Action
import Mathlib.Order.Defs.Unbundled

/-! Where actions lead.

An action changes its state also when it fails, so what is said of it comes in two
parts: a relation between the states before and after, which holds in any case, and a
description of the value and the state after a success. The relation goes through a
sequence of actions because it is a preorder.
-/

set_option autoImplicit false

namespace EniForwarding.Action

section runs

variable {σ α β : Type}

@[simp]
theorem run_pure (a : α) (s : σ) : (pure a : Action σ α) s = (.ok a, s) := rfl

@[simp]
theorem run_bind (x : Action σ α) (f : α → Action σ β) (s : σ) :
    (x >>= f) s = match x s with
      | (.ok a, s) => f a s
      | (.error e, s) => (.error e, s) := rfl

@[simp]
theorem run_get (s : σ) : (get : Action σ σ) s = (.ok s, s) := rfl

@[simp]
theorem run_modify (f : σ → σ) (s : σ) : modify f s = (.ok (), f s) := rfl

@[simp]
theorem run_fail (e : Failure) (s : σ) : (fail e : Action σ α) s = (.error e, s) := rfl

@[simp]
theorem run_lift (r : Except Failure α) (s : σ) : lift r s = (r, s) := rfl

theorem sweep_nil {ρ τ : Type} (x : Action (ρ × τ) Unit) (t : τ) :
    sweep x ([], t) = (.ok (), [], t) := by
  rw [sweep]

theorem sweep_cons {ρ τ : Type} {x : Action (ρ × τ) Unit} {item item' : ρ} {rest rest' : List ρ}
    {t t' t'' : τ} {first second : Except Failure Unit}
    (worked : x (item, t) = (first, item', t'))
    (swept : sweep x (rest, t') = (second, rest', t'')) :
    sweep x (item :: rest, t) = (firstFailure first second, item' :: rest', t'') := by
  simp only [sweep, worked, swept]

theorem run_sweep_cons {ρ τ : Type} (x : Action (ρ × τ) Unit) (item : ρ) (rest : List ρ) (t : τ) :
    sweep x (item :: rest, t) =
      let worked := x (item, t)
      let swept := sweep x (rest, worked.2.2)
      (firstFailure worked.1 swept.1, worked.2.1 :: swept.2.1, swept.2.2) :=
  sweep_cons rfl rfl

end runs

/-- However the action ends, its state is one that the relation leads to, and a success
leaves the value and the state that are described. -/
def Leads {σ α : Type} (R : σ → σ → Prop) (x : Action σ α) (s : σ) (after : α → σ → Prop) : Prop :=
  R s (x s).2 ∧ ∀ a, (x s).1 = .ok a → after a (x s).2

namespace Leads

variable {σ α β : Type} {R : σ → σ → Prop} {x : Action σ α} {f : α → Action σ β} {s : σ}
  {after : α → σ → Prop}

theorem of_ok {a : α} {s' : σ} (run : x s = (.ok a, s')) (reached : R s s')
    (described : after a s') : Leads R x s after := by
  rw [Leads, run]
  refine ⟨reached, fun b same => ?_⟩
  cases same
  exact described

theorem of_error {e : Failure} {s' : σ} (run : x s = (.error e, s')) (reached : R s s') :
    Leads R x s after := by
  rw [Leads, run]
  exact ⟨reached, by simp⟩

theorem weaken {after' : α → σ → Prop} (leads : Leads R x s after)
    (weaker : ∀ a s', after a s' → after' a s') : Leads R x s after' :=
  ⟨leads.1, fun a success => weaker a _ (leads.2 a success)⟩

theorem bind_from [IsTrans σ R] {after' : β → σ → Prop} (first : Leads R x s after)
    (second : ∀ a s', R s s' → after a s' → Leads R (f a) s' after') :
    Leads R (x >>= f) s after' := by
  unfold Leads at first ⊢
  rw [run_bind]
  generalize x s = outcome at first ⊢
  obtain ⟨result, s'⟩ := outcome
  obtain ⟨reached, described⟩ := first
  cases result with
  | error e => exact ⟨reached, by simp⟩
  | ok a =>
    obtain ⟨further, final⟩ := second a s' reached (described a rfl)
    exact ⟨IsTrans.trans _ _ _ reached further, final⟩

theorem bind [IsTrans σ R] {after' : β → σ → Prop} (first : Leads R x s after)
    (second : ∀ a s', after a s' → Leads R (f a) s' after') : Leads R (x >>= f) s after' :=
  bind_from first fun a s' _ => second a s'

theorem pure [Std.Refl R] {a : α} (described : after a s) : Leads R (pure a) s after :=
  ⟨refl s, fun b same => by cases same; exact described⟩

theorem modify {g : σ → σ} {after : Unit → σ → Prop} (reached : R s (g s))
    (described : after () (g s)) : Leads R (modify g) s after :=
  ⟨reached, fun _ _ => described⟩

theorem modify_bind [IsTrans σ R] {g : σ → σ} {f : Unit → Action σ β} {after : β → σ → Prop}
    (reached : R s (g s)) (second : Leads R (f ()) (g s) after) :
    Leads R (Action.modify g >>= f) s after :=
  ⟨IsTrans.trans _ _ _ reached second.1, second.2⟩

theorem get_bind {f : σ → Action σ β} {after : β → σ → Prop} (second : Leads R (f s) s after) :
    Leads R (get >>= f) s after :=
  second

theorem lift_bind [Std.Refl R] {r : Except Failure α} {after : β → σ → Prop}
    (second : ∀ a, r = .ok a → Leads R (f a) s after) : Leads R (lift r >>= f) s after := by
  cases r with
  | error e => exact ⟨refl s, by simp⟩
  | ok a => exact second a rfl

theorem of_run {a : α} {s' : σ} (leads : Leads R x s after) (run : x s = (.ok a, s')) :
    R s s' ∧ after a s' := by
  unfold Leads at leads
  rw [run] at leads
  exact ⟨leads.1, leads.2 a rfl⟩

theorem visit [Std.Refl R] [IsTrans σ R] {items : List α} {f : α → Action σ Unit}
    (leads : ∀ a s, (f a).Leads R s fun _ _ => True) (s : σ) :
    (Action.visit f items).Leads R s fun _ _ => True := by
  induction items generalizing s with
  | nil => exact .pure trivial
  | cons a rest ih =>
    exact ⟨IsTrans.trans _ _ _ (leads a s).1 (ih (f a s).2).1, fun _ _ => trivial⟩

end Leads

def Succeeds {σ α : Type} (x : Action σ α) (s : σ) : Prop := ∃ a, (x s).1 = .ok a

namespace Succeeds

variable {σ α β : Type} {x : Action σ α} {f : α → Action σ β} {s : σ}

theorem of_ok {a : α} {s' : σ} (run : x s = (.ok a, s')) : Succeeds x s := ⟨a, by rw [run]⟩

theorem not_error {e : Failure} {s' : σ} (succeeds : Succeeds x s) : x s ≠ (.error e, s') := by
  intro failed
  obtain ⟨a, succeeds⟩ := succeeds
  rw [failed] at succeeds
  cases succeeds

theorem pure (a : α) (s : σ) : Succeeds (pure a) s := ⟨a, rfl⟩

theorem modify (g : σ → σ) (s : σ) : Succeeds (Action.modify g) s := ⟨(), rfl⟩

theorem bind (first : Succeeds x s) (second : ∀ a s', x s = (.ok a, s') → Succeeds (f a) s') :
    Succeeds (x >>= f) s := by
  obtain ⟨a, ok⟩ := first
  have run : x s = (.ok a, (x s).2) := Prod.ext ok rfl
  obtain ⟨b, ok'⟩ := second a _ run
  refine ⟨b, ?_⟩
  rw [run_bind, run]
  exact ok'

theorem get_bind {f : σ → Action σ β} (second : Succeeds (f s) s) : Succeeds (get >>= f) s := second

end Succeeds

section sweep

variable {ρ τ : Type} {R : τ → τ → Prop} [Std.Refl R] [IsTrans τ R] {P : ρ → Prop}
  {x : Action (ρ × τ) Unit} (leads : ∀ r t, P r → R t (x (r, t)).2.2)

include leads

theorem sweep_reaches {items : List ρ} (t : τ) (fit : ∀ r ∈ items, P r) :
    R t (sweep x (items, t)).2.2 := by
  induction items generalizing t with
  | nil =>
    rw [sweep_nil]
    exact refl t
  | cons r rest ih =>
    obtain ⟨head, tail⟩ := List.forall_mem_cons.1 fit
    rw [run_sweep_cons]
    exact IsTrans.trans _ _ _ (leads r t head) (ih _ tail)

/-- In a sweep each item has its turn: some state leads to it, and it leads on from there. -/
theorem sweep_member {items : List ρ} {item : ρ} (member : item ∈ items) (t : τ)
    (fit : ∀ r ∈ items, P r) :
    ∃ t', R t t' ∧ (x (item, t')).2.1 ∈ (sweep x (items, t)).2.1 ∧
      R (x (item, t')).2.2 (sweep x (items, t)).2.2 := by
  induction items generalizing t with
  | nil => cases member
  | cons r rest ih =>
    obtain ⟨head, tail⟩ := List.forall_mem_cons.1 fit
    rw [run_sweep_cons]
    rcases List.mem_cons.1 member with rfl | later
    · exact ⟨t, refl t, List.mem_cons_self, sweep_reaches leads _ tail⟩
    · obtain ⟨t', before, swept, after⟩ := ih later (x (r, t)).2.2 tail
      exact ⟨t', IsTrans.trans _ _ _ (leads r t head) before, List.mem_cons_of_mem _ swept, after⟩

end sweep

section turns

variable {ρ τ : Type} {I : τ → Prop} {P : ρ → Prop} {x : Action (ρ × τ) Unit}
  (keeps : ∀ r t, P r → I t → I (x (r, t)).2.2)

include keeps

/-- What every turn keeps holds at every turn of a sweep; each item has one, and from nowhere else
comes what is there in the end. -/
theorem sweep_turns {items : List ρ} {t : τ} (fit : ∀ r ∈ items, P r) (holds : I t) :
    I (sweep x (items, t)).2.2 ∧
      (∀ r ∈ items, ∃ t', I t' ∧ (x (r, t')).2.1 ∈ (sweep x (items, t)).2.1) ∧
      ∀ r' ∈ (sweep x (items, t)).2.1, ∃ r ∈ items, ∃ t', I t' ∧ (x (r, t')).2.1 = r' := by
  induction items generalizing t with
  | nil =>
    rw [sweep_nil]
    exact ⟨holds, by simp, by simp⟩
  | cons r rest ih =>
    obtain ⟨head, tail⟩ := List.forall_mem_cons.1 fit
    obtain ⟨final, turns, comes⟩ := ih tail (keeps r t head holds)
    rw [run_sweep_cons]
    refine ⟨final, fun item member => ?_, fun item member => ?_⟩
    · rcases List.mem_cons.1 member with rfl | later
      · exact ⟨t, holds, List.mem_cons_self⟩
      · obtain ⟨t', holds', among⟩ := turns item later
        exact ⟨t', holds', List.mem_cons_of_mem _ among⟩
    · rcases List.mem_cons.1 member with rfl | later
      · exact ⟨r, List.mem_cons_self, t, holds, rfl⟩
      · obtain ⟨r', among, t', holds', same⟩ := comes item later
        exact ⟨r', List.mem_cons_of_mem _ among, t', holds', same⟩

end turns

section visit

variable {σ α : Type} {R : σ → σ → Prop} [Std.Refl R] [IsTrans σ R] {f : α → Action σ Unit} {a : α}
  (leads : ∀ b s, b ≠ a → R s (f b s).2)

include leads

theorem visit_others {items : List α} (absent : a ∉ items) (s : σ) : R s (visit f items s).2 := by
  induction items generalizing s with
  | nil => exact refl s
  | cons b rest ih =>
    obtain ⟨apart, absent⟩ := not_or.1 (mt List.mem_cons.2 absent)
    exact IsTrans.trans _ _ _ (leads b s (Ne.symm apart)) (ih absent _)

theorem visit_member {items : List α} (distinct : items.Nodup) (member : a ∈ items) (s : σ) :
    ∃ s', R s s' ∧ R (f a s').2 (visit f items s).2 := by
  induction items generalizing s with
  | nil => cases member
  | cons b rest ih =>
    obtain ⟨once, distinct⟩ := List.nodup_cons.1 distinct
    by_cases here : b = a
    · subst here
      exact ⟨s, refl s, visit_others leads once _⟩
    · have later := (List.mem_cons.1 member).resolve_left (Ne.symm here)
      obtain ⟨s', before, after⟩ := ih distinct later (f b s).2
      exact ⟨s', IsTrans.trans _ _ _ (leads b s here) before, after⟩

end visit

end EniForwarding.Action
