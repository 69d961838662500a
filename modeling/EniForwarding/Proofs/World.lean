import EniForwarding.Reconciler
import EniForwarding.Proofs.Names
import EniForwarding.Proofs.Rule.Moves
import Mathlib.Data.Multiset.AddSub
import Mathlib.Data.Multiset.Count
import Mathlib.Data.Multiset.UnionInter

/-! All rules at once, and the steps that they and the context can take.

The tables of the reconciler are left out here: a world is the bag of all rules with
their owners, beside the context that they share. Rules enter untouched and leave when
they are off the switch and hold nothing; in between, one rule at a time makes moves.
What holds at every moment of a run is proved by induction over these steps.
-/

set_option autoImplicit false

namespace EniForwarding

open Relation

/-- A rule, and what lasts of the attributes of its ENI. -/
structure OwnedRule where
  owner : EniAttributes
  rule : Rule

structure World where
  rules : Multiset OwnedRule
  ctx : Context

namespace World

def keys (s : World) : Multiset String := s.rules.map (·.rule.key)

def holders (s : World) (hop : TunnelHop) : Nat := s.rules.countP (·.rule.hop? = some hop)

/-- One step, with a condition on how many rules there may be. -/
inductive Step (fits : Nat → Prop) : World → World → Prop
  | quiet (rules : Multiset OwnedRule) {c c' : Context} (quiet : c.Quiet c') :
      Step fits ⟨rules, c⟩ ⟨rules, c'⟩
  | move {owner : EniAttributes} {r r' : Rule} {c c' : Context} (rest : Multiset OwnedRule)
      (move : Rule.Move owner (r, c) (r', c')) :
      Step fits ⟨⟨owner, r⟩ ::ₘ rest, c⟩ ⟨⟨owner, r'⟩ ::ₘ rest, c'⟩
  | enter {fresh rules : Multiset OwnedRule} (c : Context)
      (untouched : ∀ o ∈ fresh, o.rule.state = .pending ∧ o.rule.nextHop = none)
      (distinct : (keys ⟨fresh + rules, c⟩).Nodup) (fit : fits (fresh + rules).card) :
      Step fits ⟨rules, c⟩ ⟨fresh + rules, c⟩
  | leave {gone : Multiset OwnedRule} (rules : Multiset OwnedRule) (c : Context)
      (idle : ∀ o ∈ gone, o.rule.state ≠ .installed ∧ o.rule.hop? = none) :
      Step fits ⟨gone + rules, c⟩ ⟨rules, c⟩

def start (inventory : Inventory) (table : String) (base : UInt32) : World :=
  ⟨0, .ofEnvironment (.ofInventory inventory) table base⟩

/-- The steps lead here from a start. -/
def Reachable (fits : Nat → Prop) (s : World) : Prop :=
  ∃ inventory table base, ReflTransGen (Step fits) (start inventory table base) s

/-- What holds at a start and is kept by every step holds everywhere. -/
@[elab_as_elim]
theorem Reachable.induction {fits : Nat → Prop} {motive : World → Prop} {s : World}
    (reachable : Reachable fits s)
    (initial : ∀ inventory table base, motive (start inventory table base))
    (step : ∀ s s', motive s → Step fits s s' → motive s') : motive s := by
  obtain ⟨inventory, table, base, path⟩ := reachable
  induction path with
  | refl => exact initial inventory table base
  | tail _ last ih => exact step _ _ ih last

variable {fits : Nat → Prop} {s s' : World}

theorem Step.distinct (step : Step fits s s') (distinct : s.keys.Nodup) : s'.keys.Nodup := by
  cases step with
  | quiet => exact distinct
  | move rest move =>
    have same := move.fixed.1
    simp only [keys, Multiset.map_cons] at distinct ⊢
    rwa [same]
  | enter c untouched apart => exact apart
  | leave rules c idle =>
    simp only [keys, Multiset.map_add] at distinct ⊢
    -- what remains is a part of what was there
    exact (Multiset.nodup_add.1 distinct).2.1

/-- The number of rules grows only where it is checked. -/
theorem Step.card_lt {n : Nat} (step : Step (· < n) s s') (fit : s.rules.card < n) :
    s'.rules.card < n := by
  cases step with
  | quiet => exact fit
  | move rest move => simpa using fit
  | enter c untouched apart bounded => exact bounded
  | leave rules c idle =>
    rw [Multiset.card_add] at fit
    exact lt_of_le_of_lt (Nat.le_add_left _ _) fit

theorem Step.settled (step : Step fits s s') :
    s'.ctx.table = s.ctx.table ∧ s'.ctx.basePriority = s.ctx.basePriority := by
  cases step with
  | quiet rules quiet => exact quiet.fixed
  | move rest move => exact ⟨move.settled.1, move.settled.2.1⟩
  | enter | leave => exact ⟨rfl, rfl⟩

abbrev Steps (fits : Nat → Prop) : World → World → Prop := ReflTransGen (Step fits)

theorem Steps.distinct (steps : Steps fits s s') (distinct : s.keys.Nodup) : s'.keys.Nodup := by
  induction steps with
  | refl => exact distinct
  | tail _ step ih => exact step.distinct ih

theorem Steps.settled (steps : Steps fits s s') :
    s'.ctx.table = s.ctx.table ∧ s'.ctx.basePriority = s.ctx.basePriority := by
  induction steps with
  | refl => exact ⟨rfl, rfl⟩
  | tail _ step ih => exact ⟨step.settled.1.trans ih.1, step.settled.2.trans ih.2⟩

theorem Steps.of_quiet (rules : Multiset OwnedRule) {c c' : Context}
    (quiet : ReflTransGen Context.Quiet c c') : Steps fits ⟨rules, c⟩ ⟨rules, c'⟩ :=
  ReflTransGen.lift (World.mk rules) (fun _ _ step => Step.quiet rules step) _ _ quiet

theorem Steps.of_moves {owner : EniAttributes} {p p' : Rule × Context} (rest : Multiset OwnedRule)
    (moves : Rule.Moves owner p p') :
    Steps fits ⟨⟨owner, p.1⟩ ::ₘ rest, p.2⟩ ⟨⟨owner, p'.1⟩ ::ₘ rest, p'.2⟩ :=
  ReflTransGen.lift (fun p : Rule × Context => World.mk (⟨owner, p.1⟩ ::ₘ rest) p.2)
    (fun _ _ move => Step.move rest move) _ _ moves

end World

end EniForwarding
