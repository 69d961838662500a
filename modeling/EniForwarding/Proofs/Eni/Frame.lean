import EniForwarding.Proofs.Eni.Firing
import EniForwarding.Proofs.Rule.Frame

/-! What work on an ENI leaves alone.

All rules of an ENI have names of their own, so the rules of another ENI stay in the switch as
they are. The rules of an ENI take hold of a tunnel next hop and give it back one after the
other; with a user besides all of them it stays, however many of them hold it in between.
-/

set_option autoImplicit false

namespace EniForwarding

open Context (KeepsRule KeepsTunnel)

namespace Rule

theorem holds_le_one (r : Rule) (hop : TunnelHop) : r.holds hop ≤ 1 := by
  unfold holds
  split <;> omega

section sweep

variable {owner : EniAttributes} {x : Rule.Step Unit} {rules : List Rule}
  (leads : ∀ r c, r.Sound → x.Leads (Moves owner) (r, c) fun _ _ => True)
  (sound : ∀ r ∈ rules, r.Sound)

include leads sound

theorem sweep_keepsRule {name : String} (apart : ∀ r ∈ rules, r.key ≠ name) (c : Context) :
    KeepsRule name c (Action.sweep x (rules, c)).2.2 := by
  have one : ∀ r c, r.Sound ∧ r.key ≠ name → KeepsRule name c (x (r, c)).2.2 := by
    rintro r c ⟨sound, apart⟩
    exact (leads r c sound).1.keepsRule apart
  exact Action.sweep_reaches one c fun r member => ⟨sound r member, apart r member⟩

/-- Users besides those that are worked on keep a tunnel next hop, as long as all of them can be
counted. -/
theorem sweep_keepsTunnel (hop : TunnelHop) (n : Nat) (room : n + rules.length + 1 < UInt32.size)
    (c : Context) :
    KeepsTunnel hop (n + holdings rules hop)
      (n + holdings (Action.sweep x (rules, c)).2.1 hop) c (Action.sweep x (rules, c)).2.2 := by
  -- the rules that wait for their turn count as users for the one that is worked on
  have swept := Action.sweep_leads (x := x) (P := Sound) (A := fun _ _ => True)
    (D := fun _ _ => True)
    (R := fun p p' => ∀ n, n + 2 < UInt32.size →
      KeepsTunnel hop (n + p.1.holds hop) (n + p'.1.holds hop) p.2 p'.2)
    (S := fun p p' => ∀ n, n + p.1.length + 1 < UInt32.size →
      KeepsTunnel hop (n + holdings p.1 hop) (n + holdings p'.1 hop) p.2 p'.2)
    (fun r c sound => ⟨fun n room => (leads r c sound).1.keepsTunnel room, fun _ _ => trivial⟩)
    (fun c => ⟨fun n _ handle live => ⟨live, refl c⟩, trivial⟩) ?_ (fun _ _ _ => trivial)
    rules c sound
  · exact swept.1 n room
  · intro r c r' c' rest rest' c'' head tail n room
    have waiting : holdings rest hop ≤ rest.length := List.countP_le_length
    have worked := r'.holds_le_one hop
    simp only [List.length_cons] at room
    have first := head (n + holdings rest hop) (by omega)
    have second : KeepsTunnel hop (n + r'.holds hop + holdings rest hop)
        (n + r'.holds hop + holdings rest' hop) c' c'' := tail _ (by dsimp only; omega)
    rw [Nat.add_right_comm n _ (holdings rest hop), Nat.add_right_comm n _ (holdings rest' hop)]
      at second
    simp only [holdings_cons, ← Nat.add_assoc]
    exact first.trans second

end sweep

end Rule

namespace Eni

/-- The rules of the ENI under another key stay in the switch as they are, and so do the tunnel
next hops with users besides the rules that are worked on. -/
structure Minds (table : String) (key : EniKey) (p p' : Eni × Context) : Prop where
  rules : ∀ role, KeepsRule (key.ruleKey table role) p.2 p'.2
  tunnels : ∀ hop,
    KeepsTunnel hop (Rule.holdings p.1.rules hop) (Rule.holdings p'.1.rules hop) p.2 p'.2

variable {table : String} {key : EniKey} {eni : Eni} {c : Context}

instance : Std.Refl (Minds table key) :=
  ⟨fun p => ⟨fun _ => refl p.2, fun _ _ live => ⟨live, refl p.2⟩⟩⟩

instance : IsTrans (Eni × Context) (Minds table key) := by
  constructor
  intro p p' p'' first second
  exact ⟨fun role => IsTrans.trans _ _ _ (first.rules role) (second.rules role),
    fun hop => (first.tunnels hop).trans (second.tunnels hop)⟩

theorem Tidy.length_le (tidy : eni.Tidy table) : eni.rules.length ≤ 4 := by
  have every : eni.rules.map Rule.role ⊆ Role.all := by
    intro role _
    cases role <;> decide
  have fewer := (List.Nodup.subperm tidy.roles every).length_le
  rwa [List.length_map] at fewer

section minds

variable (tidy : eni.Tidy table) (apart : eni.attributes.key ≠ key)

include tidy apart

theorem onRules_minds {x : Rule.Step Unit} {owner : EniAttributes}
    (leads : ∀ r c, r.Sound → x.Leads (Rule.Moves owner) (r, c) fun _ _ => True) (c : Context) :
    Minds table key (eni, c)
      ({ eni with rules := (Action.sweep x (eni.rules, c)).2.1 },
        (Action.sweep x (eni.rules, c)).2.2) := by
  constructor
  · intro role
    refine Rule.sweep_keepsRule leads tidy.sound (fun r member same => apart ?_) c
    rw [tidy.keys r member] at same
    exact (EniKey.ruleKey_injective same).1
  · intro hop
    have short := tidy.length_le
    have size : UInt32.size = 4294967296 := rfl
    have keeps := Rule.sweep_keepsTunnel leads tidy.sound hop 0 (by omega) c
    rwa [Nat.zero_add, Nat.zero_add] at keeps

theorem fireAll_minds (c : Context) : Minds table key (eni, c) (fireAll (eni, c)).2 := by
  have minds := onRules_minds tidy apart
    (fun r c sound => Rule.fire_leads eni.attributes (r := r) (c := c) sound) c
  rw [run_fireAll]
  generalize Action.sweep (Rule.fire eni.attributes) (eni.rules, c) = outcome at minds
  obtain ⟨_ | _, rules, c'⟩ := outcome <;> exact ⟨minds.rules, minds.tunnels⟩

theorem destroy_minds (c : Context) : Minds table key (eni, c) (destroy (eni, c)).2 := by
  have leads : ∀ r c, r.Sound →
      Rule.destroy.Leads (Rule.Moves eni.attributes) (r, c) fun _ _ => True :=
    fun r c _ => (Rule.destroy_leads eni.attributes).weaken fun _ _ _ => trivial
  have minds := onRules_minds tidy apart leads c
  rw [run_destroy]
  generalize Action.sweep Rule.destroy (eni.rules, c) = outcome at minds
  obtain ⟨_ | _, rules, c'⟩ := outcome
  · exact ⟨minds.rules, minds.tunnels⟩
  · exact ⟨minds.rules, fun hop => (minds.tunnels hop).weaken (Nat.zero_le _)⟩

theorem takeDown_minds (c : Context) :
    Minds table key (eni, c) (destroy (fireAll (eni, c)).2).2 := by
  have worked : Works (fun _ => True) table (eni, c) (fireAll (eni, c)).2 :=
    (fireAll_leads eni c).1
  obtain ⟨tidy', lasting, -⟩ := worked tidy
  have named : (fireAll (eni, c)).2.1.attributes.key = eni.attributes.key := by
    have keys := congrArg EniAttributes.key lasting
    exact keys
  exact IsTrans.trans _ _ _ (fireAll_minds tidy apart c)
    (destroy_minds tidy' (named.trans_ne apart) _)

theorem update_minds (fields : Fields) (c : Context) :
    Minds table key (eni, c) (update fields (eni, c)).2 := by
  rw [run_update]
  split
  · exact refl _
  next primary _ =>
    split
    · exact refl _
    · have minds : Minds table key (eni.withPrimary primary, c) _ :=
        fireAll_minds (tidy.withPrimary primary) apart c
      exact ⟨minds.rules, minds.tunnels⟩

end minds

end Eni

end EniForwarding
