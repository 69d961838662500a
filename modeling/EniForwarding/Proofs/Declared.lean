import EniForwarding.Proofs.InLine
import EniForwarding.Proofs.Lawful
import EniForwarding.Proofs.RuleTable

/-! What is declared is what is there.

Where every ENI has the rules that it asks for, the rules of the switch are told by the
attributes of the ENIs in the table, and so are its tunnel next hops. Nothing is left of
earlier primaries or of ENIs that are gone.
-/

set_option autoImplicit false

namespace EniForwarding

variable {i : Inventory}

namespace Reconciler

section outcome

variable {s : Reconciler}

theorem InLine.mem_rules (inLine : s.InLine i) {r : Rule} (member : r ∈ s.rules) :
    ∃ a ∈ s.enis.values.map Eni.attributes, ∃ role ∈ Eni.roles a i.registry,
      r = ⟨role, a.key.ruleKey s.config.table role, .installed, a.destination i role⟩ := by
  obtain ⟨eni, value, among⟩ := List.mem_flatMap.1 member
  obtain ⟨key, there⟩ := SortedMap.exists_get?_of_mem_values value
  rw [(inLine.enis key eni there).2.rules] at among
  obtain ⟨role, has, rfl⟩ := List.mem_map.1 among
  exact ⟨eni.attributes, List.mem_map_of_mem value, role, has, rfl⟩

theorem InLine.rule_of_role (inLine : s.InLine i) {a : EniAttributes}
    (member : a ∈ s.enis.values.map Eni.attributes) {role : Role}
    (has : role ∈ Eni.roles a i.registry) :
    ∃ key eni, s.enis.get? key = some eni ∧ eni.attributes = a ∧ a.Served i ∧
      ⟨role, a.key.ruleKey s.config.table role, .installed, a.destination i role⟩ ∈ eni.rules := by
  obtain ⟨eni, value, rfl⟩ := List.mem_map.1 member
  obtain ⟨key, there⟩ := SortedMap.exists_get?_of_mem_values value
  have answered := (inLine.enis key eni there).2
  refine ⟨key, eni, there, rfl, answered.served, ?_⟩
  rw [answered.rules]
  exact List.mem_map_of_mem has

theorem InLine.keys_perm (inLine : s.InLine i) :
    s.ctx.env.switch.rules.keys.Perm ((s.enis.values.map Eni.attributes).flatMap fun a =>
      (Eni.roles a i.registry).map (a.key.ruleKey s.config.table)) := by
  have installed : s.rules.filter (·.state = .installed) = s.rules := by
    refine List.filter_eq_self.2 fun r member => ?_
    obtain ⟨a, -, role, -, rfl⟩ := inLine.mem_rules member
    rfl
  have image := Reconciler.keys_perm inLine.kept inLine.coherent
  have keys : s.rules.map Rule.key = (s.enis.values.map Eni.attributes).flatMap fun a =>
      (Eni.roles a i.registry).map (a.key.ruleKey s.config.table) := by
    rw [rules, List.map_flatMap, List.flatMap_map]
    refine List.flatMap_congr fun eni value => ?_
    obtain ⟨key, there⟩ := SortedMap.exists_get?_of_mem_values value
    rw [(inLine.enis key eni there).2.rules, EniAttributes.rules, List.map_map]
    rfl
  rwa [installed, keys] at image

theorem InLine.redirect (inLine : s.InLine i) {a : EniAttributes}
    (member : a ∈ s.enis.values.map Eni.attributes) {role : Role}
    (has : role ∈ Eni.roles a i.registry) :
    ∃ next fields, a.destination i role = some next ∧
      s.ctx.env.switch.rules.get? (a.key.ruleKey s.config.table role) = some fields ∧
      fields.get? "REDIRECT_ACTION" = some next.target := by
  obtain ⟨key, eni, there, rfl, served, among⟩ := inLine.rule_of_role member has
  obtain ⟨next, vip, leads, -, -, written⟩ :=
    (inLine.coherent.shown _ (mem_world_rules there among)).on rfl
  exact ⟨next, _, leads, written, Rule.get?_redirect _ _ _ _ _⟩

theorem InLine.named (inLine : s.InLine i) (lawful : s.Lawful) {name : String}
    (present : s.ctx.env.switch.tunnels.contains name = true) :
    ∃ a ∈ s.enis.values.map Eni.attributes, ∃ role ∈ Eni.roles a i.registry, ∃ next hop,
      a.destination i role = some next ∧ next.hop? = some hop ∧ hop.render = name := by
  obtain ⟨r, member, hop, holds, named⟩ := lawful.held present
  obtain ⟨a, among, role, has, rfl⟩ := inLine.mem_rules member
  obtain ⟨next, leads, held⟩ := Option.bind_eq_some_iff.1 holds
  exact ⟨a, among, role, has, next, hop, leads, held, named⟩

/-- A tunnel next hop that a redirect names is in the switch, if its users can be counted. -/
theorem InLine.present (inLine : s.InLine i) (exact_ : s.ctx.Exact) {a : EniAttributes}
    (among : a ∈ s.enis.values.map Eni.attributes) {role : Role}
    (has : role ∈ Eni.roles a i.registry) {next : NextHop} {hop : TunnelHop} (leads : a.destination i role = some next)
    (held : next.hop? = some hop) : s.ctx.env.switch.tunnels.contains hop.render = true := by
  have mirrored : s.ctx.Mirrored := inLine.coherent.mirrored
  obtain ⟨key, eni, there, rfl, -, rule⟩ := inLine.rule_of_role among has
  have member : _ ∈ s.rules := List.mem_flatMap.2 ⟨eni, SortedMap.mem_values_of_get? there, rule⟩
  have holders : 1 ≤ s.holders hop :=
    List.countP_pos_iff.2 ⟨_, member, decide_eq_true (Option.bind_eq_some_iff.2 ⟨next, leads, held⟩)⟩
  obtain ⟨use, known⟩ :=
    Option.isSome_iff_exists.1 ((contains_iff_held inLine.coherent exact_ hop).2 holders)
  exact (mirrored.contains_iff hop.render).2 ⟨hop, by simp [SortedMap.refs?, known], rfl⟩

end outcome

end Reconciler

end EniForwarding
