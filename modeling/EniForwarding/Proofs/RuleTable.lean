import EniForwarding.Proofs.Runs
import EniForwarding.Proofs.World.Coherence

/-! The rule table shows the installed rules.

After any run, however many calls were lost, the switch has one entry for each installed
rule, under the name of the rule, and no other entry. What an entry says is told by the
attributes of the ENI, the VIP that was found, and the next hop that the rule has now.
-/

set_option autoImplicit false

namespace EniForwarding

/-- What an entry of the rule table says under the name of a field. -/
def Rule.expected (base : UInt32) (vip : Net.Prefix) (eni : EniAttributes) (role : Role)
    (next : NextHop) : String → Option String
  | "PRIORITY" => some (Text.renderRadix 10 (min (base.toNat + role.ordinal) (UInt32.size - 1)))
  | "DST_IP" => some vip.render
  | "INNER_SRC_MAC" =>
    if role = .outbound ∧ eni.macDirection = .source then some eni.key.mac.render else none
  | "INNER_DST_MAC" =>
    if role = .outbound ∧ eni.macDirection = .source then none else some eni.key.mac.render
  | "TUNNEL_VNI" =>
    if role = .outbound ∨ role = .outboundTerm then
      eni.vni.map fun vni => Text.renderRadix 10 vni.toNat
    else none
  | "TUNNEL_TERM" => if role = .inboundTerm ∨ role = .outboundTerm then some "true" else none
  | "REDIRECT_ACTION" => some next.target
  | _ => none

namespace Rule

section fields

variable (base : UInt32) (vip : Net.Prefix) (eni : EniAttributes) (role : Role)

theorem get?_fields_ite (redirect name : String) :
    (SortedMap.ofList (fields role eni base vip redirect)).get? name =
      if name = "REDIRECT_ACTION" then some redirect
      else if role.isTerm = true ∧ name = "TUNNEL_TERM" then some "true"
      else if role.isOutbound = true ∧ eni.vni.isSome = true ∧ name = "TUNNEL_VNI" then
        eni.vni.map fun vni => Text.renderRadix 10 vni.toNat
      else if name = (macField role eni).name then some eni.key.mac.render
      else if name = "DST_IP" then some vip.render
      else if name = "PRIORITY" then some (Text.renderRadix 10 (priority base role))
      else none := by
  have nothing : (SortedMap.empty : FieldMap).get? name = none := rfl
  have ip : Acl.MatchField.name .dstIp = "DST_IP" := rfl
  have vni_name : Acl.MatchField.name .tunnelVni = "TUNNEL_VNI" := rfl
  have term_name : Acl.MatchField.name .tunnelTerm = "TUNNEL_TERM" := rfl
  have action : Acl.ActionKind.name .redirect = "REDIRECT_ACTION" := rfl
  -- which fields are there depends on the role and on whether a VNI is known
  cases outbound : role.isOutbound <;> cases term : role.isTerm <;> cases vni : eni.vni <;>
    simp [fields, SortedMap.ofList, SortedMap.get?_insert_ite, nothing, outbound, term, vni, ip,
      vni_name, term_name, action]

/-- The MAC address stands under the destination, unless the rule is the outbound one and
looks at the source. -/
theorem macField_name :
    (macField role eni).name = if role = .outbound ∧ eni.macDirection = .source then "INNER_SRC_MAC"
      else "INNER_DST_MAC" := by
  by_cases outbound : role = .outbound
  · cases direction : eni.macDirection <;>
      simp [macField, outbound, direction, MacDirection.field, Acl.MatchField.name]
  · simp [macField, outbound, Acl.MatchField.name]

theorem get?_fields (next : NextHop) (name : String) :
    (SortedMap.ofList (fields role eni base vip next.target)).get? name =
      expected base vip eni role next name := by
  have term : role.isTerm = true ↔ role = .inboundTerm ∨ role = .outboundTerm := by
    cases role <;> simp [Role.isTerm]
  have outbound : role.isOutbound = true ↔ role = .outbound ∨ role = .outboundTerm := by
    cases role <;> simp [Role.isOutbound]
  have found := get?_fields_ite base vip eni role next.target
  simp only [macField_name, term, outbound] at found
  unfold expected
  -- one of the two names of the MAC address is taken, and the other one is not there
  by_cases source : role = .outbound ∧ eni.macDirection = .source
  all_goals
    simp only [source] at found ⊢
    split
    next => simp [found, priority]
    next => simp [found]
    next => simp [found]
    next => simp [found]
    next => cases vni : eni.vni <;> simp [found, vni]
    next => simp [found]
    next => simp [found]
    next => simp_all

end fields

end Rule

namespace Reconciler

section shown

variable {s : Reconciler}

theorem keys_nodup (kept : s.Kept) : (s.rules.map Rule.key).Nodup := by
  have same : ((s.rules.map Rule.key : List String) : Multiset String) = s.world.keys := by
    rw [← Multiset.map_coe, coe_rules, Multiset.map_map]
    rfl
  exact Multiset.coe_nodup.1 (same ▸ kept.distinct)

theorem mem_world_rules {key : EniKey} {eni : Eni} {r : Rule} (there : s.enis.get? key = some eni)
    (member : r ∈ eni.rules) : ⟨eni.attributes.lasting, r⟩ ∈ s.world.rules :=
  Multiset.mem_coe.2 (List.mem_flatMap.2
    ⟨eni, SortedMap.mem_values_of_get? there, List.mem_map_of_mem member⟩)

/-- The entries are those of the installed rules, one for each. -/
theorem keys_perm (kept : s.Kept) (coherent : s.world.Coherent) : s.ctx.env.switch.rules.keys.Perm
    ((s.rules.filter (·.state = .installed)).map Rule.key) := by
  have distinct : ((s.rules.filter (·.state = .installed)).map Rule.key).Nodup :=
    (keys_nodup kept).sublist (List.filter_sublist.map Rule.key)
  -- both lists hold a name once, so it is enough that they hold the same names
  apply (List.perm_ext_iff_of_nodup (SortedMap.keys_nodup _) distinct).2
  intro key
  rw [SortedMap.mem_keys]
  constructor
  · intro present
    obtain ⟨o, member, rfl⟩ := Multiset.mem_map.1 (coherent.owned key present)
    have on : o.rule.state = .installed := by
      by_contra off
      have absent := (coherent.shown o member).off off
      exact absurd (Option.isSome_iff_ne_none.1 present) (not_not.2 absent)
    have among : o.rule ∈ s.rules := by
      rw [← Multiset.mem_coe, coe_rules]
      exact Multiset.mem_map_of_mem _ member
    exact List.mem_map_of_mem (List.mem_filter.2 ⟨among, by simpa using on⟩)
  · intro member
    obtain ⟨r, there, rfl⟩ := List.mem_map.1 member
    obtain ⟨among, on⟩ := List.mem_filter.1 there
    rw [← Multiset.mem_coe, coe_rules] at among
    obtain ⟨o, owned, rfl⟩ := Multiset.mem_map.1 among
    obtain ⟨next, vip, -, -, -, written⟩ := (coherent.shown o owned).on (by simpa using on)
    exact Option.isSome_iff_exists.2 ⟨_, written⟩

theorem get?_ruleKey_of_absent (kept : s.Kept) (coherent : s.world.Coherent) {key : EniKey}
    (absent : s.enis.get? key = none) (role : Role) :
    s.ctx.env.switch.rules.get? (key.ruleKey s.config.table role) = none := by
  by_contra present
  have listed := SortedMap.mem_keys.2 (Option.isSome_iff_ne_none.2 present)
  obtain ⟨r, installed, same⟩ := List.mem_map.1 ((keys_perm kept coherent).mem_iff.1 listed)
  obtain ⟨eni, value, member⟩ := List.mem_flatMap.1 (List.mem_filter.1 installed).1
  obtain ⟨other, there⟩ := SortedMap.exists_get?_of_mem_values value
  obtain ⟨named, tidy⟩ := kept.tidy other eni there
  -- the name of a rule tells the ENI that it belongs to
  have name := (tidy.keys r member).symm.trans same
  rw [named] at name
  obtain ⟨rfl, -⟩ := EniKey.ruleKey_injective name
  cases absent.symm.trans there

/-- As long as the counters can tell, they tell the number of entries apart. -/
theorem counters_eq (coherent : s.world.Coherent) :
    s.stats.rulesInstalled.toNat = UInt64.size - 1 ∨ s.stats.rulesInstalled.toNat =
      s.stats.rulesUninstalled.toNat + s.ctx.env.switch.rules.size := by
  obtain ⟨written, deleted, total, installs, uninstalls⟩ := coherent.tallied
  have installed : s.stats.rulesInstalled.toNat = min written (UInt64.size - 1) := installs
  have uninstalled : s.stats.rulesUninstalled.toNat = min deleted (UInt64.size - 1) := uninstalls
  have sum : written = deleted + s.ctx.env.switch.rules.size := total
  omega

end shown

theorem rule_table_exact (config : Config) (inventory : Inventory) (requests : List Request) :
    let s := (fresh config inventory).run requests
    let table := s.ctx.env.switch.rules
    (s.rules.map Rule.key).Nodup ∧
    table.keys.Perm ((s.rules.filter (·.state = .installed)).map Rule.key) ∧
    (∀ key eni, s.enis.get? key = some eni → ∀ r ∈ eni.rules,
      eni.attributes.key = key ∧ r.key = key.ruleKey config.table r.role ∧
      (r.role.isOutbound = true → eni.attributes.vni.isSome = true) ∧
      (r.state = .installed → ∃ next vip fields, r.nextHop = some next ∧ next.isResolved = true ∧
        s.ctx.vip = some vip ∧ table.get? r.key = some fields ∧ ∀ name, fields.get? name =
          Rule.expected config.basePriority vip eni.attributes r.role next name)) ∧
    (s.stats.rulesInstalled.toNat = UInt64.size - 1 ∨
      s.stats.rulesInstalled.toNat = s.stats.rulesUninstalled.toNat + table.size) := by
  obtain ⟨kept, same, reachable⟩ :=
    @run_reachable (fun _ => True) config inventory requests fun _ _ => trivial
  intro s table
  have coherent : s.world.Coherent := reachable.coherent
  refine ⟨keys_nodup kept, keys_perm kept coherent, fun key eni there r member => ?_,
    counters_eq coherent⟩
  obtain ⟨named, tidy⟩ := kept.tidy key eni there
  rw [same] at tidy
  refine ⟨named, named ▸ tidy.keys r member, tidy.vni r member, fun on => ?_⟩
  obtain ⟨next, vip, leads, resolved, known, written⟩ :=
    (coherent.shown _ (mem_world_rules there member)).on on
  refine ⟨next, vip, _, leads, resolved, known, written, fun name => ?_⟩
  -- the base priority was settled when the context was made
  have base : s.world.ctx.basePriority = config.basePriority := kept.base.trans (by rw [same])
  rw [base]
  exact Rule.get?_fields config.basePriority vip eni.attributes.lasting r.role next name

theorem sample_rule_table :
    let s := (fresh {} sampleInventory).run sampleRequests
    s.ctx.env.switch.rules.keys.Perm
      ["ENI:Vnet_1000_AABBCCDDEEFF_IN", "ENI:Vnet_1000_AABBCCDDEEFF_OUT"] ∧
    s.stats.rulesInstalled.toNat = s.stats.rulesUninstalled.toNat + s.ctx.env.switch.rules.size := by
  obtain ⟨-, image, -, counters⟩ := rule_table_exact {} sampleInventory sampleRequests
  have installed : (((fresh {} sampleInventory).run sampleRequests).rules.filter
      (·.state = .installed)).map Rule.key =
        ["ENI:Vnet_1000_AABBCCDDEEFF_IN", "ENI:Vnet_1000_AABBCCDDEEFF_OUT"] := by
    decide +kernel
  have few : ((fresh {} sampleInventory).run sampleRequests).stats.rulesInstalled.toNat ≠
      UInt64.size - 1 := by
    decide +kernel
  rw [installed] at image
  exact ⟨image, counters.resolve_left few⟩

end Reconciler

end EniForwarding
