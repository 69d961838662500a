import EniForwarding.Eni.Key
import EniForwarding.Neighbor
import EniForwarding.Proofs.Net.Address

/-! Names in the switch never collide.

The name of a rule joins the table, the VNET, the MAC address and the role without
any quoting. It is taken apart from the right: no suffix of a role ends another one,
and a MAC address always fills twelve characters. The name of a tunnel next hop is
taken apart at its first at sign, since no written address holds one.
-/

set_option autoImplicit false

namespace EniForwarding

namespace Net.Mac

theorem digits?_upperPair (b : UInt8) :
    Text.digits? 16 ((Text.hexPair b).map Char.toUpper) = some b.toNat := by
  have all : ∀ n < 256, Text.digits? 16 ((Text.hexPair (UInt8.ofNat n)).map Char.toUpper) =
      some (UInt8.ofNat n).toNat := by
    decide +kernel
  have one := all b.toNat b.toNat_lt
  rwa [UInt8.ofNat_toNat] at one

theorem length_keyText (m : Mac) : m.keyText.toList.length = 12 := by
  simp [keyText, bytes, Text.hexPair]

theorem keyText_injective {first second : Mac} (same : first.keyText = second.keyText) :
    first = second := by
  have pair : ∀ x y : UInt8, (Text.hexPair x).map Char.toUpper = (Text.hexPair y).map Char.toUpper →
      x = y := by
    intro x y pairs
    have values := (digits?_upperPair x).symm.trans (pairs ▸ digits?_upperPair y)
    exact UInt8.toNat_inj.1 (Option.some.inj values)
  have chars := congrArg String.toList same
  simp only [keyText, bytes, String.toList_ofList, List.flatMap_cons, List.flatMap_nil, List.map_append,
    List.append_nil] at chars
  have length : ∀ b, ((Text.hexPair b).map Char.toUpper).length = 2 := fun b => rfl
  obtain ⟨h0, chars⟩ := List.append_inj chars (by simp [length])
  obtain ⟨h1, chars⟩ := List.append_inj chars (by simp [length])
  obtain ⟨h2, chars⟩ := List.append_inj chars (by simp [length])
  obtain ⟨h3, chars⟩ := List.append_inj chars (by simp [length])
  obtain ⟨h4, h5⟩ := List.append_inj chars (by simp [length])
  apply eq_of_bytes
  rw [bytes, pair _ _ h0, pair _ _ h1, pair _ _ h2, pair _ _ h3, pair _ _ h4, pair _ _ h5, bytes]

end Net.Mac

namespace EniKey

theorem suffix_cancel {before before' : List Char} {role role' : Role}
    (same : before ++ '_' :: role.suffix.toList = before' ++ '_' :: role'.suffix.toList) :
    before = before' ∧ role = role' := by
  -- the last characters tell the suffixes apart, so the texts are compared from the right
  have backwards := congrArg List.reverse same
  cases role <;> cases role' <;> simp [Role.suffix] at backwards ⊢ <;> exact backwards

/-- Two rules of one table have different names, whatever their VNETs are called. -/
theorem ruleKey_injective {table : String} {key key' : EniKey} {role role' : Role}
    (same : key.ruleKey table role = key'.ruleKey table role') : key = key' ∧ role = role' := by
  have chars := congrArg String.toList same
  have shape : ∀ (k : EniKey) (r : Role), (k.ruleKey table r).toList =
      ((table ++ ":" ++ k.vnet ++ "_").toList ++ k.mac.keyText.toList) ++ '_' :: r.suffix.toList := by
    intro k r
    simp [ruleKey]
  rw [shape, shape] at chars
  obtain ⟨front, roles⟩ := suffix_cancel chars
  -- a VNET may hold any character, but the MAC address behind it has a fixed length
  obtain ⟨names, macs⟩ := List.append_inj' front (by simp [Net.Mac.length_keyText])
  have mac := Net.Mac.keyText_injective (String.toList_inj.1 macs)
  have vnet : key.vnet.toList = key'.vnet.toList := by simpa using names
  cases key
  cases key'
  simp_all [String.toList_inj]

end EniKey

namespace TunnelHop

theorem toList_render (hop : TunnelHop) :
    hop.render.toList = hop.ip.render.toList ++ '@' :: hop.tunnel.toList := by
  simp [render]

theorem render_injective {hop hop' : TunnelHop} (same : hop.render = hop'.render) : hop = hop' := by
  have cut : ∀ h : TunnelHop, Text.atFirst '@' h.render.toList =
      some (h.ip.render.toList, h.tunnel.toList) := fun h =>
    Text.atFirst_eq_some_iff.2 ⟨h.toList_render, h.ip.at_not_mem_render⟩
  have parts := cut hop
  rw [same, cut hop'] at parts
  simp only [Option.some.injEq, Prod.mk.injEq, String.toList_inj] at parts
  have ip := Net.Address.render_injective parts.1
  cases hop
  cases hop'
  simp_all

/-- The name of a tunnel next hop is never the mere text of an address. -/
theorem render_ne_address (hop : TunnelHop) (ip : Net.Address) : hop.render ≠ ip.render := by
  intro same
  have member : '@' ∈ hop.render.toList := by simp [toList_render]
  rw [same] at member
  exact ip.at_not_mem_render member

end TunnelHop

end EniForwarding
