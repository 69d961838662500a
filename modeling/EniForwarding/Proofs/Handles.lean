import EniForwarding.Proofs.RuleTable
import EniForwarding.Proofs.Tunnels

/-! What stands in the switch is told apart.

A rule and a tunnel next hop are found in the switch by their names, and no two of them are
named alike. The switch gives every tunnel next hop a handle that is newer than all before it,
so no two that are there at once share a handle either.
-/

set_option autoImplicit false

namespace EniForwarding

namespace Switch

/-- No two tunnel next hops share a handle, and none has one that has yet to be issued. -/
structure Numbered (s : Switch) : Prop where
  issued : ∀ name handle, s.tunnels.get? name = some handle → handle ≤ s.lastHandle
  apart : ∀ name name' handle, s.tunnels.get? name = some handle →
    s.tunnels.get? name' = some handle → name = name'

variable {s s' : Switch} {call : Call}

theorem numbered_empty : empty.Numbered where
  issued _ _ there := by cases there
  apart _ _ _ there := by cases there

theorem perform_issued (done : s.perform call = .ok s') :
    s'.issued = if call.kind = .createTunnel then s.issued + 1 else s.issued := by
  cases call with
  | setTableType | setTable | setRule | deleteRule =>
    simp only [perform, setTableType, setTable, setRule, deleteRule] at done
    split at done
    · cases done
    · cases done; rfl
  | createTunnel hop =>
    simp only [perform, createTunnel] at done
    split at done
    · cases done
    · split at done
      · cases done
      · cases done; rfl
  | removeTunnel hop =>
    simp only [perform, removeTunnel] at done
    split at done
    · cases done
    · split at done
      · cases done; rfl
      · cases done

theorem Numbered.of_eq (numbered : s.Numbered) (tunnels : s'.tunnels = s.tunnels)
    (issued : s'.issued = s.issued) : s'.Numbered where
  issued name handle := by
    rw [tunnels, lastHandle, issued]
    exact numbered.issued name handle
  apart := by
    rw [tunnels]
    exact numbered.apart

theorem Numbered.create {name : String} (numbered : s.Numbered)
    (tunnels : s'.tunnels = s.tunnels.insert name s'.lastHandle)
    (issued : s'.issued = s.issued + 1) : s'.Numbered := by
  have newer : s.lastHandle < s'.lastHandle := by
    rw [lastHandle, lastHandle, issued]
    omega
  have either : ∀ other handle, s'.tunnels.get? other = some handle →
      (other = name ∧ handle = s'.lastHandle) ∨
        (s.tunnels.get? other = some handle ∧ handle < s'.lastHandle) := by
    intro other handle there
    rw [tunnels, SortedMap.get?_insert_ite] at there
    split at there
    next same => exact .inl ⟨same, (Option.some.inj there).symm⟩
    next => exact .inr ⟨there, Nat.lt_of_le_of_lt (numbered.issued other handle there) newer⟩
  constructor
  · intro other handle there
    rcases either other handle there with ⟨-, same⟩ | ⟨-, older⟩
    · exact same.le
    · exact older.le
  · intro first second handle there there'
    rcases either first handle there with ⟨here, newest⟩ | ⟨before, older⟩ <;>
      rcases either second handle there' with ⟨here', newest'⟩ | ⟨before', older'⟩
    · rw [here, here']
    · omega
    · omega
    · exact numbered.apart first second handle before before'

theorem Numbered.remove {name : String} (numbered : s.Numbered)
    (tunnels : s'.tunnels = s.tunnels.erase name) (issued : s'.issued = s.issued) :
    s'.Numbered := by
  have before : ∀ other handle, s'.tunnels.get? other = some handle →
      s.tunnels.get? other = some handle := by
    intro other handle there
    rw [tunnels, SortedMap.get?_erase] at there
    split at there
    · cases there
    · exact there
  constructor
  · intro other handle there
    rw [lastHandle, issued]
    exact numbered.issued other handle (before other handle there)
  · intro first second handle there there'
    exact numbered.apart first second handle (before _ _ there) (before _ _ there')

theorem Numbered.perform (numbered : s.Numbered) (done : s.perform call = .ok s') :
    s'.Numbered := by
  have issued := perform_issued done
  cases call with
  | setTableType | setTable => exact numbered.of_eq (perform_table rfl done).2 issued
  | setRule => exact numbered.of_eq (perform_setRule done).2 issued
  | deleteRule => exact numbered.of_eq (perform_deleteRule done).2 issued
  | createTunnel => exact numbered.create (perform_createTunnel done).2 issued
  | removeTunnel => exact numbered.remove (perform_removeTunnel done).2 issued

theorem Numbered.after (numbered : s.Numbered) (call : Call) : (s.after call).Numbered := by
  rw [Switch.after]
  split
  next done => exact numbered.perform done
  next => exact numbered

end Switch

/-- Whatever calls were made, the switch keeps the handles apart. -/
theorem History.numbered_recalled (h : History) : (recalled h).Numbered := by
  induction h with
  | nil => exact Switch.numbered_empty
  | cons e earlier ih =>
    cases e with
    | called call failure =>
      cases failure with
      | none => exact ih.after call
      | some message => exact ih
    | asked | audited | joined | left => exact ih

namespace Reconciler

theorem rule_of_key {s : Reconciler} (kept : s.Kept) {key key' : EniKey} {eni eni' : Eni}
    {r r' : Rule} (there : s.enis.get? key = some eni) (member : r ∈ eni.rules)
    (there' : s.enis.get? key' = some eni') (member' : r' ∈ eni'.rules) (same : r.key = r'.key) :
    key = key' ∧ r = r' := by
  obtain ⟨named, tidy⟩ := kept.tidy key eni there
  obtain ⟨named', tidy'⟩ := kept.tidy key' eni' there'
  have names := (tidy.keys r member).symm.trans (same.trans (tidy'.keys r' member'))
  rw [named, named'] at names
  obtain ⟨rfl, -⟩ := EniKey.ruleKey_injective names
  cases there.symm.trans there'
  exact ⟨rfl, List.inj_on_of_nodup_map tidy.distinct member member' same⟩

/-- Names in the switch do not collide. The name of a rule tells the VNET, the MAC address and
the role, and the name of a tunnel next hop the address and the tunnel, whatever characters
stand in the names of VNETs and tunnels. So in every run two rules of the table with one name
are one rule; at each moment two tunnel next hops of the switch with one handle are one; and so
are two in the table. -/
theorem names_never_collide :
    (∀ (table : String) (key key' : EniKey) (role role' : Role),
      key.ruleKey table role = key'.ruleKey table role' →
        key.vnet = key'.vnet ∧ key.mac = key'.mac ∧ role = role') ∧
    (∀ hop hop' : TunnelHop, hop.render = hop'.render → hop.ip = hop'.ip ∧ hop.tunnel = hop'.tunnel) ∧
    ∀ (config : Config) (inventory : Inventory) (requests : List Request),
      let s := (fresh config inventory).run requests
      (∀ key eni r key' eni' r', s.enis.get? key = some eni → r ∈ eni.rules →
        s.enis.get? key' = some eni' → r' ∈ eni'.rules → r.key = r'.key → key = key' ∧ r = r') ∧
      (∀ moment, moment <:+ s.ctx.env.trace → ∀ (hop hop' : TunnelHop) (handle : Nat),
        (History.recalled moment).tunnels.get? hop.render = some handle →
        (History.recalled moment).tunnels.get? hop'.render = some handle → hop = hop') ∧
      ∀ hop hop' use use', s.ctx.tunnels.get? hop = some use → s.ctx.tunnels.get? hop' = some use' →
        use.handle = use'.handle → hop = hop' := by
  refine ⟨fun table key key' role role' same => ?_, fun hop hop' same => ?_,
    fun config inventory requests => ?_⟩
  · obtain ⟨rfl, rfl⟩ := EniKey.ruleKey_injective same
    exact ⟨rfl, rfl, rfl⟩
  · obtain rfl := TunnelHop.render_injective same
    exact ⟨rfl, rfl⟩
  obtain ⟨kept, -, reachable⟩ :=
    @run_reachable (fun _ => True) config inventory requests fun _ _ => trivial
  intro s
  have coherent : s.world.Coherent := reachable.coherent
  have mirrored : s.ctx.Mirrored := coherent.mirrored
  have numbered : s.ctx.env.switch.calm.Numbered :=
    coherent.recalled ▸ History.numbered_recalled s.ctx.env.trace
  refine ⟨fun key eni r key' eni' r' there member there' member' same =>
    rule_of_key kept there member there' member' same, fun moment _ hop hop' handle first second => ?_,
    fun hop hop' use use' known known' same => ?_⟩
  · exact TunnelHop.render_injective
      ((History.numbered_recalled moment).apart _ _ handle first second)
  · have first := (mirrored.get?_eq_some_iff hop.render use.handle).2 ⟨hop, use, known, rfl, rfl⟩
    have second := (mirrored.get?_eq_some_iff hop'.render use.handle).2
      ⟨hop', use', known', rfl, same.symm⟩
    exact TunnelHop.render_injective (numbered.apart _ _ use.handle first second)

end Reconciler

end EniForwarding
