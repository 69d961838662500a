import EniForwarding.Acl.Vocabulary
import EniForwarding.Switch
import EniForwarding.Proofs.Data.SortedMap

/-! What a call that succeeds does to the switch.

Calls about rules leave the tunnel next hops alone, and the other way round. That a call
is acceptable is more than that it succeeds, since the switch writes over a rule and
deletes an absent one without complaint.
-/

set_option autoImplicit false

namespace EniForwarding

def Call.isTable : Call → Bool
  | .setTableType .. | .setTable .. => true
  | _ => false

namespace Switch

/-- The switch with its refusals turned off. -/
def calm (s : Switch) : Switch := { s with rejectsAcl := false, rejectsTunnels := false }

def after (s : Switch) (call : Call) : Switch :=
  match s.perform call with
  | .ok s => s
  | .error _ => s

/-- The call overwrites nothing, and takes away only what is there. -/
def Accepts (s : Switch) : Call → Prop
  | .setTableType .. | .setTable .. => True
  | .setRule key _ => s.rules.contains key = false
  | .deleteRule key => s.rules.contains key = true
  | .createTunnel hop => s.tunnels.contains hop.render = false
  | .removeTunnel hop => s.tunnels.contains hop.render = true

/-- Every rule that redirects to a tunnel next hop redirects to one that is there. -/
def Grounded (s : Switch) : Prop :=
  ∀ (key : String) (fields : FieldMap) (hop : TunnelHop), s.rules.get? key = some fields →
    fields.get? (Acl.ActionKind.name .redirect) = some hop.render →
    s.tunnels.contains hop.render = true

theorem perform_calm {s s' : Switch} {call : Call} (done : s.perform call = .ok s') :
    s.calm.perform call = .ok s'.calm := by
  cases call with
  | setTableType name fields =>
    simp only [perform, setTableType] at done ⊢
    split at done
    · cases done
    · cases done; rfl
  | setTable name fields =>
    simp only [perform, setTable] at done ⊢
    split at done
    · cases done
    · cases done; rfl
  | setRule key fields =>
    simp only [perform, setRule] at done ⊢
    split at done
    · cases done
    · cases done; rfl
  | deleteRule key =>
    simp only [perform, deleteRule] at done ⊢
    split at done
    · cases done
    · cases done; rfl
  | createTunnel hop =>
    simp only [perform, createTunnel] at done ⊢
    split at done
    · cases done
    · split at done
      · cases done
      -- whether the tunnel next hop is there does not depend on what is refused
      next absent => cases done; simp [calm, absent]
  | removeTunnel hop =>
    simp only [perform, removeTunnel] at done ⊢
    split at done
    · cases done
    · split at done
      next present => cases done; simp [calm, present]
      · cases done

section performed

variable {s s' : Switch}

theorem perform_setRule {key : String} {fields : Fields}
    (done : s.perform (.setRule key fields) = .ok s') :
    s'.rules = s.rules.insert key (.ofList fields) ∧ s'.tunnels = s.tunnels := by
  simp only [perform, setRule] at done
  split at done
  · cases done
  · cases done; exact ⟨rfl, rfl⟩

theorem perform_deleteRule {key : String} (done : s.perform (.deleteRule key) = .ok s') :
    s'.rules = s.rules.erase key ∧ s'.tunnels = s.tunnels := by
  simp only [perform, deleteRule] at done
  split at done
  · cases done
  · cases done; exact ⟨rfl, rfl⟩

theorem perform_createTunnel {hop : TunnelHop} (done : s.perform (.createTunnel hop) = .ok s') :
    s'.rules = s.rules ∧ s'.tunnels = s.tunnels.insert hop.render s'.lastHandle := by
  simp only [perform, createTunnel] at done
  split at done
  · cases done
  · split at done
    · cases done
    · cases done; exact ⟨rfl, rfl⟩

theorem perform_removeTunnel {hop : TunnelHop} (done : s.perform (.removeTunnel hop) = .ok s') :
    s'.rules = s.rules ∧ s'.tunnels = s.tunnels.erase hop.render := by
  simp only [perform, removeTunnel] at done
  split at done
  · cases done
  · split at done
    · cases done; exact ⟨rfl, rfl⟩
    · cases done

theorem perform_table {call : Call} (table : call.isTable = true)
    (done : s.perform call = .ok s') : s'.rules = s.rules ∧ s'.tunnels = s.tunnels := by
  cases call with
  | setTableType name fields =>
    simp only [perform, setTableType] at done
    split at done
    · cases done
    · cases done; exact ⟨rfl, rfl⟩
  | setTable name fields =>
    simp only [perform, setTable] at done
    split at done
    · cases done
    · cases done; exact ⟨rfl, rfl⟩
  | setRule | deleteRule | createTunnel | removeTunnel => cases table

end performed

end Switch

end EniForwarding
