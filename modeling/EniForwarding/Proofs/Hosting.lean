import EniForwarding.Proofs.Initialization
import EniForwarding.Proofs.Waiting

/-! Where ENIs are hosted.

The index of hosted ENIs is written when an ENI is put in the table and cleaned when it is
struck, and what it says is computed from the DPUs that are known then. Since these stay as
they are from the first ENI on, the index can be told from the table of ENIs at all times,
whatever became of the operations on them.
-/

set_option autoImplicit false

namespace EniForwarding

open Tables

def Dpus.HasLocal (dpus : Dpus) (id : UInt64) : Prop :=
  ∃ dpu, dpus.get? id = some dpu ∧ dpu.isLocal = true

/-- The first of the endpoints that is registered and on the switch. -/
def Dpus.FirstLocal (dpus : Dpus) (endpoints : List UInt64) (id : UInt64) : Prop :=
  dpus.HasLocal id ∧
    ∃ before after, endpoints = before ++ id :: after ∧ ∀ other ∈ before, ¬ dpus.HasLocal other

namespace Dpus

variable {dpus : Dpus} {id : UInt64}

theorem isLocal_iff : dpus.isLocal id = true ↔ dpus.HasLocal id := by
  unfold isLocal HasLocal
  cases dpus.get? id <;> simp

end Dpus

namespace EniAttributes

variable {a : EniAttributes} {dpus : Dpus} {id : UInt64}

theorem localEndpoint_eq_some : a.localEndpoint dpus = some id ↔ dpus.FirstLocal a.endpoints id := by
  simp only [localEndpoint, List.find?_eq_some_iff_append, Dpus.FirstLocal, Bool.not_eq_true',
    Bool.eq_false_iff, ne_eq, Dpus.isLocal_iff]

theorem localEndpoint_isSome :
    (a.localEndpoint dpus).isSome = true ↔ ∃ id ∈ a.endpoints, dpus.HasLocal id := by
  simp only [localEndpoint, List.find?_isSome, Dpus.isLocal_iff]

theorem localEndpoint_of_lasting {a' : EniAttributes} (same : a'.lasting = a.lasting) :
    a'.localEndpoint dpus = a.localEndpoint dpus := by
  have endpoints : a'.endpoints = a.endpoints := congrArg (·.endpoints) same
  rw [localEndpoint, localEndpoint, endpoints]

end EniAttributes

namespace Reconciler

/-- The index lists an ENI under a DPU just when the ENI is in the table and the DPU is its local
endpoint; it has no empty sets, and the ENIs stand in the table under their own keys. -/
structure Indexed (s : Reconciler) : Prop where
  hosts : ∀ dpu key, Hosts s.hosted dpu key ↔
    ∃ eni, s.enis.get? key = some eni ∧ s.ctx.dpus.FirstLocal eni.attributes.endpoints dpu
  filled : ∀ dpu keys, s.hosted.get? dpu = some keys → keys.isEmpty = false
  named : ∀ key eni, s.enis.get? key = some eni → eni.attributes.key = key

theorem Lawful.indexed {s : Reconciler} (lawful : s.Lawful) : s.Indexed where
  hosts dpu key := by
    have hosts := lawful.inOrder.hosts dpu key
    simp only [Eni.localEndpoint, EniAttributes.localEndpoint_eq_some] at hosts
    exact hosts
  filled dpu keys listed := by
    obtain ⟨key, there⟩ := lawful.filled dpu keys listed
    exact SortedMap.isEmpty_of_contains there
  named key eni there := (lawful.kept.tidy key eni there).1

/-- The index of hosted ENIs is the inverse of their local endpoints. It is so in every state that
a run goes through, also in the middle of a pass, and whatever is done next keeps it so: a write
or a deletion, however it ends, and any other request. -/
theorem hosted_inverts (config : Config) (inventory : Inventory) (requests : List Request)
    {s : Reconciler} (visits : Visits (fresh config inventory) requests s) :
    s.Indexed ∧ (∀ deed : Deed, (deed.act s).2.Indexed) ∧
      ∀ request, (s.handle request).Indexed := by
  obtain ⟨lawful, -⟩ := visits.lawful
  refine ⟨lawful.indexed, fun deed => (lawful.act deed).1.indexed, fun request => ?_⟩
  exact (lawful.run [request]).indexed

theorem sample_hosted_inverts :
    Hosts ((fresh {} twoHosts).run (waitingRequests "4" secondAddress)).hosted 1 sampleEni ∧
      ∀ dpu, ¬ Hosts (delete sampleEni
        ((fresh {} twoHosts).run (waitingRequests "4" secondAddress))).2.hosted dpu sampleEni := by
  obtain ⟨indexed, deeds, -⟩ :=
    hosted_inverts {} twoHosts (waitingRequests "4" secondAddress) (.inl rfl)
  have indexed' := deeds (.delete sampleEni)
  have facts :
      let s := (fresh {} twoHosts).run (waitingRequests "4" secondAddress)
      (s.enis.get? sampleEni).bind (fun eni => eni.localEndpoint s.ctx.dpus) = some 1 ∧
        ((Deed.delete sampleEni).act s).2.enis.get? sampleEni = none := by
    decide +kernel
  generalize (fresh {} twoHosts).run (waitingRequests "4" secondAddress) = s at indexed indexed' facts ⊢
  obtain ⟨first, gone⟩ := facts
  constructor
  · obtain ⟨eni, there, endpoint⟩ := Option.bind_eq_some_iff.1 first
    exact (indexed.hosts 1 sampleEni).2 ⟨eni, there, EniAttributes.localEndpoint_eq_some.1 endpoint⟩
  · intro dpu hosts
    obtain ⟨eni, there, -⟩ := (indexed'.hosts dpu sampleEni).1 hosts
    cases gone.symm.trans there

end Reconciler

end EniForwarding
