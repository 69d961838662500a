import EniForwarding.Environment
import EniForwarding.Proofs.Switch

/-! What the trace of an environment tells.

The trace is a history with the newest event first, so a moment of a run is a suffix of
the trace. The successful calls up to a moment make up the switch of that moment, and
the users gained and lost up to it make up the users of a tunnel next hop. A history
is orderly if every call in it was acceptable when it was made: it wrote what was not
there, or took away what was.
-/

set_option autoImplicit false

namespace EniForwarding

abbrev History := List Event

/-- The event is no successful call, is about no rule and no tunnel next hop. -/
def Event.Idle : Event → Prop
  | .asked _ | .audited _ => True
  | .called call failure => call.isTable = true ∧ failure.isSome = true
  | .joined _ | .left _ _ => False

namespace History

/-- The switch that the successful calls make out of an empty one. -/
def recalled : History → Switch
  | [] => .empty
  | .called call none :: earlier => (recalled earlier).after call
  | .called _ (some _) :: earlier => recalled earlier
  | .asked _ :: earlier => recalled earlier
  | .audited _ :: earlier => recalled earlier
  | .joined _ :: earlier => recalled earlier
  | .left _ _ :: earlier => recalled earlier

/-- How many more users a tunnel next hop has gained than lost. -/
def references (hop : TunnelHop) : History → Nat
  | [] => 0
  | .joined other :: earlier => references hop earlier + if other = hop then 1 else 0
  | .left other _ :: earlier => references hop earlier - if other = hop then 1 else 0
  | .called _ _ :: earlier => references hop earlier
  | .asked _ :: earlier => references hop earlier
  | .audited _ :: earlier => references hop earlier

def done : History → List Call
  | [] => []
  | .called call none :: earlier => done earlier ++ [call]
  | .called _ (some _) :: earlier => done earlier
  | .asked _ :: earlier => done earlier
  | .audited _ :: earlier => done earlier
  | .joined _ :: earlier => done earlier
  | .left _ _ :: earlier => done earlier

def Always (p : History → Prop) (h : History) : Prop := ∀ moment, moment <:+ h → p moment

/-- Every call was acceptable when it was made, whether it succeeded or not. -/
def Orderly (h : History) : Prop :=
  h.Always fun
    | .called call _ :: earlier => (recalled earlier).Accepts call
    | _ => True

/-- No tunnel next hop ever had more users than can be counted. -/
def Countable (h : History) : Prop := h.Always fun moment => ∀ hop, moment.references hop < UInt32.size

/-- Nobody gave back a tunnel next hop that was not known. -/
def Trusting (h : History) : Prop := ∀ hop, Event.left hop false ∉ h

theorem done_append (later earlier : History) :
    done (later ++ earlier) = done earlier ++ done later := by
  induction later with
  | nil => simp [done]
  | cons e later ih =>
    cases e with
    | called call failure => cases failure <;> simp [done, ih]
    | asked | audited | joined | left => exact ih

theorem mem_done {h : History} {call : Call} : call ∈ h.done ↔ Event.called call none ∈ h := by
  induction h with
  | nil => simp [done]
  | cons e earlier ih =>
    cases e with
    | called other refusal => cases refusal <;> simp [done, ih, or_comm]
    | asked | audited | joined | left => simp [done, ih]

section always

variable {p : History → Prop} {e : Event} {earlier h : History}

@[simp]
theorem always_nil : Always p [] ↔ p [] := by
  simp [Always]

@[simp]
theorem always_cons : Always p (e :: earlier) ↔ p (e :: earlier) ∧ Always p earlier := by
  simp [Always, List.suffix_cons_iff]

theorem Always.now (always : h.Always p) : p h := always h h.suffix_refl

theorem Always.before (always : h.Always p) (suffix : earlier <:+ h) : earlier.Always p :=
  fun moment still => always moment (still.trans suffix)

end always

theorem references_le_length (hop : TunnelHop) (h : History) : references hop h ≤ h.length := by
  induction h with
  | nil => exact Nat.le_refl 0
  | cons e earlier ih =>
    rw [List.length_cons]
    cases e with
    | joined other =>
      unfold references
      split <;> omega
    | called | asked | audited | left =>
      unfold references
      omega

theorem countable_of_length {h : History} (short : h.length < UInt32.size) : h.Countable := by
  intro moment suffix hop
  have fewer := references_le_length hop moment
  have shorter := suffix.length_le
  omega

section idle

variable {e : Event} (earlier : History)

theorem recalled_idle (idle : e.Idle) : recalled (e :: earlier) = recalled earlier := by
  cases e with
  | called call failure =>
    cases failure with
    | none => exact absurd idle.2 (by simp)
    | some message => rfl
  | asked | audited => rfl
  | joined | left => exact idle.elim

theorem references_idle (hop : TunnelHop) (idle : e.Idle) :
    references hop (e :: earlier) = references hop earlier := by
  cases e with
  | called | asked | audited => rfl
  | joined | left => exact idle.elim

theorem orderly_idle (idle : e.Idle) : Orderly (e :: earlier) ↔ Orderly earlier := by
  cases e with
  | called call failure =>
    cases call with
    | setTableType | setTable => simp [Orderly, Switch.Accepts]
    | setRule | deleteRule | createTunnel | removeTunnel => exact absurd idle.1 (by simp [Call.isTable])
  | asked | audited => simp [Orderly]
  | joined | left => exact idle.elim

end idle

theorem Trusting.cons {e : Event} {earlier : History} (trusting : Trusting earlier)
    (other : ∀ hop, e ≠ .left hop false) : Trusting (e :: earlier) := by
  intro hop member
  rcases List.mem_cons.1 member with new | old
  · exact other hop new.symm
  · exact trusting hop old

section entered

-- a user is entered behind the call that it needs and the record of that call
variable {user : Event} {record : Audit.Record} {call : Call} {earlier : History}

theorem Orderly.entered (orderly : Orderly earlier) (accepted : (recalled earlier).Accepts call)
    (entry : ∀ call failure, user ≠ .called call failure) :
    Orderly (user :: .audited record :: .called call none :: earlier) := by
  have called : Orderly (.called call none :: earlier) := always_cons.2 ⟨accepted, orderly⟩
  have audited : Orderly (.audited record :: .called call none :: earlier) :=
    always_cons.2 ⟨trivial, called⟩
  cases user with
  | called call failure => exact absurd rfl (entry call failure)
  | asked | audited | joined | left => exact always_cons.2 ⟨trivial, audited⟩

theorem Trusting.entered (trusting : Trusting earlier) (known : ∀ hop, user ≠ .left hop false) :
    Trusting (user :: .audited record :: .called call none :: earlier) :=
  ((trusting.cons (by simp)).cons (by simp)).cons known

end entered

theorem recalled_calm (h : History) : (recalled h).calm = recalled h := by
  induction h with
  | nil => rfl
  | cons e earlier ih =>
    cases e with
    | called call failure =>
      cases failure with
      | some message => exact ih
      | none =>
        simp only [recalled, Switch.after]
        split
        next s' done =>
          have calmed := Switch.perform_calm done
          rw [ih, done] at calmed
          exact (Except.ok.inj calmed).symm
        next => exact ih
    | asked | audited | joined | left => exact ih

/-- A call that succeeds on the switch makes the same of what is remembered of it. -/
theorem recalled_called {h : History} {s s' : Switch} {call : Call} (known : recalled h = s.calm)
    (done : s.perform call = .ok s') : recalled (.called call none :: h) = s'.calm := by
  rw [recalled, known, Switch.after, Switch.perform_calm done]

end History

end EniForwarding
