import EniForwarding.Proofs.Attending
import EniForwarding.Proofs.Pass

/-! The log of a pass.

A pass attends to the entries of its backlog one after the other, but for those that are
blocked. Its log lists them, each with the state in which the pass came to it, so that what a
pass does can be told along the log, without a look at what was blocked.
-/

set_option autoImplicit false

namespace EniForwarding

namespace Reconciler

/-- The entries that the work attends to, each with the state that it is attended to in. -/
def attempts : List Entry → SortedSet String → Reconciler → List (Entry × Reconciler)
  | [], _, _ => []
  | entry :: rest, blocked, s =>
    if blocked.contains entry.key then attempts rest blocked s
    else
      (entry, s) ::
        match follow entry s with
        | (.ok (), s) => attempts rest blocked s
        | (.error e, s) =>
          let s := recordFailure entry e s
          if e.status.isRetryable then attempts rest (SortedSet.add blocked entry.key) s
          else attempts rest blocked s

abbrev passLog (s : Reconciler) : List (Entry × Reconciler) :=
  attempts s.backlog.entries ∅ { s with backlog := s.backlog.clear }

def failed? (attempt : Entry × Reconciler) : Option Failure :=
  match (follow attempt.1 attempt.2).1 with
  | .ok () => none
  | .error e => some e

theorem failed?_eq_some {entry : Entry} {s : Reconciler} {e : Failure} :
    failed? (entry, s) = some e ↔ (follow entry s).1 = .error e := by
  unfold failed?
  cases (follow entry s).1 <;> simp

/-- The attempts of a log are made one after the other, each in the state that the one before it
has left. -/
inductive Chain : Reconciler → List (Entry × Reconciler) → Reconciler → Prop
  | nothing (s : Reconciler) : Chain s [] s
  | attended {entry : Entry} {s t : Reconciler} {log : List (Entry × Reconciler)}
      (later : Chain (attend entry s).2 log t) : Chain s ((entry, s) :: log) t

section work

variable {entry : Entry} {s t : Reconciler}

theorem attend_of_ok (followed : follow entry s = (.ok (), t)) : attend entry s = (.ok (), t) := by
  rw [attend, followed]

theorem attend_of_error {e : Failure} (followed : follow entry s = (.error e, t)) :
    attend entry s = (.error e, recordFailure entry e t) := by
  rw [attend, followed]

theorem work_chain (entries : List Entry) (blocked : SortedSet String) (s : Reconciler) :
    Chain s (attempts entries blocked s) (work entries blocked s).2 := by
  -- the same case distinctions as in the work itself, with what is blocked so far
  induction entries generalizing blocked s with
  | nil => exact .nothing s
  | cons entry rest ih =>
    unfold attempts work
    split
    · exact ih blocked s
    · constructor
      cases followed : follow entry s with | mk result s' =>
      cases result with
      | ok _ =>
        rw [attend_of_ok followed]
        exact ih blocked s'
      | error e =>
        rw [attend_of_error followed]
        dsimp only
        split <;> exact ih _ _

theorem waits_of_attempt {entries : List Entry} {blocked : SortedSet String} {e : Failure}
    (member : (entry, t) ∈ attempts entries blocked s) (failed : failed? (entry, t) = some e)
    (again : e.status.isRetryable = true) : entry ∈ (work entries blocked s).1 := by
  induction entries generalizing blocked s with
  | nil => cases member
  | cons first rest ih =>
    unfold attempts at member
    unfold work
    split at member
    next blocks =>
      rw [if_pos blocks]
      exact List.mem_cons_of_mem _ (ih member)
    next free =>
      rw [if_neg free]
      rcases List.mem_cons.1 member with here | after
      · cases here
        have failed := failed?_eq_some.1 failed
        generalize follow entry t = outcome at failed ⊢
        obtain ⟨result, s'⟩ := outcome
        cases failed
        dsimp only
        rw [if_pos again]
        exact List.mem_cons_self
      · generalize follow first s = outcome at after
        obtain ⟨e' | _, s'⟩ := outcome
        · dsimp only at after ⊢
          split at after
          next waits =>
            rw [if_pos waits]
            exact List.mem_cons_of_mem _ (ih after)
          next lasts =>
            rw [if_neg lasts]
            exact ih after
        · exact ih after

/-- Where no attempt fails for a reason that may pass, nothing has to wait and the work attends
to all entries that nothing blocks. -/
theorem attempts_once {entries : List Entry} {blocked : SortedSet String}
    (free : ∀ e ∈ entries, blocked.contains e.key = false)
    (once : ∀ attempt ∈ attempts entries blocked s, ∀ e,
      failed? attempt = some e → e.status.isRetryable = false) :
    (attempts entries blocked s).map Prod.fst = entries := by
  induction entries generalizing s with
  | nil => rfl
  | cons entry rest ih =>
    have unblocked : ¬ blocked.contains entry.key = true := by
      simp [free entry List.mem_cons_self]
    unfold attempts at once ⊢
    rw [if_neg unblocked] at once ⊢
    have here := once (entry, s) List.mem_cons_self
    simp only [failed?_eq_some] at here
    have later := fun attempt member => once attempt (List.mem_cons_of_mem _ member)
    have free := fun e member => free e (List.mem_cons_of_mem _ member)
    rw [List.map_cons]
    congr 1
    generalize follow entry s = outcome at here later
    obtain ⟨e | _, s'⟩ := outcome
    · have lasts : ¬ e.status.isRetryable = true := by simp [here e rfl]
      dsimp only at later ⊢
      rw [if_neg lasts] at later ⊢
      exact ih free later
    · exact ih free later

theorem Chain.related {R : Reconciler → Reconciler → Prop} [Std.Refl R] [IsTrans Reconciler R]
    (attempt : ∀ entry s, R s (attend entry s).2) {log : List (Entry × Reconciler)} {u : Reconciler}
    (chain : Chain s log u) (member : (entry, t) ∈ log) : R s t := by
  induction chain with
  | nothing => cases member
  | @attended first s _ _ _ ih =>
    rcases List.mem_cons.1 member with here | later
    · cases here
      exact Std.Refl.refl _
    · exact IsTrans.trans _ _ _ (attempt first s) (ih later)

/-- What comes behind an attempt goes on from what the attempt has left. -/
theorem Chain.onward {s t : Reconciler} {before after : List (Entry × Reconciler)}
    {attempt : Entry × Reconciler} (chain : Chain s (before ++ attempt :: after) t) :
    Chain (attend attempt.1 attempt.2).2 after t := by
  induction before generalizing s with
  | nil =>
    cases chain with
    | attended later => exact later
  | cons first before ih =>
    cases chain with
    | attended later => exact ih later

theorem attend_rests (entry : Entry) (s : Reconciler) : Rests s (attend entry s).2 := by
  have followed := follow_rests entry s
  unfold attend
  generalize follow entry s = outcome at followed
  obtain ⟨e | _, s'⟩ := outcome
  · exact ⟨followed.backlog, followed.config⟩
  · exact followed

end work

theorem doTask_chain (s : Reconciler) :
    Chain { s with backlog := s.backlog.clear } s.passLog
      { s.doTask with backlog := s.backlog.clear } := by
  have chain := work_chain s.backlog.entries ∅ { s with backlog := s.backlog.clear }
  have left : { s.pass.2 with backlog := s.backlog.clear } = s.pass.2 := by rw [← pass_backlog]
  rw [doTask_eq]
  exact left.symm ▸ chain

theorem config_of_passLog {s t : Reconciler} {entry : Entry} (member : (entry, t) ∈ s.passLog) :
    t.config = s.config :=
  ((work_chain _ _ _).related attend_rests member).config

end Reconciler

end EniForwarding
