import EniForwarding.Proofs.Deeds

/-! What happens in a run.

ENIs change by deeds and by news about neighbors. Together these are what happens in a run,
and what has happened so far is known in every state that the run goes through.
-/

set_option autoImplicit false

namespace EniForwarding

namespace Reconciler

inductive Happening where
  | deed (deed : Deed)
  | news (update : NeighborUpdate)

def Happening.act : Happening → Step Unit
  | .deed d => d.act
  | .news u => onNeighbor u

def requestHappenings (s : Reconciler) : Request → List (Happening × Reconciler)
  | .neighbor update => [(.news update, s)]
  | request => (s.requestDeeds request).map (Prod.map .deed id)

def happenings : Reconciler → List Request → List (Happening × Reconciler)
  | _, [] => []
  | s, request :: rest => s.requestHappenings request ++ happenings (s.handle request) rest

/-- A state that a run goes through after all this has happened: the last one, and those in which
something happens, also in the middle of a pass. -/
def VisitsAfter (s : Reconciler) (requests : List Request) (past : List (Happening × Reconciler))
    (s' : Reconciler) : Prop :=
  past = s.happenings requests ∧ s' = s.run requests ∨
    ∃ happening later, s.happenings requests = past ++ (happening, s') :: later

section along

variable {R : List (Happening × Reconciler) → Reconciler → Reconciler → Prop}
  (join : ∀ {hs hs' s s' s''}, R hs s s' → R hs' s' s'' → R (hs ++ hs') s s'')
  (beside : ∀ {s s' : Reconciler}, Beside s s' → R [] s s')
  (happens : ∀ h s, R [(h, s)] s (h.act s).2)

include join beside happens

theorem happenings_along (prepare : ∀ s : Reconciler, R [] s (ensureInitialized s).2)
    (surround : ∀ inventory faults rejectsAcl rejectsTunnels (s : Reconciler),
      R [] s (s.surround inventory faults rejectsAcl rejectsTunnels))
    (requests : List Request) (s : Reconciler) : R (s.happenings requests) s (s.run requests) := by
  induction requests generalizing s with
  | nil => exact beside (beside_backlog s s.backlog)
  | cons request rest ih =>
    refine join ?_ (ih (s.handle request))
    cases request with
    | enqueue entries => exact beside (beside_backlog s _)
    | doTask =>
      refine doTask_along (R := fun ds => R (ds.map (Prod.map .deed id))) ?_ ?_ ?_ ?_ s
      · intro ds ds' s s' s'' first second
        rw [List.map_append]
        exact join first second
      · exact fun s b => beside (beside_backlog s b)
      · exact fun entry e s => beside (beside_recordFailure entry e s)
      · exact fun d s => happens (.deed d) s
    | set key fields => exact happens (.deed (.set key fields)) s
    | delete key => exact happens (.deed (.delete key)) s
    | prepare => exact prepare s
    | neighbor update => exact happens (.news update) s
    | surroundings inventory faults rejectsAcl rejectsTunnels =>
      exact surround inventory faults rejectsAcl rejectsTunnels s

end along

/-- What is said of a past and a state goes from one state to the next, and so to all states on
the way. -/
def Carries (P : List (Happening × Reconciler) → Reconciler → Prop)
    (hs : List (Happening × Reconciler)) (s s' : Reconciler) : Prop :=
  ∀ past, P past s → P (past ++ hs) s' ∧
    ∀ before happening t later, hs = before ++ (happening, t) :: later → P (past ++ before) t

section carries

variable {P : List (Happening × Reconciler) → Reconciler → Prop}

theorem carries_nil {s s' : Reconciler} (step : ∀ past, P past s → P past s') : Carries P [] s s' := by
  refine fun past holds => ⟨by rw [List.append_nil]; exact step past holds, ?_⟩
  intro before happening t later split
  simp at split

theorem carries_single {h : Happening} {s s' : Reconciler}
    (step : ∀ past, P past s → P (past ++ [(h, s)]) s') : Carries P [(h, s)] s s' := by
  refine fun past holds => ⟨step past holds, fun before happening t later split => ?_⟩
  cases before with
  | nil =>
    cases split
    rwa [List.append_nil]
  | cons first before => simp at split

theorem Carries.join {hs hs' : List (Happening × Reconciler)} {s s' s'' : Reconciler}
    (first : Carries P hs s s') (second : Carries P hs' s' s'') : Carries P (hs ++ hs') s s'' := by
  intro past holds
  obtain ⟨between, early⟩ := first past holds
  obtain ⟨after, late⟩ := second (past ++ hs) between
  refine ⟨by rwa [← List.append_assoc], fun before happening t later split => ?_⟩
  rcases List.append_eq_append_iff.1 split with ⟨more, rfl, rest⟩ | ⟨more, rfl, rest⟩
  · rw [← List.append_assoc]
    exact late more happening t later rest
  · cases more with
    | nil =>
      simpa using late [] happening t later rest.symm
    | cons here more =>
      cases rest
      exact early before _ _ more rfl

/-- What holds before anything has happened, and is kept by all that happens and by what is done
besides, holds in every state on the way. -/
theorem VisitsAfter.holds (beside : ∀ past {s s' : Reconciler}, Beside s s' → P past s → P past s')
    (prepare : ∀ past (s : Reconciler), P past s → P past (ensureInitialized s).2)
    (surround : ∀ inventory faults rejectsAcl rejectsTunnels past (s : Reconciler), P past s →
      P past (s.surround inventory faults rejectsAcl rejectsTunnels))
    (happens : ∀ happening past s, P past s → P (past ++ [(happening, s)]) (happening.act s).2)
    {requests : List Request} {s s' : Reconciler} {past : List (Happening × Reconciler)}
    (visits : VisitsAfter s requests past s') (start : P [] s) : P past s' := by
  have carries : Carries P (s.happenings requests) s (s.run requests) := by
    refine happenings_along Carries.join (fun next => ?_) (fun h s => ?_) (fun s => ?_)
      (fun i f a t s => ?_) requests s
    · exact carries_nil fun past => beside past next
    · exact carries_single fun past => happens h past s
    · exact carries_nil fun past => prepare past s
    · exact carries_nil fun past => surround i f a t past s
  obtain ⟨last, between⟩ := carries [] start
  rcases visits with ⟨rfl, rfl⟩ | ⟨happening, later, split⟩
  · exact last
  · exact between past happening s' later split

end carries

end Reconciler

end EniForwarding
