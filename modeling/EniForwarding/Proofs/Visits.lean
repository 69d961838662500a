import EniForwarding.Proofs.Lawful

/-! The states that a run goes through.

A run carries out its deeds one after the other, some of them in the middle of a pass. What the
deeds and all that happens beside them do, they have done in each state that the run goes
through, and not only in the last one.
-/

set_option autoImplicit false

namespace EniForwarding

namespace Reconciler

/-- The states that a run goes through: the last one, and those in which it carries out a deed,
also in the middle of a pass. -/
def Visits (s : Reconciler) (requests : List Request) (s' : Reconciler) : Prop :=
  s' = s.run requests ∨ ∃ deed, (deed, s') ∈ deeds s requests

section related

variable {R : Reconciler → Reconciler → Prop}
  (beside : ∀ {s s' : Reconciler}, Beside s s' → R s s') [IsTrans Reconciler R]

include beside

theorem workDeeds_related {entries : List Entry} {blocked : SortedSet String} {s s' : Reconciler}
    {d : Deed} (deed : ∀ d t, (d, t) ∈ workDeeds entries blocked s → R t (d.act t).2)
    (member : (d, s') ∈ workDeeds entries blocked s) : R s s' := by
  -- the same case distinctions as in the work itself, with what is blocked so far
  induction entries generalizing blocked s with
  | nil => cases member
  | cons entry rest ih =>
    unfold workDeeds at deed member
    split at member
    next waits =>
      rw [if_pos waits] at deed
      exact ih deed member
    next free =>
      rw [if_neg free] at deed
      have followed : R s (follow entry s).2 :=
        follow_related beside entry s fun d t now => deed d t (List.mem_append_left _ now)
      have later := fun d t after => deed d t (List.mem_append_right _ after)
      rcases List.mem_append.1 member with now | after
      · unfold entryDeeds at now
        split at now
        · cases now
        · cases List.mem_singleton.1 now
          exact beside (beside_backlog _ _)
      · generalize follow entry s = outcome at followed later after
        obtain ⟨e | _, s''⟩ := outcome
        · have recorded : R s (recordFailure entry e s'') :=
            IsTrans.trans _ _ _ followed (beside (beside_recordFailure entry e s''))
          dsimp only at later after
          split at after
          next again =>
            rw [if_pos again] at later
            exact IsTrans.trans _ _ _ recorded (ih later after)
          next lasting =>
            rw [if_neg lasting] at later
            exact IsTrans.trans _ _ _ recorded (ih later after)
        · exact IsTrans.trans _ _ _ followed (ih later after)

theorem work_of_workDeeds {entries : List Entry} {blocked : SortedSet String} {s s' : Reconciler}
    {d : Deed} (deed : ∀ d t, (d, t) ∈ workDeeds entries blocked s → R t (d.act t).2)
    (member : (d, s') ∈ workDeeds entries blocked s) : R s' (work entries blocked s).2 := by
  induction entries generalizing blocked s with
  | nil => cases member
  | cons entry rest ih =>
    have all : R s (work (entry :: rest) blocked s).2 :=
      work_related beside (entry :: rest) blocked s deed
    unfold workDeeds at deed member
    unfold work at all ⊢
    split at member
    next waits =>
      rw [if_pos waits] at deed ⊢
      exact ih deed member
    next free =>
      rw [if_neg free] at deed all ⊢
      have later := fun d t after => deed d t (List.mem_append_right _ after)
      rcases List.mem_append.1 member with now | after
      · unfold entryDeeds at now
        split at now
        · cases now
        · cases List.mem_singleton.1 now
          exact all
      · generalize follow entry s = outcome at later after ⊢
        obtain ⟨e | _, s''⟩ := outcome
        · dsimp only at later after ⊢
          split at after
          next again =>
            rw [if_pos again] at later ⊢
            exact ih later after
          next lasting =>
            rw [if_neg lasting] at later ⊢
            exact ih later after
        · exact ih later after

/-- What every deed and everything beside the deeds does is done in all states on the way. -/
theorem Visits.related (prepare : ∀ s : Reconciler, R s (ensureInitialized s).2)
    (neighbor : ∀ (u : NeighborUpdate) (s : Reconciler), R s (onNeighbor u s).2)
    (surround : ∀ inventory faults rejectsAcl rejectsTunnels (s : Reconciler),
      R s (s.surround inventory faults rejectsAcl rejectsTunnels))
    {requests : List Request} {s s' : Reconciler} (visits : Visits s requests s')
    (deed : ∀ d t, (d, t) ∈ deeds s requests → R t (d.act t).2) : R s s' := by
  rcases visits with rfl | ⟨d, member⟩
  · exact run_related beside prepare neighbor requests s
      (fun inventory faults acl tunnels _ => surround inventory faults acl tunnels) deed
  induction requests generalizing s with
  | nil => cases member
  | cons request rest ih =>
    have now := fun d t here => deed d t (List.mem_append_left _ here)
    rcases List.mem_append.1 member with here | after
    · cases request with
      | set | delete =>
        cases List.mem_singleton.1 here
        exact beside (beside_backlog _ _)
      | doTask =>
        have cleared : R s { s with backlog := s.backlog.clear } := beside (beside_backlog s _)
        exact IsTrans.trans _ _ _ cleared (workDeeds_related beside now here)
      | enqueue | prepare | neighbor | surroundings => cases here
    · have handled : R s (s.run [request]) := by
        refine run_related beside prepare neighbor [request] s
          (fun inventory faults acl tunnels _ => surround inventory faults acl tunnels) ?_
        intro d t here
        have all : deeds s [request] = s.requestDeeds request := List.append_nil _
        exact now d t (all ▸ here)
      exact IsTrans.trans _ _ _ handled
        (ih (fun d t later => deed d t (List.mem_append_right _ later)) after)

/-- From each state on the way, the rest of the run is still to be done. -/
theorem Visits.onward (prepare : ∀ s : Reconciler, R s (ensureInitialized s).2)
    (neighbor : ∀ (u : NeighborUpdate) (s : Reconciler), R s (onNeighbor u s).2)
    (surround : ∀ inventory faults rejectsAcl rejectsTunnels (s : Reconciler),
      R s (s.surround inventory faults rejectsAcl rejectsTunnels))
    {requests : List Request} {s s' : Reconciler} (visits : Visits s requests s')
    (deed : ∀ d t, (d, t) ∈ deeds s requests → R t (d.act t).2) : R s' (s.run requests) := by
  rcases visits with rfl | ⟨d, member⟩
  · exact beside (beside_backlog _ _)
  induction requests generalizing s with
  | nil => cases member
  | cons request rest ih =>
    have later := fun d t after => deed d t (List.mem_append_right _ after)
    rcases List.mem_append.1 member with here | after
    · have rest_done : R (s.handle request) (run (s.handle request) rest) :=
        run_related beside prepare neighbor rest _
          (fun inventory faults acl tunnels _ => surround inventory faults acl tunnels) later
      refine IsTrans.trans _ _ _ ?_ rest_done
      cases request with
      | set | delete =>
        cases List.mem_singleton.1 here
        exact deed _ _ member
      | doTask =>
        have worked := work_of_workDeeds beside
          (fun d t now => deed d t (List.mem_append_left _ now)) here
        -- what waits goes back to the backlog
        exact IsTrans.trans _ _ _ worked (beside (beside_backlog _ _))
      | enqueue | prepare | neighbor | surroundings => cases here
    · exact ih later after

end related

section headcounts

variable {key : EniKey} {fields : Fields} {s t : Reconciler}

theorem headcount_of_entryDeed {entry : Entry} (member : (.set key fields, t) ∈ entryDeeds entry s) :
    setHeadcount key fields t = entryHeadcount entry s := by
  unfold entryDeeds at member
  split at member
  · cases member
  next deed asked =>
    cases List.mem_singleton.1 member
    obtain ⟨read, op, rfl⟩ := Deed.ofEntry_eq_set_iff.1 asked
    simp only [entryHeadcount, read, op]

theorem headcount_of_workDeed {entries : List Entry} {blocked : SortedSet String}
    (member : (.set key fields, t) ∈ workDeeds entries blocked s) :
    setHeadcount key fields t ∈ workHeadcounts entries blocked s := by
  induction entries generalizing blocked s with
  | nil => cases member
  | cons entry rest ih =>
    unfold workDeeds at member
    unfold workHeadcounts
    split at member
    next waits =>
      rw [if_pos waits]
      exact ih member
    next free =>
      rw [if_neg free]
      rcases List.mem_append.1 member with now | after
      · rw [headcount_of_entryDeed now]
        exact List.mem_cons_self
      · refine List.mem_cons_of_mem _ ?_
        generalize follow entry s = outcome at after
        obtain ⟨e | _, s'⟩ := outcome
        · dsimp only at after ⊢
          split at after
          next again =>
            rw [if_pos again]
            exact ih after
          next lasting =>
            rw [if_neg lasting]
            exact ih after
        · exact ih after

theorem headcount_of_deed {requests : List Request}
    (member : (.set key fields, t) ∈ deeds s requests) :
    setHeadcount key fields t ∈ headcounts s requests := by
  induction requests generalizing s with
  | nil => cases member
  | cons request rest ih =>
    rcases List.mem_append.1 member with here | after
    · refine List.mem_append_left _ ?_
      cases request with
      | set =>
        cases List.mem_singleton.1 here
        exact List.mem_singleton_self _
      | delete => cases List.mem_singleton.1 here
      | doTask => exact headcount_of_workDeed here
      | enqueue | prepare | neighbor | surroundings => cases here
    · exact List.mem_append_right _ (ih after)

end headcounts

variable {requests : List Request} {s s' : Reconciler}

theorem Visits.follows {fits : Nat → Prop} (visits : Visits s requests s')
    (fit : ∀ n ∈ s.headcounts requests, fits n) : Follows fits s s' := by
  refine visits.related (fun beside => beside.calm.follows)
    (fun s => (ensureInitialized_calm s).1.follows) (fun u s => (onNeighbor_leads u s).1) ?_ ?_
  · intro inventory faults acl tunnels s
    exact handle_follows (.surroundings inventory faults acl tunnels) s (by simp [requestHeadcounts])
  · rintro (⟨key, fields⟩ | ⟨key⟩) t member
    · exact (set_leads key fields (fit _ (headcount_of_deed member))).1
    · exact (delete_leads key t).1

theorem Visits.lawful {config : Config} {inventory : Inventory}
    (visits : Visits (fresh config inventory) requests s) : s.Lawful ∧ s.config = config := by
  refine (fresh_lawful config inventory).advance (visits.related Beside.advances
    ensureInitialized_advances onNeighbor_advances ?_ fun deed t _ => act_advances deed t)
  exact fun inventory faults acl tunnels s => s.surround_advances inventory faults acl tunnels

theorem Visits.reachable {config : Config} {inventory : Inventory} {fits : Nat → Prop}
    (visits : Visits (fresh config inventory) requests s)
    (fit : ∀ n ∈ (fresh config inventory).headcounts requests, fits n) :
    s.Kept ∧ World.Reachable fits s.world := by
  obtain ⟨kept, -, steps⟩ := visits.follows fit (.fresh config inventory)
  exact ⟨kept, inventory, config.table, config.basePriority, steps⟩

end Reconciler

end EniForwarding
