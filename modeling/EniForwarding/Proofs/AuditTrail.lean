import EniForwarding.Proofs.PassLog
import EniForwarding.Proofs.Telling

/-! The audit trail is complete and exact.

The records about rules and tunnel next hops that report a success are the calls that were
carried out, and those that report a failure are the calls that failed, in the order of the
calls. Both readings of a history go through it episode by episode, so it is enough that they
agree on each episode. What a pass records beside that is one failure for each entry that
could not be followed.
-/

set_option autoImplicit false

namespace EniForwarding

def Audit.workActions : List String :=
  ["install_rule", "remove_rule", "create_tunnel_nh", "remove_tunnel_nh"]

/-- The actions whose calls are recorded when they fail: those, and the writing of the table. -/
def Audit.callActions : List String := "create_acl_table" :: workActions

def Entry.notice (entry : Entry) (e : Failure) : Audit.Notice :=
  ⟨"process_entry", some entry.key, .failure, some e.message⟩

/-- What the event says if it is a record with this outcome and one of these actions. -/
def Event.noticed? (outcome : Audit.Outcome) (actions : List String) : Event → Option Audit.Notice
  | .audited r =>
    if r.notice.outcome = outcome ∧ r.notice.action ∈ actions then some r.notice else none
  | _ => none

/-- The call that failed, with the message. -/
def Event.lost? : Event → Option (Call × String)
  | .called call (some message) => some (call, message)
  | _ => none

namespace History

def noticed (outcome : Audit.Outcome) (actions : List String) (h : History) : List Audit.Notice :=
  h.reverse.filterMap (Event.noticed? outcome actions)

def lost (h : History) : List (Call × String) := h.reverse.filterMap Event.lost?

section append

variable (later earlier : History)

theorem noticed_append (outcome : Audit.Outcome) (actions : List String) :
    noticed outcome actions (later ++ earlier) =
      noticed outcome actions earlier ++ noticed outcome actions later := by
  simp [noticed]

theorem lost_append : lost (later ++ earlier) = lost earlier ++ lost later := by
  simp [lost]

end append

/-- The records are exact: the successes on rules and tunnel next hops are the calls that were
carried out, and the failures are the calls that failed. -/
structure Accounted (h : History) : Prop where
  successes : h.noticed .success Audit.workActions =
    (h.done.filter (!·.isTable)).filterMap (·.notice? none)
  failures : h.noticed .failure Audit.callActions =
    h.lost.filterMap fun lost => lost.1.notice? (some lost.2)

theorem Accounted.nil : Accounted [] := ⟨rfl, rfl⟩

theorem Accounted.append {later earlier : History} (after : Accounted later)
    (before : Accounted earlier) : Accounted (later ++ earlier) where
  successes := by
    rw [noticed_append, done_append, List.filter_append, List.filterMap_append, after.successes,
      before.successes]
  failures := by
    rw [noticed_append, lost_append, List.filterMap_append, after.failures, before.failures]

end History

section telling

variable {may : Call → Prop} {h : History}

theorem Call.action_of_notice? {call : Call} {refusal : Option String} {n : Audit.Notice}
    (notice : call.notice? refusal = some n) : n.action ∈ Audit.callActions := by
  cases call <;> cases refusal <;> cases notice <;> simp [Audit.callActions, Audit.workActions]

theorem History.accounted_recorded {call : Call} {refusal : Option String} {r : Audit.Record}
    (notice : call.notice? refusal = some r.notice) :
    Accounted [.audited r, .called call refusal] := by
  have said : ∀ outcome actions, noticed outcome actions [.audited r, .called call refusal] =
      (Event.noticed? outcome actions (.audited r)).toList := by
    intro outcome actions
    rw [noticed, List.reverse_cons, List.reverse_singleton, List.singleton_append,
      List.filterMap_cons_none rfl, List.filterMap_cons]
    cases Event.noticed? outcome actions (.audited r) <;> rfl
  cases refusal with
  | none =>
    cases call with
    | setTableType => cases notice
    | setTable | setRule | deleteRule | createTunnel | removeTunnel =>
      constructor <;> rw [said, Event.noticed?, ← Option.some.inj notice] <;> rfl
  | some message =>
    cases call with
    | setTableType => cases notice
    | setTable | setRule | deleteRule | createTunnel | removeTunnel =>
      constructor <;> rw [said, Event.noticed?, ← Option.some.inj notice] <;> rfl

/-- A call with its record is accounted for, and what is about no call reports no outcome of one. -/
theorem Episode.accounted (episode : Episode may h) : h.Accounted := by
  cases episode with
  | recorded _ notice => exact History.accounted_recorded notice
  | @unrecorded call refusal _ silent =>
    cases call with
    | setTableType name fields => cases refusal <;> exact ⟨rfl, rfl⟩
    | setTable | setRule | deleteRule | createTunnel | removeTunnel => cases silent
  | @remark e remark =>
    cases e with
    | called => exact remark.elim
    | asked | joined | left => exact ⟨rfl, rfl⟩
    | audited r =>
      have action : r.notice.action = "initialize" := remark
      constructor <;> simp [History.noticed, Event.noticed?, action, Audit.workActions,
        Audit.callActions, History.done, History.lost, Event.lost?]

theorem Told.accounted (told : Told may h) : h.Accounted := by
  induction told with
  | nothing => exact .nil
  | also episode _ ih => exact episode.accounted.append ih

theorem Episode.noticed_entries (episode : Episode may h) :
    h.noticed .failure ["process_entry"] = [] := by
  cases episode with
  | @recorded call refusal r _ notice =>
    have action : r.notice.action ≠ "process_entry" := fun same => by
      have known := same ▸ Call.action_of_notice? notice
      simp [Audit.callActions, Audit.workActions] at known
    simp [History.noticed, Event.noticed?, action]
  | unrecorded => rfl
  | @remark e remark =>
    cases e with
    | called => exact remark.elim
    | asked | joined | left => rfl
    | audited r =>
      have action : r.notice.action = "initialize" := remark
      simp [History.noticed, Event.noticed?, action]

theorem Told.noticed_entries (told : Told may h) : h.noticed .failure ["process_entry"] = [] := by
  induction told with
  | nothing => rfl
  | also episode _ ih => rw [History.noticed_append, ih, episode.noticed_entries, List.append_nil]

end telling

namespace Reconciler

def attemptNotice? (attempt : Entry × Reconciler) : Option Audit.Notice :=
  (failed? attempt).map attempt.1.notice

def entryRecord (entry : Entry) (e : Failure) : Audit.Record :=
  (((Audit.Record.begun .errorCondition auditSource "process_entry").withObjectId
    entry.key).withObjectType "eni").withError e.message

theorem attend_accounted (entry : Entry) (s : Reconciler) :
    ∃ later, (attend entry s).2.trace = later ++ s.trace ∧ later.Accounted ∧
      later.noticed .failure ["process_entry"] = (attemptNotice? (entry, s)).toList := by
  obtain ⟨⟨later, trace, told⟩, -⟩ := follow_attests entry s
  unfold attemptNotice? failed? attend
  generalize follow entry s = outcome at trace
  obtain ⟨e | _, s'⟩ := outcome
  · have record : History.Accounted [.audited (entryRecord entry e)] := ⟨rfl, rfl⟩
    refine ⟨[.audited (entryRecord entry e)] ++ later, congrArg _ trace,
      record.append told.accounted, ?_⟩
    rw [History.noticed_append, told.noticed_entries]
    rfl
  · exact ⟨later, trace, told.accounted, told.noticed_entries⟩

theorem Chain.accounted {s t : Reconciler} {log : List (Entry × Reconciler)} (chain : Chain s log t) :
    ∃ later, t.trace = later ++ s.trace ∧ later.Accounted ∧
      later.noticed .failure ["process_entry"] = log.filterMap attemptNotice? := by
  induction chain with
  | nothing s => exact ⟨[], rfl, .nil, rfl⟩
  | @attended entry s t log _ ih =>
    obtain ⟨first, trace, accounted, noticed⟩ := attend_accounted entry s
    obtain ⟨later, trace', accounted', noticed'⟩ := ih
    refine ⟨later ++ first, ?_, accounted'.append accounted, ?_⟩
    · rw [trace', trace, List.append_assoc]
    · rw [History.noticed_append, noticed, noticed']
      cases attempt : attemptNotice? (entry, s) <;> simp [attempt]

theorem doTask_accounted (s : Reconciler) :
    ∃ later, s.doTask.trace = later ++ s.trace ∧ later.Accounted ∧
      later.noticed .failure ["process_entry"] = s.passLog.filterMap attemptNotice? :=
  s.doTask_chain.accounted

theorem handle_accounted (s : Reconciler) (request : Request) :
    ∃ later, (s.handle request).trace = later ++ s.trace ∧ later.Accounted := by
  have attested : ∀ {x : Step Unit} {may : Call → Prop} {fails : Failure → Prop},
      x.Attests ctx may fails → ∃ later, (x s).2.trace = later ++ s.trace ∧ later.Accounted := by
    intro x may fails attests
    obtain ⟨⟨later, trace, told⟩, -⟩ := attests s
    exact ⟨later, trace, told.accounted⟩
  cases request with
  | enqueue | surroundings => exact ⟨[], rfl, .nil⟩
  | doTask =>
    obtain ⟨later, trace, accounted, -⟩ := s.doTask_accounted
    exact ⟨later, trace, accounted⟩
  | set key fields => exact attested (set_attests key fields)
  | delete key => exact attested (delete_works key)
  | prepare => exact attested ensureInitialized_attests
  | neighbor u => exact attested (onNeighbor_works u)

theorem run_accounted (requests : List Request) (s : Reconciler) (accounted : s.trace.Accounted) :
    (s.run requests).trace.Accounted := by
  induction requests generalizing s with
  | nil => exact accounted
  | cons request rest ih =>
    obtain ⟨later, trace, new⟩ := s.handle_accounted request
    exact ih (s.handle request) (trace ▸ new.append accounted)

/-- However a run goes, the records of success on rules and tunnel next hops are the calls that
were carried out, and the records of failure are the calls that failed, that of the table
included, each with its object and in the order of the calls. And a pass that comes next
makes its attempts one after the other and records one failure for each that failed, in that
order. -/
theorem audit_trail_exact (config : Config) (inventory : Inventory) (requests : List Request) :
    let s := (fresh config inventory).run requests
    s.trace.noticed .success Audit.workActions =
        (s.trace.done.filter (!·.isTable)).filterMap (·.notice? none) ∧
      s.trace.noticed .failure Audit.callActions =
        s.trace.lost.filterMap (fun lost => lost.1.notice? (some lost.2)) ∧
      Chain { s with backlog := s.backlog.clear } s.passLog
        { s.doTask with backlog := s.backlog.clear } ∧
      ∃ later, s.doTask.trace = later ++ s.trace ∧
        later.noticed .failure ["process_entry"] = s.passLog.filterMap attemptNotice? := by
  intro s
  have accounted : s.trace.Accounted := run_accounted requests (fresh config inventory) .nil
  obtain ⟨later, trace, -, noticed⟩ := s.doTask_accounted
  exact ⟨accounted.successes, accounted.failures, s.doTask_chain, later, trace, noticed⟩

end Reconciler

end EniForwarding
