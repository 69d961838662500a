import EniForwarding.Proofs.PassLog
import EniForwarding.Proofs.RuleTable
import EniForwarding.Proofs.Telling

/-! The last request for an ENI.

One ENI can be spelled in several ways, and each spelling has a queue of its own. A pass comes to
the queues by the text of their keys, and not as the requests arrived. So of the requests for
one ENI that come in together, the one that counts is the last by the text of its key, and among
those the last that arrived. If that one is a deletion, it is all that waits under its key, no
other request for the ENI is followed after it, and so the ENI is gone when the pass is over.
-/

set_option autoImplicit false

namespace EniForwarding

namespace Entry

/-- The entry is addressed to this ENI, however it spells it. -/
def isFor (separator : Char) (key : EniKey) (entry : Entry) : Bool :=
  EniKey.ofText? separator entry.key == some key

theorem isFor_iff {separator : Char} {key : EniKey} {entry : Entry} :
    entry.isFor separator key = true ↔ EniKey.read separator entry.key = .ok key := by
  unfold isFor EniKey.read
  cases EniKey.ofText? separator entry.key <;> simp

theorem isFor_congr {separator : Char} {key : EniKey} {e e' : Entry} (same : e.key = e'.key) :
    e.isFor separator key = e'.isFor separator key := by
  simp only [isFor, same]

/-- By the text of the keys, the first entry does not come behind the second. -/
def keyLE (x y : Entry) : Bool := (compare x.key y.key).isLE

theorem keyLE_trans (x y z : Entry) (first : x.keyLE y = true) (second : y.keyLE z = true) :
    x.keyLE z = true :=
  Std.TransCmp.isLE_trans first second

theorem keyLE_total (x y : Entry) : (x.keyLE y || y.keyLE x) = true := by
  unfold keyLE
  cases order : compare x.key y.key with
  | lt | eq => rfl
  | gt => simp [Std.OrientedCmp.lt_of_gt order]

theorem keyLE_of_key_eq {x y : Entry} (same : x.key = y.key) : x.keyLE y = true := by
  simp [keyLE, same]

theorem pairwise_keyLE {entries : List Entry} {text : String} (alike : ∀ e ∈ entries, e.key = text) :
    entries.Pairwise fun x y => x.keyLE y = true := by
  apply List.pairwise_of_forall_mem_list
  intro x first y second
  exact keyLE_of_key_eq ((alike x first).trans (alike y second).symm)

theorem key_eq_of_keyLE {x y : Entry} (first : x.keyLE y = true) (second : y.keyLE x = true) :
    x.key = y.key :=
  Std.LawfulEqOrd.eq_of_compare (Std.OrientedCmp.isLE_antisymm first second)

end Entry

namespace Reconciler

/-- The requests for an ENI in the order in which a pass comes to them: by the text of the key,
and under one key as they arrived. -/
def requestsFor (separator : Char) (key : EniKey) (batch : List Entry) : List Entry :=
  (batch.filter (·.isFor separator key)).mergeSort Entry.keyLE

section order

variable {separator : Char} {key : EniKey} {batch : List Entry} {e : Entry}

theorem requestsFor_of_alike {text : String}
    (alike : ∀ x ∈ batch.filter (·.isFor separator key), x.key = text) :
    requestsFor separator key batch = batch.filter (·.isFor separator key) :=
  List.mergeSort_of_pairwise (Entry.pairwise_keyLE alike)

theorem mem_requestsFor {other : Entry} : other ∈ requestsFor separator key batch ↔
    other ∈ batch ∧ other.isFor separator key = true := by
  rw [requestsFor, (List.mergeSort_perm _ _).mem_iff, List.mem_filter]

theorem keyLE_of_last (last : (requestsFor separator key batch).getLast? = some e) {other : Entry}
    (member : other ∈ batch) (names : other.isFor separator key = true) : other.keyLE e = true := by
  obtain ⟨before, listed⟩ := List.getLast?_eq_some_iff.1 last
  have ordered := List.pairwise_mergeSort Entry.keyLE_trans Entry.keyLE_total
    (batch.filter (·.isFor separator key))
  have among := mem_requestsFor.2 ⟨member, names⟩
  rw [requestsFor] at listed among
  rw [listed] at ordered among
  rcases List.mem_append.1 among with earlier | here
  · exact (List.pairwise_append.1 ordered).2.2 other earlier e List.mem_cons_self
  · exact Entry.keyLE_of_key_eq (congrArg Entry.key (List.mem_singleton.1 here))

/-- The last request is the last that arrived under its key. -/
theorem last_arrived (last : (requestsFor separator key batch).getLast? = some e) :
    (batch.filter (·.key == e.key)).getLast? = some e := by
  let alike := batch.filter (·.key == e.key)
  have names : e.isFor separator key = true := (mem_requestsFor.1 (List.mem_of_getLast? last)).2
  have same : ∀ other ∈ alike, other.key = e.key := fun other member => by
    simpa using (List.mem_filter.1 member).2
  -- the entries under the key are requests for the ENI, and sorting leaves them as they are
  have all : alike.filter (·.isFor separator key) = alike :=
    List.filter_eq_self.2 fun other member => (Entry.isFor_congr (same other member)).trans names
  have within : alike.Sublist (requestsFor separator key batch) := by
    apply List.sublist_mergeSort Entry.keyLE_trans Entry.keyLE_total (Entry.pairwise_keyLE same)
    rw [← all]
    exact List.filter_sublist.filter _
  have counted : ((requestsFor separator key batch).filter (·.key == e.key)).Perm alike := by
    have perm := (List.mergeSort_perm (batch.filter (·.isFor separator key)) Entry.keyLE).filter
      (·.key == e.key)
    rwa [List.filter_comm, all] at perm
  have sorted : alike = (requestsFor separator key batch).filter (·.key == e.key) := by
    apply List.Sublist.eq_of_length _ counted.length_eq.symm
    simpa only [alike, List.filter_filter, Bool.and_self] using within.filter (·.key == e.key)
  obtain ⟨before, listed⟩ := List.getLast?_eq_some_iff.1 last
  rw [listed, List.filter_append] at sorted
  show alike.getLast? = some e
  simp [sorted]

end order

/-! ### What is done for other ENIs -/

section spared

variable {key : EniKey}

theorem attend_spared {entry : Entry} {s : Reconciler}
    (elsewhere : entry.isFor s.config.separator key = false) : Spared key s (attend entry s).2 := by
  have followed : Spared key s (follow entry s).2 := by
    rw [run_follow]
    cases read : Deed.ofEntry s.config.separator entry with
    | error e => exact refl s
    | ok deed =>
      have apart : deed.key ≠ key := by
        rintro rfl
        have names := Entry.isFor_iff.2 (Deed.key_of_ofEntry read)
        cases elsewhere.symm.trans names
      exact (act_spared apart s).1
  unfold attend
  generalize follow entry s = outcome at followed
  obtain ⟨_ | _, s'⟩ := outcome <;> exact followed

theorem Chain.spared {s t : Reconciler} {log : List (Entry × Reconciler)} (chain : Chain s log t)
    (elsewhere : ∀ attempt ∈ log, attempt.1.isFor s.config.separator key = false) :
    Spared key s t := by
  induction chain with
  | nothing s => exact refl s
  | @attended entry s t log later ih =>
    have first := attend_spared (elsewhere (entry, s) List.mem_cons_self)
    refine IsTrans.trans _ _ _ first (ih fun attempt member => ?_)
    rw [(attend_rests entry s).config]
    exact elsewhere attempt (List.mem_cons_of_mem _ member)

end spared

/-! ### The deletion that comes last -/

/-- A deletion that does not have to be tried again has removed the ENI, since it fails for no
other reason than a lost call. -/
theorem attend_removes {s : Reconciler} {key : EniKey} {e : Entry} (deletion : e.op = .del)
    (names : e.isFor s.config.separator key = true)
    (settled : ∀ failure, failed? (e, s) = some failure → failure.status.isRetryable = false) :
    (attend e s).2.enis.get? key = none := by
  have followed : follow e s = delete key s := by
    rw [run_follow, Deed.ofEntry, Entry.isFor_iff.1 names, Except.map, deletion]
    rfl
  cases outcome : delete key s with | mk result s' =>
  cases result with
  | ok _ =>
    rw [attend_of_ok (followed.trans outcome)]
    have removed : (delete key s).2.enis.get? key = none := delete_removes (by rw [outcome])
    rwa [outcome] at removed
  | error failure =>
    have lost : failure.isRetryable = true := (delete_works key s).2 failure (by rw [outcome])
    have settled := settled failure (failed?_eq_some.2 (by rw [followed, outcome]))
    rw [Failure.status, if_pos lost] at settled
    cases settled

theorem keyLE_of_behind {before after : List Entry} {e other : Entry}
    (ordered : (before ++ e :: after).Pairwise fun x y => x.keyLE y = true)
    (alone : (before ++ e :: after).filter (·.key == e.key) = [e]) (member : other ∈ after) :
    other.keyLE e = false := by
  by_contra ahead
  have behind : e.keyLE other = true :=
    (List.pairwise_cons.1 (List.pairwise_append.1 ordered).2.1).1 other member
  have shared := Entry.key_eq_of_keyLE (by simpa using ahead) behind
  have waits : other ∈ after.filter (·.key == e.key) :=
    List.mem_filter.2 ⟨member, beq_iff_eq.2 shared⟩
  have positive := List.length_pos_of_mem waits
  -- then there would be two of them under the key
  have counted := congrArg List.length alone
  simp only [List.filter_append, List.filter_cons, List.length_append, beq_self_eq_true, if_true,
    List.length_cons, List.length_nil] at counted
  omega

/-- In what a pass takes out, the deletion that comes last is followed by no other request for the
ENI. -/
theorem entries_of_last {b : Backlog} (filed : b.Filed) (empty : b.entries = [])
    {separator : Char} {key : EniKey} {batch : List Entry} {e : Entry}
    (last : (requestsFor separator key batch).getLast? = some e) (deletion : e.op = .del) :
    ∃ before after, (b.add batch).entries = before ++ e :: after ∧
      ∀ other ∈ after, other.isFor separator key = false := by
  have filed := filed.add batch
  have alone : (b.add batch).entries.filter (·.key == e.key) = [e] := by
    rw [filed.filter_entries]
    exact Backlog.queue_add_of_last (last_arrived last) (by simp [Entry.isDel, deletion])
  -- what waits has the key of an entry that has just arrived
  have arrived : ∀ other ∈ (b.add batch).entries, ∃ entry ∈ batch, entry.key = other.key := by
    apply Backlog.forall_add (P := fun other => ∃ entry ∈ batch, entry.key = other.key)
    · exact fun _ _ _ _ there _ => there
    · simp [empty]
    · exact fun entry member => ⟨entry, member, rfl⟩
  have there : e ∈ (b.add batch).entries.filter (·.key == e.key) := by simp [alone]
  obtain ⟨before, after, split⟩ := List.append_of_mem (List.mem_filter.1 there).1
  have ordered := filed.entries_pairwise
  rw [split] at ordered alone
  refine ⟨before, after, split, fun other member => ?_⟩
  have behind := keyLE_of_behind ordered alone member
  obtain ⟨entry, among, same⟩ := arrived other (by simp [split, member])
  rw [← Entry.isFor_congr same]
  by_contra names
  have ahead : entry.keyLE e = true := keyLE_of_last last among (by simpa using names)
  rw [Entry.keyLE, same] at ahead
  cases behind.symm.trans ahead

/-- A pass that attends to everything once removes the ENI if it comes to a deletion and to no
request for the ENI after that. -/
theorem doTask_removes {s : Reconciler} {key : EniKey} {e : Entry} {before after : List Entry}
    (once : ∀ attempt ∈ s.passLog, ∀ failure,
      failed? attempt = some failure → failure.status.isRetryable = false)
    (entries : s.backlog.entries = before ++ e :: after) (deletion : e.op = .del)
    (names : e.isFor s.config.separator key = true)
    (others : ∀ other ∈ after, other.isFor s.config.separator key = false) :
    s.doTask.enis.get? key = none := by
  have all : s.passLog.map Prod.fst = before ++ e :: after :=
    (attempts_once (fun _ _ => rfl) once).trans entries
  obtain ⟨log, _, logged, -, rest⟩ := List.map_eq_append_iff.1 all
  obtain ⟨⟨first, u⟩, later, rfl, found, behind⟩ := List.map_eq_cons_iff.1 rest
  obtain rfl : first = e := found
  have member : (first, u) ∈ s.passLog := by simp [logged]
  have configured : u.config = s.config := config_of_passLog member
  have removed := attend_removes deletion (configured ▸ names) (once _ member)
  have chain := (logged ▸ doTask_chain s).onward
  have elsewhere : ∀ attempt ∈ later,
      attempt.1.isFor (attend first u).2.config.separator key = false := by
    intro attempt among
    rw [(attend_rests first u).config, configured]
    exact others attempt.1 (behind ▸ List.mem_map_of_mem among)
  exact (chain.spared elsewhere).trans removed

/-- Of the requests for an ENI that come in together, the last one wins if it is a deletion: the
last by the text of its key, and among those of one text the last that arrived; so the last that
arrived, if they all spell the ENI alike. When the pass is over the ENI is not in the table, and
the switch has none of its rules. -/
theorem last_request_wins (config : Config) (inventory : Inventory) (requests : List Request)
    (batch : List Entry) (key : EniKey) :
    let s := (fresh config inventory).run requests
    let t := (s.enqueue batch).doTask
    let arrived := batch.filter (·.isFor config.separator key)
    s.backlog.entries = [] →
    (∀ attempt ∈ (s.enqueue batch).passLog, ∀ failure,
      failed? attempt = some failure → failure.status.isRetryable = false) →
    ∀ e, e.op = .del →
      ((requestsFor config.separator key batch).getLast? = some e ∨
        (∀ x ∈ arrived, x.key = e.key) ∧ arrived.getLast? = some e) →
      t.enis.get? key = none ∧
        ∀ role, t.ctx.env.switch.rules.get? (key.ruleKey config.table role) = none := by
  intro s t arrived empty once e deletion chosen
  have last : (requestsFor config.separator key batch).getLast? = some e := by
    rcases chosen with last | ⟨alike, last⟩
    · exact last
    · rwa [requestsFor_of_alike alike]
  have whole := @run_reachable (fun _ => True) config inventory
    (requests ++ [.enqueue batch, .doTask]) fun _ _ => trivial
  have ran : (fresh config inventory).run (requests ++ [.enqueue batch, .doTask]) = t :=
    List.foldl_append
  rw [ran] at whole
  obtain ⟨kept, same, reachable⟩ := whole
  have begun : s.config = config :=
    (@run_reachable (fun _ => True) config inventory requests fun _ _ => trivial).2.1
  have filed : s.backlog.Filed := run_filed requests _ (Backlog.filed_ofTable _ _)
  obtain ⟨before, after, entries, others⟩ := entries_of_last filed empty last deletion
  have names := (mem_requestsFor.1 (List.mem_of_getLast? last)).2
  rw [← begun] at names others
  have gone : t.enis.get? key = none := doTask_removes once entries deletion names others
  refine ⟨gone, fun role => ?_⟩
  rw [← same]
  exact get?_ruleKey_of_absent kept reachable.coherent gone role

section sample

def sampleFields : Fields := [("vdpu_ids", "2"), ("primary_vdpu", "2")]

def lowerKey : String := "Vnet_1000:aa:bb:cc:dd:ee:ff"

def upperKey : String := "Vnet_1000:AA:BB:CC:DD:EE:FF"

/-- Two spellings that arrive in the order of their texts, the last of them in a deletion. -/
def farewells : List Entry := [⟨upperKey, .set, sampleFields⟩, ⟨lowerKey, .del, []⟩]

theorem sample_last_request :
    let s := (fresh {} sampleInventory).run sampleRequests
    let t := (s.enqueue farewells).doTask
    (s.enis.get? sampleEni).isSome = true ∧ t.enis.get? sampleEni = none ∧
      ∀ role, t.ctx.env.switch.rules.get? (sampleEni.ruleKey "ENI" role) = none := by
  have once : ∀ attempt ∈ (((fresh {} sampleInventory).run sampleRequests).enqueue farewells).passLog,
      failed? attempt = none := by
    decide +kernel
  have ordered : requestsFor ':' sampleEni farewells = farewells :=
    List.mergeSort_of_pairwise (by decide +kernel)
  have gone := last_request_wins {} sampleInventory sampleRequests farewells sampleEni
    (by decide +kernel)
    (fun attempt member failure failed => by cases (once attempt member).symm.trans failed)
    ⟨lowerKey, .del, []⟩ rfl (.inl (congrArg List.getLast? ordered))
  exact ⟨by decide +kernel, gone⟩

/-- Where the later request is written in capital letters, the earlier one is worked on last, and
the ENI is there in spite of the deletion. -/
theorem last_arrived_overtaken :
    let s := (fresh {} sampleInventory).run [.prepare]
    let batch : List Entry := [⟨lowerKey, .set, sampleFields⟩, ⟨upperKey, .del, []⟩]
    let t := (s.enqueue batch).doTask
    s.initialized = true ∧ s.backlog.entries = [] ∧
      (∀ attempt ∈ (s.enqueue batch).passLog, failed? attempt = none) ∧
      (batch.filter (·.isFor s.config.separator sampleEni)).getLast? = some ⟨upperKey, .del, []⟩ ∧
      (t.enis.get? sampleEni).isSome = true ∧
      (t.ctx.env.switch.rules.get? (sampleEni.ruleKey s.config.table .inbound)).isSome = true := by
  decide +kernel

end sample

end Reconciler

end EniForwarding
