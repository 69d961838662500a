import EniForwarding.Proofs.Backlog.Bookkeeping

/-! What the entries of a backlog make of the rows of a table.

A deletion takes a row away, and a write makes the row if there is none and gives its fields their
values. So entries that replace or join others while they wait are told by what they do to a row:
what is taken out of a backlog does to every row what all that came in would do, with new entries
behind and one that is tried again in front. What waits under one key has no part in another.
-/

set_option autoImplicit false

namespace EniForwarding

abbrev Row := SortedMap String String

namespace Fields

/-- No field is named twice, as when fields are listed from a map. -/
def Distinct (fields : Fields) : Prop := (fields.map Prod.fst).Nodup

def writeTo (fields : Fields) (row : Row) : Row :=
  fields.foldl (fun row fv => row.insert fv.1 fv.2) row

theorem get?_cons (first : String × String) (rest : Fields) (field : String) :
    get? (first :: rest) field = if first.1 = field then some first.2 else get? rest field := by
  unfold get?
  by_cases here : first.1 = field <;> simp [here]

theorem get?_of_fresh {fields : Fields} {field : String} (fresh : field ∉ fields.map Prod.fst) :
    fields.get? field = none := by
  induction fields with
  | nil => rfl
  | cons first rest ih =>
    obtain ⟨apart, later⟩ := not_or.1 (mt List.mem_cons.2 fresh)
    rw [get?_cons, if_neg (Ne.symm apart), ih later]

theorem get?_put (field value : String) (fields : Fields) (other : String) :
    (fields.put field value).get? other = if field = other then some value else fields.get? other := by
  induction fields with
  | nil => exact get?_cons _ _ _
  | cons first rest ih =>
    unfold put
    split
    next same =>
      rw [get?_cons, get?_cons]
      dsimp only
      rw [same]
      split <;> rfl
    next apart =>
      rw [get?_cons, get?_cons, ih]
      dsimp only
      split
      next here => rw [if_neg fun same => apart (here.trans same.symm)]
      next => rfl

theorem names_put (field value : String) (fields : Fields) :
    (fields.put field value).map Prod.fst =
      if field ∈ fields.map Prod.fst then fields.map Prod.fst else fields.map Prod.fst ++ [field] := by
  induction fields with
  | nil => rfl
  | cons first rest ih =>
    unfold put
    split
    next same => simp [same]
    next apart =>
      rw [List.map_cons, ih]
      split <;> simp_all [Ne.symm apart]

theorem Distinct.put {fields : Fields} (distinct : fields.Distinct) (field value : String) :
    (fields.put field value).Distinct := by
  unfold Distinct
  rw [names_put]
  split
  next => exact distinct
  next fresh =>
    refine List.nodup_append.2 ⟨distinct, by simp, fun name member other own same => fresh ?_⟩
    exact List.mem_singleton.1 own ▸ same ▸ member

theorem Distinct.merge {older : Fields} (distinct : older.Distinct) (newer : Fields) :
    (older.merge newer).Distinct := by
  unfold Fields.merge
  induction newer generalizing older with
  | nil => exact distinct
  | cons first rest ih => exact ih (distinct.put first.1 first.2)

theorem get?_merge {newer : Fields} (distinct : newer.Distinct) (older : Fields) (field : String) :
    (older.merge newer).get? field = (newer.get? field).or (older.get? field) := by
  induction newer generalizing older with
  | nil => rfl
  | cons first rest ih =>
    obtain ⟨fresh, later⟩ := List.nodup_cons.1 distinct
    have step : (older.merge (first :: rest)).get? field =
        (get? rest field).or ((older.put first.1 first.2).get? field) := ih later _
    rw [step, get?_put, get?_cons]
    split
    next here => rw [get?_of_fresh (here ▸ fresh), Option.none_or, Option.some_or]
    next => rfl

theorem get?_writeTo {fields : Fields} (distinct : fields.Distinct) (row : Row) (field : String) :
    (fields.writeTo row).get? field = (fields.get? field).or (row.get? field) := by
  induction fields generalizing row with
  | nil => rfl
  | cons first rest ih =>
    obtain ⟨fresh, later⟩ := List.nodup_cons.1 distinct
    have step : (writeTo (first :: rest) row).get? field =
        (get? rest field).or ((row.insert first.1 first.2).get? field) := ih later _
    rw [step, SortedMap.get?_insert_ite, get?_cons]
    by_cases here : first.1 = field
    · rw [if_pos here.symm, if_pos here, get?_of_fresh (here ▸ fresh), Option.none_or, Option.some_or]
    · rw [if_neg (Ne.symm here), if_neg here]

/-- Fields that are joined write what they write one after the other. -/
theorem writeTo_merge {older newer : Fields} (old : older.Distinct) (new : newer.Distinct)
    (row : Row) : (older.merge newer).writeTo row = newer.writeTo (older.writeTo row) := by
  apply SortedMap.ext_get?
  intro field
  rw [get?_writeTo (old.merge newer), get?_merge new, get?_writeTo new, get?_writeTo old,
    Option.or_assoc]

end Fields

/-- What an entry makes of a row that may be absent. -/
def Entry.applyTo (e : Entry) (row : Option Row) : Option Row :=
  match e.op with
  | .set => some (e.fields.writeTo (row.getD ∅))
  | .del => none

/-- What entries make of a row, the first one first. -/
def outcome (entries : List Entry) (row : Option Row) : Option Row :=
  entries.foldl (fun row e => e.applyTo row) row

theorem outcome_append (first second : List Entry) (row : Option Row) :
    outcome (first ++ second) row = outcome second (outcome first row) := List.foldl_append

namespace Backlog

def Step.incoming : Step → List Entry
  | .add entries => entries
  | .retry entry => [entry]
  | .drain | .clear => []

def Step.only (key : String) : Step → Step
  | .add entries => .add (entries.filter (·.key == key))
  | .retry entry => if entry.key == key then .retry entry else .add []
  | .drain => .drain
  | .clear => .clear

def keepAll (key : String) (waiting : List Entry) : Step → List Entry
  | .add entries => waiting ++ entries.filter (·.key == key)
  | .retry entry => if entry.key == key then entry :: waiting else waiting
  | .drain | .clear => []

/-- The entries of a key that would wait if none were replaced or joined. -/
def uncoalesced (key : String) (steps : List Step) : List Entry := steps.foldl (keepAll key) []

variable {b b' : Backlog} {key : String}

section closed

variable {P : Entry → Prop}
  (join : ∀ last entry, last.isSet = true → entry.isSet = true → P last → P entry →
    P { last with fields := last.fields.merge entry.fields })

include join

theorem forall_step {step : Step} (old : ∀ e ∈ b.entries, P e) (new : ∀ e ∈ step.incoming, P e) :
    ∀ e ∈ (b.step step).entries, P e := by
  cases step with
  | add entries => exact forall_add join old new
  | retry entry => exact forall_retry old (new entry (List.mem_singleton_self _))
  | drain | clear => exact fun e member => (List.not_mem_nil member).elim

theorem forall_run {steps : List Step} (old : ∀ e ∈ b.entries, P e)
    (new : ∀ step ∈ steps, ∀ e ∈ step.incoming, P e) : ∀ e ∈ (b.run steps).entries, P e := by
  induction steps generalizing b with
  | nil => exact old
  | cons first rest ih =>
    obtain ⟨here, later⟩ := List.forall_mem_cons.1 new
    exact ih (forall_step join old here) later

end closed

section meaning

/-- No entry that waits names a field twice. -/
def Plain (b : Backlog) : Prop := ∀ e ∈ b.entries, e.fields.Distinct

theorem distinct_join (last entry : Entry) (_ : last.isSet = true) (_ : entry.isSet = true)
    (old : last.fields.Distinct) (_ : entry.fields.Distinct) :
    (last.fields.merge entry.fields).Distinct := old.merge entry.fields

theorem outcome_joinWrite {entry : Entry} {queue : List Entry} (written : entry.op = .set)
    (distinct : entry.fields.Distinct) (plain : ∀ e ∈ queue, e.fields.Distinct) (row : Option Row) :
    outcome (joinWrite entry queue) row = entry.applyTo (outcome queue row) := by
  induction queue using joinWrite.induct generalizing row with
  | case1 => rfl
  | case2 last write =>
    have op : last.op = .set := eq_of_beq write
    rw [joinWrite, if_pos write]
    simp only [outcome, List.foldl_cons, List.foldl_nil, Entry.applyTo, op, written, Option.getD_some]
    rw [Fields.writeTo_merge (plain last List.mem_cons_self) distinct]
  | case3 last other => rw [joinWrite, if_neg other]; rfl
  | case4 first rest longer ih =>
    rw [joinWrite]
    · exact ih (fun e member => plain e (List.mem_cons_of_mem _ member)) (first.applyTo row)
    · exact longer

theorem outcome_push (plain : b.Plain) {entry : Entry} (distinct : entry.fields.Distinct)
    (key : String) (row : Option Row) :
    outcome ((b.push entry).queue key) row =
      if entry.key == key then entry.applyTo (outcome (b.queue key) row)
      else outcome (b.queue key) row := by
  rw [queue_push]
  split
  next =>
    cases op : entry.op with
    | del =>
      -- whatever waited before, the row is gone
      simp [Entry.isDel, op, outcome, Entry.applyTo]
    | set =>
      have waiting : ∀ e ∈ b.queue key, e.fields.Distinct :=
        fun e member => plain e (mem_entries_of_mem_queue member)
      rw [if_neg (by simp [Entry.isDel, op]), outcome_joinWrite op distinct waiting]
  next => rfl

theorem outcome_add (plain : b.Plain) {entries : List Entry}
    (distinct : ∀ e ∈ entries, e.fields.Distinct) (key : String) (row : Option Row) :
    outcome ((b.add entries).queue key) row =
      outcome (entries.filter (·.key == key)) (outcome (b.queue key) row) := by
  induction entries generalizing b with
  | nil => rfl
  | cons entry rest ih =>
    obtain ⟨first, later⟩ := List.forall_mem_cons.1 distinct
    have added : outcome ((b.add (entry :: rest)).queue key) row =
        outcome (rest.filter (·.key == key)) (outcome ((b.push entry).queue key) row) :=
      ih (forall_push distinct_join plain first) later
    rw [added, outcome_push plain first, List.filter_cons]
    split <;> rfl

/-- A step does the same to the queue of a key as to the list of all that came in under it. -/
theorem outcome_step (plain : b.Plain) {step : Step}
    (distinct : ∀ e ∈ step.incoming, e.fields.Distinct) {waiting : List Entry}
    (same : ∀ row, outcome (b.queue key) row = outcome waiting row) (row : Option Row) :
    outcome ((b.step step).queue key) row = outcome (keepAll key waiting step) row := by
  cases step with
  | add entries =>
    have added : outcome ((b.add entries).queue key) row =
        outcome (entries.filter (·.key == key)) (outcome (b.queue key) row) :=
      outcome_add plain distinct key row
    rw [Backlog.step, keepAll, added, same, outcome_append]
  | retry entry =>
    rw [Backlog.step, keepAll, queue_retry]
    split
    · exact same (entry.applyTo row)
    · exact same row
  | drain | clear => rfl

theorem outcome_run (plain : b.Plain) {steps : List Step}
    (distinct : ∀ step ∈ steps, ∀ e ∈ step.incoming, e.fields.Distinct) {waiting : List Entry}
    (same : ∀ row, outcome (b.queue key) row = outcome waiting row) (row : Option Row) :
    outcome ((b.run steps).queue key) row = outcome (steps.foldl (keepAll key) waiting) row := by
  induction steps generalizing b waiting with
  | nil => exact same row
  | cons first rest ih =>
    obtain ⟨here, later⟩ := List.forall_mem_cons.1 distinct
    exact ih (forall_step distinct_join plain here) later (outcome_step plain here same)

end meaning

section apart

theorem queue_add_only (same : b.queue key = b'.queue key) (entries : List Entry) :
    (b.add entries).queue key = (b'.add (entries.filter (·.key == key))).queue key := by
  induction entries generalizing b b' with
  | nil => exact same
  | cons entry rest ih =>
    rw [List.filter_cons]
    split
    next own =>
      have pushed : (b.push entry).queue key = (b'.push entry).queue key := by
        rw [queue_push, queue_push, same]
      exact ih pushed
    next other =>
      have passed : (b.push entry).queue key = b'.queue key := by
        rw [queue_push, if_neg other, same]
      exact ih passed

theorem queue_step_only (same : b.queue key = b'.queue key) (step : Step) :
    (b.step step).queue key = (b'.step (step.only key)).queue key := by
  cases step with
  | add entries => exact queue_add_only same entries
  | retry entry =>
    rw [Step.only, Backlog.step, queue_retry]
    by_cases own : entry.key == key
    · rw [if_pos own, if_pos own, Backlog.step, queue_retry, if_pos own, same]
    · rw [if_neg own, if_neg own]
      exact same
  | drain | clear => rfl

theorem queue_run_only (same : b.queue key = b'.queue key) (steps : List Step) :
    (b.run steps).queue key = (b'.run (steps.map (Step.only key))).queue key := by
  induction steps generalizing b b' with
  | nil => exact same
  | cons first rest ih => exact ih (queue_step_only same first)

theorem Step.key_of_only {step : Step} {e : Entry} (member : e ∈ (step.only key).incoming) :
    e.key = key := by
  cases step with
  | add entries => exact beq_iff_eq.1 (List.mem_filter.1 member).2
  | retry entry =>
    rw [only] at member
    by_cases own : entry.key == key
    · rw [if_pos own] at member
      exact List.mem_singleton.1 member ▸ beq_iff_eq.1 own
    · rw [if_neg own] at member
      cases member
  | drain | clear => cases member

end apart

section start

variable (table : String) (priority : Int)

theorem filter_drain_run (steps : List Step) (key : String) :
    ((ofTable table priority).run steps).drain.1.filter (·.key == key) =
      ((ofTable table priority).run steps).queue key :=
  ((ofTable table priority).booked_clear.run steps).filed.filter_entries key

/-- What is taken out under a key is all that would be taken out without the entries of other keys. -/
theorem filter_drain_run_only (steps : List Step) (key : String) :
    ((ofTable table priority).run steps).drain.1.filter (·.key == key) =
      ((ofTable table priority).run (steps.map (Step.only key))).drain.1 := by
  have own : ∀ e ∈ ((ofTable table priority).run (steps.map (Step.only key))).entries, e.key = key := by
    apply forall_run (P := fun e => e.key = key) (fun _ _ _ _ last _ => last)
    · exact fun e member => (List.not_mem_nil member).elim
    · intro step member e incoming
      obtain ⟨original, _, rfl⟩ := List.mem_map.1 member
      exact Step.key_of_only incoming
  have all : ((ofTable table priority).run (steps.map (Step.only key))).drain.1.filter (·.key == key) =
      ((ofTable table priority).run (steps.map (Step.only key))).drain.1 :=
    List.filter_eq_self.2 fun e member => beq_iff_eq.2 (own e member)
  rw [← all, filter_drain_run, filter_drain_run]
  exact queue_run_only rfl steps

/-- Replacing and joining entries that wait changes nothing about what they do. Under each key, what
is taken out of a backlog makes the same of every row as all that came in under the key would make
of it. And it is what would be taken out if nothing had come in under any other key. -/
theorem drain_preserves_meaning (steps : List Step)
    (distinct : ∀ step ∈ steps, ∀ e ∈ step.incoming, e.fields.Distinct) (key : String) :
    (∀ row, outcome (((ofTable table priority).run steps).drain.1.filter (·.key == key)) row =
      outcome (uncoalesced key steps) row) ∧
    ((ofTable table priority).run steps).drain.1.filter (·.key == key) =
      ((ofTable table priority).run (steps.map (Step.only key))).drain.1 := by
  refine ⟨fun row => ?_, filter_drain_run_only table priority steps key⟩
  have nothing : (ofTable table priority).Plain := fun e member => (List.not_mem_nil member).elim
  rw [filter_drain_run]
  exact outcome_run nothing distinct (fun _ => rfl) row

end start

/-- Two writes are joined and a deletion is put back in front of them, so that an old row goes. -/
theorem drain_preserves_meaning_of_writes :
    let steps : List Step :=
      [.add [⟨"a", .set, [("x", "1"), ("y", "2")]⟩, ⟨"b", .del, []⟩, ⟨"a", .set, [("x", "3")]⟩],
        .retry ⟨"a", .del, []⟩]
    let drained := ((ofTable "ENI" 0).run steps).drain.1
    (∀ step ∈ steps, ∀ e ∈ step.incoming, e.fields.Distinct) ∧
      drained.map Entry.op = [.del, .set, .del] ∧
      ∀ row, outcome (drained.filter (·.key == "a")) row = outcome (uncoalesced "a" steps) row := by
  intro steps drained
  have distinct : ∀ step ∈ steps, ∀ e ∈ step.incoming, e.fields.Distinct := by
    unfold Fields.Distinct
    decide
  exact ⟨distinct, by decide, (drain_preserves_meaning "ENI" 0 steps distinct "a").1⟩

end Backlog

end EniForwarding
