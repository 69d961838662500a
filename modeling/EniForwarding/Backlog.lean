import EniForwarding.Data.SortedMap
import EniForwarding.Entry

/-! Entries of a table that wait to be worked on, by key.

New entries coalesce: a deletion replaces whatever waits under its key, and a
write joins the write that waits last. An entry that has to be tried again goes
in front of what has arrived since. Taking everything out yields the keys in
order and each key's entries in their own order. A running count spares a
traversal when only the number of waiting entries is asked for.
-/

set_option autoImplicit false

namespace EniForwarding

/-- One queue of waiting entries per key, the oldest first. -/
structure Backlog where
  table : String
  priority : Int
  queues : SortedMap String (List Entry)
  pending : Nat
  deriving DecidableEq

namespace Backlog

def ofTable (table : String) (priority : Int) : Backlog := ⟨table, priority, ∅, 0⟩

def queue (b : Backlog) (key : String) : List Entry := (b.queues.get? key).getD []

/-- Join a write to the write that waits last, or start a new place in the queue. -/
def joinWrite (entry : Entry) : List Entry → List Entry
  | [] => [entry]
  | [last] =>
    if last.isSet then [{ last with fields := last.fields.merge entry.fields }] else [last, entry]
  | first :: rest => first :: joinWrite entry rest

def endsInWrite (queue : List Entry) : Bool := queue.getLast?.any Entry.isSet

def push (b : Backlog) (entry : Entry) : Backlog :=
  let waiting := b.queue entry.key
  if entry.isDel then
    { b with
      queues := b.queues.insert entry.key [entry]
      pending := b.pending - waiting.length + 1 }
  else
    { b with
      queues := b.queues.insert entry.key (joinWrite entry waiting)
      pending := if endsInWrite waiting then b.pending else b.pending + 1 }

def add (b : Backlog) (entries : List Entry) : Backlog := entries.foldl push b

/-- Put an entry back in front of its key's queue. -/
def retry (b : Backlog) (entry : Entry) : Backlog :=
  { b with
    queues := b.queues.insert entry.key (entry :: b.queue entry.key)
    pending := b.pending + 1 }

def entries (b : Backlog) : List Entry := b.queues.values.flatten

def hasPending (b : Backlog) : Bool := 0 < b.pending

def clear (b : Backlog) : Backlog := { b with queues := ∅, pending := 0 }

def drain (b : Backlog) : List Entry × Backlog := (b.entries, b.clear)

def listing (b : Backlog) : List String := b.entries.map Entry.describe

end Backlog

end EniForwarding
