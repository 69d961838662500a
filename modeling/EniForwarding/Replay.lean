import EniForwarding.Json.Printer
import EniForwarding.Reconciler
import EniForwarding.Snapshot

/-! Playing a snapshot through.

A fresh reconciler works on a fresh switch beside the inventory of the snapshot, one
occurrence after the other. The report shows what the switch holds in the end, what
still waits, and the counts.
-/

set_option autoImplicit false

namespace EniForwarding.Replay

/-- News that a neighbor has been resolved, or no longer is, as far as it has an
interface. A failure is left to the ENIs that met it. -/
def spread (added : Bool) (ip : Net.Address) (s : Reconciler) : Reconciler :=
  match s.ctx.env.inventory.neighbor? ip with
  | some neighbor => (Reconciler.onNeighbor ⟨neighbor, added⟩ s).2
  | none => s

def onInventory (f : Inventory → Inventory) (s : Reconciler) : Reconciler :=
  { s with ctx := { s.ctx with env := { s.ctx.env with inventory := f s.ctx.env.inventory } } }

def step (s : Reconciler) : Occurrence → Reconciler
  | .eniSet key fields => s.apply [⟨key, .set, fields.toList⟩]
  | .eniDel key => s.apply [⟨key, .del, []⟩]
  | .neighborAdd ip => spread true ip (onInventory (·.resolve ip) s)
  | .neighborDel ip => spread false ip (onInventory (·.unresolve ip) s)

def run (config : Config) (snapshot : Snapshot) : Reconciler :=
  snapshot.occurrences.foldl step
    (.ofEnvironment config (.ofInventory snapshot.inventory))

structure Report where
  tableTypes : SortedMap String FieldMap
  tables : SortedMap String FieldMap
  rules : SortedMap String FieldMap
  tunnels : SortedMap String Nat
  pending : List String
  stats : Stats
  deriving DecidableEq

def statsJson (s : Stats) : Json :=
  let count := fun (n : Counter) => Json.nat n.toNat
  .object [
    ("enis_created", count s.enisCreated),
    ("enis_updated", count s.enisUpdated),
    ("enis_removed", count s.enisRemoved),
    ("rules_installed", count s.rulesInstalled),
    ("rules_uninstalled", count s.rulesUninstalled),
    ("neighbor_updates", count s.neighborUpdates),
    ("errors", count s.errors)]

namespace Report

def ofReconciler (s : Reconciler) : Report where
  tableTypes := s.ctx.env.switch.tableTypes
  tables := s.ctx.env.switch.tables
  rules := s.ctx.env.switch.rules
  tunnels := s.ctx.env.switch.tunnels
  pending := s.pending
  stats := s.stats

def toJson (r : Report) : Json := .object [
  ("acl_table_types", Snapshot.mapJson Json.ofStringMap r.tableTypes),
  ("acl_tables", Snapshot.mapJson Json.ofStringMap r.tables),
  ("acl_rules", Snapshot.mapJson Json.ofStringMap r.rules),
  ("tunnel_nexthops",
    Snapshot.mapJson (fun handle => .string (Context.handleText handle)) r.tunnels),
  ("pending", .strings r.pending),
  ("stats", statsJson r.stats)]

end Report

def report (config : Config) (snapshot : Snapshot) : Report := .ofReconciler (run config snapshot)

end EniForwarding.Replay
