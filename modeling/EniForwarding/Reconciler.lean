import EniForwarding.Acl.Table
import EniForwarding.Acl.TableType
import EniForwarding.Backlog
import EniForwarding.Config
import EniForwarding.Eni.Basic

/-! Keeping the switch in line with the declared ENIs.

The reconciler works through a backlog of entries. A write creates an ENI or updates
it, a deletion removes it. An entry that fails for a reason that may pass waits in the
backlog, and so do later entries for its key. News about a neighbor reaches the ENIs
whose local endpoint has its address.
-/

set_option autoImplicit false

namespace EniForwarding

structure Stats where
  enisCreated : Counter
  enisUpdated : Counter
  enisRemoved : Counter
  rulesInstalled : Counter
  rulesUninstalled : Counter
  neighborUpdates : Counter
  errors : Counter
  deriving DecidableEq, Repr

structure Reconciler where
  config : Config
  ctx : Context
  backlog : Backlog
  enis : SortedMap EniKey Eni
  /-- The DPU on the switch at an address. -/
  owners : SortedMap Net.Address UInt64
  hosted : SortedMap UInt64 (SortedSet EniKey)
  initialized : Bool
  enisCreated : Counter
  enisUpdated : Counter
  enisRemoved : Counter
  neighborUpdates : Counter
  errors : Counter

namespace Reconciler

def ofEnvironment (config : Config) (env : Environment) : Reconciler where
  config := config
  ctx := .ofEnvironment env config.table config.basePriority
  backlog := .ofTable Config.entryTable 0
  enis := ∅
  owners := ∅
  hosted := ∅
  initialized := false
  enisCreated := 0
  enisUpdated := 0
  enisRemoved := 0
  neighborUpdates := 0
  errors := 0

def name : String := auditSource

/-- The place of the reconciler among others; a lower one works first. -/
def priority : Int := 0

def stats (s : Reconciler) : Stats where
  enisCreated := s.enisCreated
  enisUpdated := s.enisUpdated
  enisRemoved := s.enisRemoved
  rulesInstalled := s.ctx.rulesInstalled
  rulesUninstalled := s.ctx.rulesUninstalled
  neighborUpdates := s.neighborUpdates
  errors := s.errors

def hostedOn (s : Reconciler) (dpu : UInt64) : List EniKey :=
  ((s.hosted.get? dpu).map SortedSet.members).getD []

def ruleState? (s : Reconciler) (key : EniKey) (role : Role) : Option RuleState :=
  ((s.enis.get? key).bind (·.rule? role)).map Rule.state

def pending (s : Reconciler) : List String := s.backlog.listing

def enqueue (s : Reconciler) (entries : List Entry) : Reconciler :=
  { s with backlog := s.backlog.add entries }

abbrev Step (α : Type) := Action Reconciler α

def onContext {α : Type} (x : Action Context α) : Step α := fun s =>
  let (result, ctx) := x s.ctx
  (result, { s with ctx := ctx })

/-- Write the table of redirecting rules, bound to the ports that take part. -/
def createTable : Step Unit := do
  let s ← Action.get
  let ports := s.ctx.env.inventory.bindPoints
  let table := ((Acl.Table.ofType s.config.table s.config.tableType).withDescription
    Config.tableDescription).withPorts ports.members
  let record := (((Audit.Record.begun .resourceCreate auditSource "create_acl_table").withOutcome
    .success).withObjectId table.name).withObjectType "acl_table"
  onContext (Context.auditFailure record (Context.setTable table.name table.toFields))
  onContext <| Context.audit <| record.withDetails <| .object [
    ("ports", .strings table.ports.members),
    ("type", .string table.type)]

/-- Note the address of a DPU on the switch, and ask for the neighbor there unless it
has been resolved. -/
def watch (dpu : Dpu) : Step Unit := do
  match dpu.pa with
  | none => return ()
  | some ip =>
    Action.modify fun s => { s with owners := s.owners.insert ip dpu.id }
    let _ ← onContext (NextHop.reach ip)

/-- Before the first entry: load the DPUs, create the rule table, and watch the DPUs
on the switch. Nothing is done a second time once this has succeeded. -/
def ensureInitialized : Step Unit := do
  if (← Action.get).initialized then return ()
  else
    let dpus ← onContext Context.populate
    let type := Acl.TableType.redirecting (← Action.get).config.tableType
    onContext (Context.setTableType type.name type.toFields)
    createTable
    (← Action.get).ctx.dpus.locals.forM watch
    Action.modify fun s => { s with initialized := true }
    let owners := (← Action.get).owners.size
    onContext <| Context.audit <|
      ((Audit.Record.begun .systemLifecycle auditSource "initialize").withOutcome
        .success).withDetails <| .object [("dpus", .nat dpus), ("local_dpus", .nat owners)]

def onEni (key : EniKey) (eni : Eni) (x : Eni.Step Unit) : Step Unit := fun s =>
  let (result, eni, ctx) := x (eni, s.ctx)
  (result, { s with enis := s.enis.insert key eni, ctx := ctx })

def host (hosted : SortedMap UInt64 (SortedSet EniKey)) (key : EniKey) :
    Option UInt64 → SortedMap UInt64 (SortedSet EniKey)
  | none => hosted
  | some dpu => hosted.insert dpu (SortedSet.add ((hosted.get? dpu).getD ∅) key)

def keep (key : EniKey) (eni : Eni) (s : Reconciler) : Reconciler :=
  { s with
    enis := s.enis.insert key eni
    hosted := host s.hosted key (eni.localEndpoint s.ctx.dpus) }

/-- Set up a new ENI. If that fails the ENI is taken down and forgotten; if that fails
too, the ENI is kept, so that what is left of it is not lost. -/
def create (key : EniKey) (fresh : Eni) : Step Unit := fun s =>
  match Eni.fireAll (fresh, s.ctx) with
  | (.ok (), eni, ctx) =>
    let s := keep key eni { s with ctx := ctx }
    (.ok (), { s with enisCreated := s.enisCreated.bump })
  | (.error e, eni, ctx) =>
    match Eni.destroy (eni, ctx) with
    | (.ok (), _, ctx) => (.error e, { s with ctx := ctx })
    | (.error _, eni, ctx) => (.error e, keep key eni { s with ctx := ctx })

/-- Create the ENI that an entry declares, or update the one that is there. -/
def set (key : EniKey) (fields : Fields) : Step Unit := do
  ensureInitialized
  let s ← Action.get
  match s.enis.get? key with
  | some eni =>
    onEni key eni (Eni.update fields)
    Action.modify fun s => { s with enisUpdated := s.enisUpdated.bump }
  | none =>
    let eni ← Action.lift (Eni.declare key fields s.ctx)
    create key eni

def forget (key : EniKey) (s : Reconciler) : Reconciler :=
  { s with
    enis := s.enis.erase key
    hosted := (s.hosted.map (·.erase key)).filter fun _ keys => !keys.isEmpty
    enisRemoved := s.enisRemoved.bump }

/-- Remove an ENI; an unknown one is as good as removed. -/
def delete (key : EniKey) : Step Unit := do
  match (← Action.get).enis.get? key with
  | none => return ()
  | some eni =>
    onEni key eni Eni.destroy
    Action.modify (forget key)

def onNeighbor (u : NeighborUpdate) : Step Unit := do
  match (← Action.get).owners.get? u.neighbor.ip with
  | none => return ()
  | some dpu =>
    Action.modify fun s => { s with neighborUpdates := s.neighborUpdates.bump }
    let keys := (← Action.get).hostedOn dpu
    keys |> Action.visit fun key => do
      match (← Action.get).enis.get? key with
      | none => return ()
      | some eni => onEni key eni (Eni.onNeighbor u.added)

def follow (entry : Entry) : Step Unit := do
  let key ← Action.lift (EniKey.read (← Action.get).config.separator entry.key)
  match entry.op with
  | .set => set key entry.fields
  | .del => delete key

def recordFailure (entry : Entry) (e : Failure) (s : Reconciler) : Reconciler :=
  let record := (((Audit.Record.begun .errorCondition auditSource "process_entry").withObjectId
    entry.key).withObjectType "eni").withError e.message
  { s with
    errors := s.errors.bump
    ctx := { s.ctx with env := s.ctx.env.audit record } }

/-- Work through entries, and answer those that have to wait: the ones that may succeed
later, and behind each of them all later ones of its key. -/
def work : List Entry → SortedSet String → Reconciler → List Entry × Reconciler
  | [], _, s => ([], s)
  | entry :: rest, blocked, s =>
    if blocked.contains entry.key then
      let (waiting, s) := work rest blocked s
      (entry :: waiting, s)
    else
      match follow entry s with
      | (.ok (), s) => work rest blocked s
      | (.error e, s) =>
        let s := recordFailure entry e s
        if e.status.isRetryable then
          let (waiting, s) := work rest (SortedSet.add blocked entry.key) s
          (entry :: waiting, s)
        else work rest blocked s

/-- Work through the backlog; what has to wait goes back into it. -/
def doTask (s : Reconciler) : Reconciler :=
  let (entries, backlog) := s.backlog.drain
  let (waiting, s) := work entries ∅ { s with backlog := backlog }
  { s with backlog := waiting.foldr (fun entry b => b.retry entry) s.backlog }

def apply (s : Reconciler) (entries : List Entry) : Reconciler := (s.enqueue entries).doTask

end Reconciler

end EniForwarding
