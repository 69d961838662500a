import EniForwarding.Action
import EniForwarding.Data.Counter
import EniForwarding.Data.RefTable
import EniForwarding.Environment

/-! What the ENIs of one table share.

The context keeps the DPUs, the tunnel next hops with their numbers of users, the
router interfaces and the VIP once they have been found, and counts of the rules it
has written and deleted. A tunnel next hop is created for its first user and removed
after its last.
-/

set_option autoImplicit false

namespace EniForwarding

def auditSource : String := "DashEniFwdOrch"

/-- A tunnel next hop in the switch, with the number of its users. -/
structure TunnelUse where
  handle : Nat
  refs : UInt32
  deriving DecidableEq, Repr

instance : Counted TunnelUse where
  refs := TunnelUse.refs
  take use := { use with refs := Counted.up use.refs }
  release? use := (Counted.down? use.refs).map fun refs => { use with refs := refs }

structure Context where
  env : Environment
  dpus : Dpus
  tunnels : SortedMap TunnelHop TunnelUse
  tunnelsCreated : Counter
  tunnelsRemoved : Counter
  rulesInstalled : Counter
  rulesUninstalled : Counter
  aliases : SortedMap Net.Address String
  vip : Option Net.Prefix
  table : String
  basePriority : UInt32

namespace Context

def ofEnvironment (env : Environment) (table : String) (basePriority : UInt32) : Context :=
  ⟨env, ∅, ∅, 0, 0, 0, 0, ∅, none, table, basePriority⟩

def onEnvironment (f : Environment → Environment) : Action Context Unit :=
  .modify fun ctx => { ctx with env := f ctx.env }

def audit (r : Audit.Record) : Action Context Unit := onEnvironment (·.audit r)

def auditFailure {α : Type} (r : Audit.Record) (x : Action Context α) : Action Context α :=
  x.onFailure fun e ctx => { ctx with env := ctx.env.audit (r.withError e.message) }

/-- Make a call; the message of a refusal becomes a failure. -/
def call (c : Call) (refused : String → Failure) : Action Context Unit := fun ctx =>
  let (result, env) := ctx.env.attempt c
  let ctx := { ctx with env := env }
  match result with
  | .ok () => (.ok (), ctx)
  | .error message => (.error (refused message), ctx)

def populate : Action Context Nat := fun ctx =>
  let (added, dpus) := Dpus.populate ctx.dpus ctx.env.inventory.dpuRows
  (.ok added, { ctx with dpus := dpus })

/-- The router interface before an address, asked for until it is known. -/
def «alias» (ip : Net.Address) : Action Context (Option String) := fun ctx =>
  match ctx.aliases.get? ip with
  | some name => (.ok (some name), ctx)
  | none =>
    match ctx.env.«alias» ip with
    | (some name, env) =>
      (.ok (some name), { ctx with env := env, aliases := ctx.aliases.insert ip name })
    | (none, env) => (.ok none, { ctx with env := env })

def ask (n : Neighbor) : Action Context Unit := onEnvironment (·.ask n)

/-- The first VIP, kept once it has been read. -/
def findVip : Action Context Net.Prefix := fun ctx =>
  match ctx.vip with
  | some vip => (.ok vip, ctx)
  | none =>
    match ctx.env.inventory.vip? with
    | .ok vip => (.ok vip, { ctx with vip := some vip })
    | .error e => (.error (.vipUnavailable e.message), ctx)

def setTableType (name : String) (fields : Fields) : Action Context Unit :=
  call (.setTableType name fields) fun message =>
    .aclRefused ("table type " ++ name ++ ": " ++ message)

def setTable (name : String) (fields : Fields) : Action Context Unit :=
  call (.setTable name fields) fun message => .aclRefused ("table " ++ name ++ ": " ++ message)

def setRule (key : String) (fields : Fields) : Action Context Unit := do
  call (.setRule key fields) fun message => .aclRefused ("set rule " ++ key ++ ": " ++ message)
  Action.modify fun ctx => { ctx with rulesInstalled := ctx.rulesInstalled.bump }

def deleteRule (key : String) : Action Context Unit := do
  call (.deleteRule key) fun message => .aclRefused ("delete rule " ++ key ++ ": " ++ message)
  Action.modify fun ctx => { ctx with rulesUninstalled := ctx.rulesUninstalled.bump }

def tunnelRecord (category : Audit.Category) (action : String) (hop : TunnelHop) : Audit.Record :=
  (((Audit.Record.begun category auditSource action).withOutcome .success).withObjectId
    hop.render).withObjectType "tunnel_next_hop"

def handleText (handle : Nat) : String := "0x" ++ Text.renderRadix 16 handle

def createTunnel (hop : TunnelHop) : Action Context Unit := do
  let record := tunnelRecord .resourceCreate "create_tunnel_nh" hop
  auditFailure record <| call (.createTunnel hop) fun message =>
    .tunnelRefused ("create " ++ hop.render ++ ": " ++ message)
  let handle := (← Action.get).env.switch.lastHandle
  audit (record.withDetails (.object [("oid", .string (handleText handle))]))
  Action.modify fun ctx =>
    { ctx with
      tunnels := ctx.tunnels.insert hop ⟨handle, 0⟩
      tunnelsCreated := ctx.tunnelsCreated.bump }

/-- Become a user of a tunnel next hop, and answer its handle. -/
def acquire (hop : TunnelHop) : Action Context Nat := do
  unless (← Action.get).tunnels.contains hop do
    createTunnel hop
  let ctx ← Action.get
  match ctx.tunnels.get? hop, ctx.tunnels.takeRef hop with
  | some use, .ok (_, tunnels) =>
    Action.modify fun ctx => { ctx with tunnels := tunnels }
    onEnvironment (·.record (.joined hop))
    return use.handle
  | _, _ => Action.fail (.tunnelRefused ("lost entry " ++ hop.render))

def removeTunnel (hop : TunnelHop) : Action Context Unit := do
  let record := tunnelRecord .resourceDelete "remove_tunnel_nh" hop
  auditFailure record <| call (.removeTunnel hop) fun message =>
    .tunnelRefused ("remove " ++ hop.render ++ ": " ++ message)
  audit record
  Action.modify fun ctx =>
    { ctx with
      tunnels := ctx.tunnels.erase hop
      tunnelsRemoved := ctx.tunnelsRemoved.bump }

/-- Cease to be a user of a tunnel next hop; the last user removes it. Nothing is done
about a tunnel next hop that is not known. -/
def release (hop : TunnelHop) : Action Context Unit := do
  let ctx ← Action.get
  match ctx.tunnels.refs? hop with
  | none => onEnvironment (·.record (.left hop false))
  | some refs =>
    if 1 < refs then
      match ctx.tunnels.releaseRef hop with
      | .ok (_, tunnels) =>
        Action.modify fun ctx => { ctx with tunnels := tunnels }
        onEnvironment (·.record (.left hop true))
      | .error e => Action.fail (.tunnelRefused (hop.render ++ ": " ++ e.message))
    else
      removeTunnel hop
      onEnvironment (·.record (.left hop true))

end Context

end EniForwarding
