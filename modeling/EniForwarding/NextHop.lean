import EniForwarding.Context

/-! Where a rule sends its traffic.

A DPU on the switch is reached directly, once its address has been resolved. A DPU
elsewhere is reached through the tunnel of the VNET, once a tunnel next hop is held.
-/

set_option autoImplicit false

namespace EniForwarding

inductive NextHop where
  | direct (endpoint : Net.Address) (resolved : Bool)
  | tunnelled (endpoint : Net.Address) (vnet : String) (tunnel : Option String)
  deriving DecidableEq, Repr

namespace NextHop

/-- The next hop to a DPU; it still has to be resolved. -/
def toward (placement : Placement) (endpoint : Net.Address) (vnet : String) : NextHop :=
  match placement with
  | .onSwitch => .direct endpoint false
  | .inCluster => .tunnelled endpoint vnet none

def placement : NextHop → Placement
  | .direct .. => .onSwitch
  | .tunnelled .. => .inCluster

def endpoint : NextHop → Net.Address
  | .direct endpoint _ | .tunnelled endpoint .. => endpoint

def isResolved : NextHop → Bool
  | .direct _ resolved => resolved
  | .tunnelled _ _ tunnel => tunnel.isSome

def hop? : NextHop → Option TunnelHop
  | .direct .. => none
  | .tunnelled endpoint _ tunnel => tunnel.map (⟨endpoint, ·⟩)

def tunnel? (h : NextHop) : Option String := h.hop?.map TunnelHop.tunnel

/-- The target of a redirecting rule: the address, or the tunnel next hop. -/
def target (h : NextHop) : String :=
  match h.hop? with
  | some hop => hop.render
  | none => h.endpoint.render

/-- Find out whether a neighbor is reachable, and ask for it if it is not. -/
def reach (ip : Net.Address) : Action Context Bool := do
  match ← Context.«alias» ip with
  | none => return false
  | some name =>
    let neighbor : Neighbor := ⟨ip, name⟩
    if (← Action.get).env.inventory.isResolved neighbor then return true
    else
      Context.ask neighbor
      return false

def resolve : NextHop → Action Context NextHop
  | .direct endpoint _ => do
    return .direct endpoint (← reach endpoint)
  | .tunnelled endpoint vnet (some tunnel) => return .tunnelled endpoint vnet (some tunnel)
  | .tunnelled endpoint vnet none => do
    match (← Action.get).env.inventory.tunnel? vnet with
    | none => return .tunnelled endpoint vnet none
    | some tunnel =>
      let _ ← Context.acquire ⟨endpoint, tunnel⟩
      return .tunnelled endpoint vnet (some tunnel)

def release : NextHop → Action Context NextHop
  | .direct endpoint resolved => return .direct endpoint resolved
  | .tunnelled endpoint vnet none => return .tunnelled endpoint vnet none
  | .tunnelled endpoint vnet (some tunnel) => do
    Context.release ⟨endpoint, tunnel⟩
    return .tunnelled endpoint vnet none

end NextHop

end EniForwarding
