import EniForwarding.Audit.Record
import EniForwarding.Faults
import EniForwarding.Inventory

/-! The surroundings that ENIs are set up in.

Besides the inventory and the switch, the environment holds the plans of failing
calls and a trace. The trace lists every call with its outcome, every request to
resolve a neighbor, every audit record and every user that a tunnel next hop gains
or loses, the newest first; nothing is ever taken out of it.
-/

set_option autoImplicit false

namespace EniForwarding

inductive Event where
  | called (call : Call) (failure : Option String)
  | asked (neighbor : Neighbor)
  | audited (record : Audit.Record)
  | joined (hop : TunnelHop)
  /-- A user gave the tunnel next hop back; the flag says whether it was known. -/
  | left (hop : TunnelHop) (known : Bool)

structure Environment where
  inventory : Inventory
  switch : Switch
  faults : Faults
  aliasLookups : Nat
  trace : List Event

namespace Environment

def ofInventory (inventory : Inventory) : Environment := ⟨inventory, .empty, .none, 0, []⟩

def record (env : Environment) (event : Event) : Environment :=
  { env with trace := event :: env.trace }

def audit (env : Environment) (r : Audit.Record) : Environment := env.record (.audited r)

def ask (env : Environment) (n : Neighbor) : Environment := env.record (.asked n)

/-- Make a call that reaches the switch. -/
def perform (env : Environment) (call : Call) : Except String Unit × Environment :=
  match env.switch.perform call with
  | .ok switch => (.ok (), { env with switch := switch, trace := .called call none :: env.trace })
  | .error message => (.error message, env.record (.called call (some message)))

/-- Make a call that may be lost on its way to the switch. -/
def attempt (env : Environment) (call : Call) : Except String Unit × Environment :=
  let failure := env.faults.next call.kind
  let env := { env with faults := env.faults.advance call.kind }
  match failure with
  | none => env.perform call
  | some message => (.error message, env.record (.called call (some message)))

def «alias» (env : Environment) (ip : Net.Address) : Option String × Environment :=
  (env.inventory.alias? ip, { env with aliasLookups := env.aliasLookups + 1 })

end Environment

end EniForwarding
