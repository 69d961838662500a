import EniForwarding.Dpu
import EniForwarding.Neighbor
import EniForwarding.Net.Port
import EniForwarding.Net.Prefix

/-! What can be looked up around the switch.

The inventory holds the DPU table, the VIPs, the ports, the VNETs, the router
interfaces and the neighbors that have been resolved. Looking something up does not
change it.
-/

set_option autoImplicit false

namespace EniForwarding

/-- A virtual network: its identifier on the wire, and the tunnel that carries it. -/
structure Vnet where
  vni : Option UInt32
  tunnel : Option String
  deriving DecidableEq, Repr

structure Inventory where
  dpus : SortedMap String (SortedMap String String)
  vips : List String
  ports : List Net.Port
  vnets : SortedMap String Vnet
  interfaces : SortedMap Net.Address String
  neighbors : SortedSet Net.Address
  deriving DecidableEq

namespace Inventory

def empty : Inventory := ⟨∅, [], [], ∅, ∅, ∅⟩

def alias? (i : Inventory) (ip : Net.Address) : Option String := i.interfaces.get? ip

/-- The address has been resolved, and behind this interface. -/
def isResolved (i : Inventory) (n : Neighbor) : Bool :=
  i.neighbors.contains n.ip && i.alias? n.ip == some n.«alias»

def vni? (i : Inventory) (vnet : String) : Option UInt32 := (i.vnets.get? vnet).bind Vnet.vni

def tunnel? (i : Inventory) (vnet : String) : Option String :=
  (i.vnets.get? vnet).bind Vnet.tunnel

/-- The rows of the DPU table in the order of their keys, their fields by name. -/
def dpuRows (i : Inventory) : List (String × Fields) :=
  i.dpus.toList.map fun (key, row) => (key, row.toList)

/-- The ports that a rule table is bound to: physical ports and groups, except those
that lead to a DPU and those that belong to a group. -/
def bindPoints (i : Inventory) : SortedSet String :=
  let members := i.ports.flatMap Net.Port.members
  let bound := i.ports.filter fun port =>
    port.kind.isBindable && port.role != .dpuConnect && !members.contains port.name
  .ofMembers (bound.map Net.Port.name)

inductive VipError where
  | empty
  | malformed (text : String)
  deriving DecidableEq, Repr

def VipError.message : VipError → String
  | .empty => "VIP table is empty"
  | .malformed text => "malformed VIP " ++ text

def vip? (i : Inventory) : Except VipError Net.Prefix :=
  match i.vips with
  | [] => .error .empty
  | first :: _ =>
    match Net.Prefix.ofText? first with
    | some vip => .ok vip
    | none => .error (.malformed first)

/-- Add a DPU with one address each for itself and its network unit; the address
family decides the fields, and an empty network address is left out. -/
def addDpu (i : Inventory) (id : UInt64) (type pa npu : String) : Inventory :=
  let isV6 := pa.toList.contains ':'
  let paField := if isV6 then Dpu.paV6Field else Dpu.paV4Field
  let npuField := if isV6 then Dpu.npuV6Field else Dpu.npuV4Field
  let row := [(Dpu.typeField, type), (paField, pa)] ++ if npu = "" then [] else [(npuField, npu)]
  { i with dpus := i.dpus.insert (Text.renderRadix 10 id.toNat) (.ofList row) }

def addVip (i : Inventory) (vip : String) : Inventory := { i with vips := i.vips ++ [vip] }

def clearVips (i : Inventory) : Inventory := { i with vips := [] }

def addPort (i : Inventory) (port : Net.Port) : Inventory := { i with ports := i.ports ++ [port] }

def addVnet (i : Inventory) (name : String) (vnet : Vnet) : Inventory :=
  { i with vnets := i.vnets.insert name vnet }

def addInterface (i : Inventory) (ip : Net.Address) (name : String) : Inventory :=
  { i with interfaces := i.interfaces.insert ip name }

def neighbor? (i : Inventory) (ip : Net.Address) : Option Neighbor :=
  (i.alias? ip).map (⟨ip, ·⟩)

def resolve (i : Inventory) (ip : Net.Address) : Inventory :=
  { i with neighbors := SortedSet.add i.neighbors ip }

def unresolve (i : Inventory) (ip : Net.Address) : Inventory :=
  { i with neighbors := i.neighbors.erase ip }

end Inventory

end EniForwarding
