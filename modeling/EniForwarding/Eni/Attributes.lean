import EniForwarding.Dpu
import EniForwarding.Eni.Key

/-! What is declared about an ENI.

An ENI lists the DPUs that can serve it and names the one that is active, the primary.
The first of the list that sits on the switch is its local endpoint.
-/

set_option autoImplicit false

namespace EniForwarding

structure EniAttributes where
  key : EniKey
  endpoints : List UInt64
  primary : UInt64
  vni : Option UInt32
  macDirection : MacDirection
  deriving DecidableEq, Repr

namespace EniAttributes

def endpointsField : String := "vdpu_ids"
def primaryField : String := "primary_vdpu"
def vniField : String := "outbound_vni"
def macDirectionField : String := "outbound_eni_mac_lookup"

def localEndpoint (a : EniAttributes) (dpus : Dpus) : Option UInt64 :=
  a.endpoints.find? dpus.isLocal

/-- The attributes that an entry declares; without a VNI of its own the ENI takes that
of its VNET. -/
def ofFields (key : EniKey) (vnetVni : Option UInt32) (fields : Fields) :
    Except EntryError EniAttributes := do
  let endpoints ←
    match ← fields.parseList? UInt64 endpointsField with
    | none | some [] => throw (.missingField endpointsField)
    | some endpoints => pure endpoints
  let primary ← fields.require UInt64 primaryField
  let vni ← fields.parse? UInt32 vniField
  return {
    key, endpoints, primary
    vni := vni <|> vnetVni
    macDirection := .ofConfig (fields.get? macDirectionField) }

end EniAttributes

end EniForwarding
