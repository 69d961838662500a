import EniForwarding.Data.SortedMap
import EniForwarding.Entry

/-! Data processing units.

A DPU sits on this switch or elsewhere in the cluster. It is reached at its own
address, the PA, when it is on the switch, and through the address of its network
unit, the NPU, when it is elsewhere; an IPv4 address is preferred. A row of the DPU
table that cannot be read, or that gives no PA, is passed over.
-/

set_option autoImplicit false

namespace EniForwarding

inductive Placement where
  | onSwitch
  | inCluster
  deriving DecidableEq, Repr

namespace Placement

def name : Placement → String
  | .onSwitch => "local"
  | .inCluster => "cluster"

/-- Whatever is not said to be local is elsewhere. -/
def ofConfig (value : Option String) : Placement :=
  if value = some "local" then .onSwitch else .inCluster

end Placement

structure Dpu where
  id : UInt64
  placement : Placement
  state : Option String
  paV4 : Option Net.Address
  paV6 : Option Net.Address
  npuV4 : Option Net.Address
  npuV6 : Option Net.Address
  deriving DecidableEq, Repr

namespace Dpu

def typeField : String := "type"
def stateField : String := "state"
def paV4Field : String := "pa_ipv4"
def paV6Field : String := "pa_ipv6"
def npuV4Field : String := "npu_ipv4"
def npuV6Field : String := "npu_ipv6"

def isLocal (d : Dpu) : Bool := d.placement == .onSwitch

def pa (d : Dpu) : Option Net.Address := d.paV4 <|> d.paV6

def npu (d : Dpu) : Option Net.Address := d.npuV4 <|> d.npuV6

/-- An address field; an empty one is as good as none. The outer `none` is a field
that cannot be read. -/
def address? (row : Fields) (field : String) : Option (Option Net.Address) :=
  if row.get? field = some "" then some none
  else
    match row.parse? Net.Address field with
    | .ok address => some address
    | .error _ => none

def ofRow? (key : String) (row : Fields) : Option Dpu := do
  let id ← Text.uint64? (Text.trimChars key.toList)
  let paV4 ← address? row paV4Field
  let paV6 ← address? row paV6Field
  let npuV4 ← address? row npuV4Field
  let npuV6 ← address? row npuV6Field
  let dpu : Dpu :=
    ⟨id, .ofConfig (row.get? typeField), row.get? stateField, paV4, paV6, npuV4, npuV6⟩
  if dpu.pa.isSome then some dpu else none

end Dpu

abbrev Dpus := SortedMap UInt64 Dpu

namespace Dpus

/-- Take in one row, over an earlier DPU of the same id; a bad row changes nothing. -/
def register (dpus : Dpus) (row : String × Fields) : Dpus :=
  match Dpu.ofRow? row.1 row.2 with
  | some dpu => dpus.insert dpu.id dpu
  | none => dpus

/-- The number of rows that describe a DPU, and the registry after all rows. -/
def populate (dpus : Dpus) (rows : List (String × Fields)) : Nat × Dpus :=
  (rows.countP fun row => (Dpu.ofRow? row.1 row.2).isSome, rows.foldl register dpus)

def locals (dpus : Dpus) : List Dpu := dpus.values.filter Dpu.isLocal

def isLocal (dpus : Dpus) (id : UInt64) : Bool := (dpus.get? id).any Dpu.isLocal

end Dpus

end EniForwarding
