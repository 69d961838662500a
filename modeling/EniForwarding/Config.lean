/-! Settings of the reconciler. -/

set_option autoImplicit false

namespace EniForwarding

structure Config where
  /-- The priority of a rule of the first role. -/
  basePriority : UInt32 := 9996
  table : String := "ENI"
  tableType : String := "ENI_REDIRECT"
  /-- What stands between the VNET and the MAC address in a key. -/
  separator : Char := ':'
  deriving DecidableEq, Repr

def Config.entryTable : String := "DASH_ENI_FORWARD_TABLE"

def Config.tableDescription : String := "Contains Rule for DASH ENI Based Forwarding"

end EniForwarding
