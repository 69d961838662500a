import EniForwarding.Acl.Vocabulary
import EniForwarding.Data.SortedMap
import EniForwarding.Entry

/-! Rule tables, bound to the ports whose traffic they see. -/

set_option autoImplicit false

namespace EniForwarding.Acl

structure Table where
  name : String
  description : String
  type : String
  stage : Stage
  ports : SortedSet String
  deriving DecidableEq

namespace Table

def ofType (name type : String) : Table := ⟨name, "", type, .ingress, ∅⟩

def withDescription (t : Table) (description : String) : Table :=
  { t with description := description }

def withStage (t : Table) (stage : Stage) : Table := { t with stage := stage }

def withPorts (t : Table) (ports : List String) : Table :=
  { t with ports := ports.foldl SortedSet.add t.ports }

/-- The entry that announces the table; the ports are listed in order. -/
def toFields (t : Table) : Fields := [
  ("policy_desc", t.description),
  ("type", t.type),
  ("stage", t.stage.name),
  ("ports", ",".intercalate t.ports.members)]

end Table

end EniForwarding.Acl
