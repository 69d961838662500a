import EniForwarding.Entry

/-! Why an operation on an ENI fails.

What the entry says cannot be mended by waiting. What the switch refuses, or has not
been told yet, may succeed later, so the entry is kept and tried again.
-/

set_option autoImplicit false

namespace EniForwarding

inductive Failure where
  | missingField (field : String)
  | invalidField (field value : String)
  | invalidKey (key : String)
  | invalidEndpoint (detail : String)
  | vipUnavailable (detail : String)
  | aclRefused (detail : String)
  | tunnelRefused (detail : String)
  deriving DecidableEq, Repr

namespace Failure

def message : Failure → String
  | .missingField field => "Missing mandatory field: " ++ field
  | .invalidField field value => "Invalid value for " ++ field ++ ": " ++ value
  | .invalidKey key => "Invalid ENI key: " ++ key
  | .invalidEndpoint detail => "Invalid endpoint: " ++ detail
  | .vipUnavailable detail => "VIP not available: " ++ detail
  | .aclRefused detail => "ACL backend error: " ++ detail
  | .tunnelRefused detail => "Tunnel backend error: " ++ detail

def isRetryable : Failure → Bool
  | .vipUnavailable _ | .aclRefused _ | .tunnelRefused _ => true
  | _ => false

def status (f : Failure) : Status := if f.isRetryable then .needRetry else .invalidEntry

def ofEntryError : EntryError → Failure
  | .missingField field => .missingField field
  | .invalidField field value => .invalidField field value
  | .invalidKey key => .invalidKey key

end Failure

/-- A reader's refusal, as a failure of the operation that needed the value. -/
def orFail {α : Type} : Except EntryError α → Except Failure α
  | .ok a => .ok a
  | .error e => .error (.ofEntryError e)

end EniForwarding
