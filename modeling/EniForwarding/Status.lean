/-! What becomes of an entry that was worked on. -/

set_option autoImplicit false

namespace EniForwarding

inductive Status where
  | success
  | invalidEntry
  | failed
  | needRetry
  | ignore
  deriving DecidableEq, Repr

namespace Status

def all : List Status := [.success, .invalidEntry, .failed, .needRetry, .ignore]

def isSuccess : Status → Bool
  | .success | .ignore => true
  | _ => false

/-- The entry is kept and worked on again. -/
def isRetryable : Status → Bool
  | .needRetry => true
  | _ => false

def isFailure : Status → Bool
  | .invalidEntry | .failed => true
  | _ => false

end Status

end EniForwarding
