/-! Texts that do not name what they should.

Each reader of this folder refuses a text with the whole text it was given, so
that the message shows the input and not the part where reading stopped.
-/

set_option autoImplicit false

namespace EniForwarding.Net

/-- A text that was refused, by what it should have named. -/
inductive Malformed where
  | mac (text : String)
  | address (text : String)
  | range (text : String)
  | portKind (text : String)
  | portRole (text : String)
  deriving DecidableEq, Repr

def Malformed.message : Malformed → String
  | .mac text => "invalid MAC address format: " ++ text
  | .address text => "invalid IP address format: " ++ text
  | .range text => "invalid IP prefix format: " ++ text
  | .portKind text => "invalid port type: " ++ text
  | .portRole text => "invalid port role: " ++ text

end EniForwarding.Net
