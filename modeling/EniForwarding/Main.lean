import EniForwarding.CommandLine

/-! The program. -/

set_option autoImplicit false

namespace EniForwarding.CommandLine

/-- The files of this machine. -/
def machineFiles : Files IO where
  read path := do
    try
      return some (← IO.FS.readBinFile path)
    catch _ => return none
  write path text := do
    try
      IO.FS.writeFile path text
      return true
    catch _ => return false

end EniForwarding.CommandLine

def main (args : List String) : IO UInt32 := do
  let response ← EniForwarding.CommandLine.run EniForwarding.CommandLine.machineFiles args
  (← IO.getStdout).putStr response.stdout
  return UInt32.ofNat response.exit
