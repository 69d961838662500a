/-! Event counters of sixty-four bits, which stop at their greatest value. -/

set_option autoImplicit false

namespace EniForwarding

abbrev Counter := UInt64

/-- One more, up to the greatest value. -/
def Counter.bump (n : Counter) : Counter := if n = 0xffffffffffffffff then n else n + 1

end EniForwarding
