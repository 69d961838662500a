import EniForwarding.Net.Address

/-! Places where traffic can be sent.

A neighbor is an address behind a router interface. A tunnel hop is an address at the
far end of a tunnel. Both are written as the address, an at sign, and the name.
-/

set_option autoImplicit false

namespace EniForwarding

structure Neighbor where
  ip : Net.Address
  «alias» : String
  deriving DecidableEq, Repr

namespace Neighbor

/-- Neighbors are ordered by address and then by interface. -/
instance : Ord Neighbor := ⟨compareLex (compareOn ip) (compareOn Neighbor.«alias»)⟩

def render (n : Neighbor) : String := n.ip.render ++ "@" ++ n.«alias»

end Neighbor

/-- News about a neighbor: it has become reachable, or it has gone. -/
structure NeighborUpdate where
  neighbor : Neighbor
  added : Bool
  deriving DecidableEq, Repr

/-- An address at the far end of a tunnel. -/
structure TunnelHop where
  ip : Net.Address
  tunnel : String
  deriving DecidableEq, Repr

namespace TunnelHop

instance : Ord TunnelHop := ⟨compareLex (compareOn ip) (compareOn tunnel)⟩

instance : Std.TransOrd TunnelHop :=
  inferInstanceAs (Std.TransCmp (compareLex (compareOn ip) (compareOn tunnel)))

instance : Std.LawfulEqOrd TunnelHop where
  compare_self := Std.ReflCmp.compare_self
  eq_of_compare {a b} h := by
    obtain ⟨ip, tunnel⟩ := Ordering.then_eq_eq.1 (show (compare a.ip b.ip).then
      (compare a.tunnel b.tunnel) = .eq from h)
    cases a; cases b
    simp_all

def render (h : TunnelHop) : String := h.ip.render ++ "@" ++ h.tunnel

end TunnelHop

end EniForwarding
