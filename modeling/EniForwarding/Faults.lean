import EniForwarding.Switch

/-! Calls that fail on their way to the switch.

A plan says of each coming call whether it is lost, and with which message. There is
at most one plan for each sort of call; without a plan nothing is lost.
-/

set_option autoImplicit false

namespace EniForwarding

/-- Which of the coming calls fail, counted from those already made. -/
structure Plan where
  failure : Nat → Option String
  made : Nat

namespace Plan

/-- Let some calls through, then fail some, or all if their number is not given. -/
def window (skip : Nat) (count : Option Nat) (message : String) : Plan where
  failure n := if skip ≤ n ∧ count.all (n < skip + ·) then some message else none
  made := 0

def next (p : Plan) : Option String := p.failure p.made

def advance (p : Plan) : Plan := { p with made := p.made + 1 }

end Plan

structure Faults where
  plans : List (Call.Kind × Plan)

namespace Faults

def none : Faults := ⟨[]⟩

def plan (f : Faults) (kind : Call.Kind) (p : Plan) : Faults :=
  ⟨(kind, p) :: f.plans.filter (·.1 != kind)⟩

def next (f : Faults) (kind : Call.Kind) : Option String :=
  (f.plans.find? (·.1 == kind)).bind (·.2.next)

def advance (f : Faults) (kind : Call.Kind) : Faults :=
  ⟨f.plans.map fun (k, p) => if k = kind then (k, p.advance) else (k, p)⟩

end Faults

end EniForwarding
