import EniForwarding.Failure

/-! Steps that can fail and keep what they have done.

An action runs on a state and ends with a value or a failure, and in either case with
a state: what was changed before a failure stays changed. `both` and `visit` go on
after a failure and report the first one.
-/

set_option autoImplicit false

namespace EniForwarding

def Action (σ α : Type) : Type := σ → Except Failure α × σ

namespace Action

variable {σ τ ρ α β : Type}

protected def pure (a : α) : Action σ α := fun s => (.ok a, s)

/-- Go on only after a success. -/
protected def bind (x : Action σ α) (f : α → Action σ β) : Action σ β := fun s =>
  match x s with
  | (.ok a, s) => f a s
  | (.error e, s) => (.error e, s)

instance : Monad (Action σ) where
  pure := Action.pure
  bind := Action.bind

def get : Action σ σ := fun s => (.ok s, s)

def modify (f : σ → σ) : Action σ Unit := fun s => (.ok (), f s)

def fail (e : Failure) : Action σ α := fun s => (.error e, s)

/-- A computation that does not look at the state. -/
def lift (r : Except Failure α) : Action σ α := fun s => (r, s)

/-- Before a failure is passed on, do something about it that cannot fail. -/
def onFailure (x : Action σ α) (note : Failure → σ → σ) : Action σ α := fun s =>
  match x s with
  | (.ok a, s) => (.ok a, s)
  | (.error e, s) => (.error e, note e s)

def onSecond (x : Action τ α) : Action (ρ × τ) α := fun s =>
  let (result, second) := x s.2
  (result, s.1, second)

def firstFailure : Except Failure Unit → Except Failure Unit → Except Failure Unit
  | .error e, _ => .error e
  | .ok (), second => second

def both (x y : Action σ Unit) : Action σ Unit := fun s =>
  let (first, s) := x s
  let (second, s) := y s
  (firstFailure first second, s)

def visit (f : α → Action σ Unit) : List α → Action σ Unit
  | [] => Action.pure ()
  | a :: rest => both (f a) (visit f rest)

/-- Act on every item of a list in turn, each time with the state that is left. -/
def sweep (x : Action (ρ × τ) Unit) : Action (List ρ × τ) Unit
  | ([], s) => (.ok (), [], s)
  | (item :: rest, s) =>
    let (first, item, s) := x (item, s)
    let (second, rest, s) := sweep x (rest, s)
    (firstFailure first second, item :: rest, s)

end Action

end EniForwarding
