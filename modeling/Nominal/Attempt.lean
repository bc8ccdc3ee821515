/-! Computations that may fail and carry a state. The state survives a failure: what was done up to there stays done. -/

namespace Nominal

/-- A computation with state `s` that answers or fails, and passes the state on in both cases. -/
def Attempt (ε s α : Type) : Type := s → Except ε α × s

namespace Attempt

variable {ε s α : Type}

instance : Monad (Attempt ε s) where
  pure a := fun state => (.ok a, state)
  bind x f := fun state =>
    match x state with
    | (.ok a, state) => f a state
    | (.error e, state) => (.error e, state)

/-- Fails. -/
def fail (e : ε) : Attempt ε s α := fun state => (.error e, state)

/-- Goes on with a result that needed no state. -/
def ofExcept (r : Except ε α) : Attempt ε s α := fun state => (r, state)

/-- Reads from the state. -/
def view (f : s → α) : Attempt ε s α := fun state => (.ok (f state), state)

/-- Changes the state. -/
def change (f : s → s) : Attempt ε s Unit := fun state => (.ok (), f state)

/-- Fails unless a condition holds. -/
def require (c : Bool) (e : ε) : Attempt ε s Unit := if c then pure () else fail e

end Attempt

end Nominal
