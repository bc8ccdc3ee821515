import Nominal.Attempt
import Nominal.Failure
import Nominal.Guard

/-! Searches that a guard watches. A search carries its guard and whatever it gathers on the way. -/

namespace Nominal

/-- The state of a search: its guard, and what it has gathered. -/
structure Search (κ ρ : Type) where
  guard : Guard κ
  gathered : ρ

/-- A step of a search. -/
abbrev SearchM (κ ρ : Type) : Type → Type := Attempt Failure (Search κ ρ)

namespace SearchM

variable {κ ρ α : Type}

/-- Reads what has been gathered. -/
def view (f : ρ → α) : SearchM κ ρ α := Attempt.view fun s => f s.gathered

/-- Changes what has been gathered. -/
def gather (f : ρ → ρ) : SearchM κ ρ Unit := Attempt.change fun s => { s with gathered := f s.gathered }

/-- Works on a key under the guard. If the key is in work already, `onCycle` answers instead. The key is left again
    whether the work succeeds or fails. -/
@[specialize]
def within [DecidableEq κ] (key : κ) (onCycle work : SearchM κ ρ α) : SearchM κ ρ α := fun s =>
  match s.guard.enter key with
  | (g, .entered) =>
    let (answer, s) := work { s with guard := g }
    (answer, { s with guard := s.guard.release key })
  | (g, .cycle) => onCycle { s with guard := g }
  | (g, .tooDeep) => (.error (.tooDeep g.maxDepth), { s with guard := g })
  | (g, .exhausted) => (.error (.exhausted g.maxIterations), { s with guard := g })

end SearchM

end Nominal
