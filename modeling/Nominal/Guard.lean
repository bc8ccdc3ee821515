import Nominal.Profile

/-! A guard watches a search that calls itself. The search enters a key before it works on it and leaves the key
    afterwards. The guard turns down a key that is being worked on already, and it turns down every key once the
    search is too deep or has tried too often. -/

namespace Nominal

/-- The guard's answer to an attempt to enter a key. -/
inductive Entry where
  | entered
  | cycle
  | tooDeep
  | exhausted
  deriving DecidableEq, Repr

namespace Entry

/-- Whether the key may be worked on. -/
def isEntered : Entry → Bool
  | entered => true
  | _ => false

/-- Whether the key is being worked on already. -/
def isCycle : Entry → Bool
  | cycle => true
  | _ => false

/-- Whether a limit was reached. -/
def isExceeded : Entry → Bool
  | tooDeep | exhausted => true
  | _ => false

end Entry

/-- A call that breaks the rules of entering and leaving. -/
inductive Misuse where
  | leftUnentered
  | resetWhileActive
  | droppedWhileActive (count : Nat)
  deriving DecidableEq, Repr

/-- What is said about a broken rule. -/
def Misuse.message : Misuse → String
  | leftUnentered => "RecursionGuard::leave() called with a key that is not in the visiting set"
  | resetWhileActive => "RecursionGuard::reset() called with active entries"
  | droppedWhileActive n =>
    "RecursionGuard dropped with " ++ toString n ++ " active entries still in the visiting set"

/-- The state of a watched search: the keys being worked on, the latest first; how deep the search is; how often it
    tried to enter a key; its limits; whether a limit was ever reached; and the first broken rule, if any. The number of
    attempts and the greatest depth over all searches are kept as well. -/
structure Guard (κ : Type) where
  active : List κ := []
  depth : Nat := 0
  iterations : Nat := 0
  maxDepth : Nat
  maxIterations : Nat
  exceeded : Bool := false
  misuse : Option Misuse := none
  attempts : Nat := 0
  deepest : Nat := 0
  deriving Repr

namespace Guard

variable {κ : Type}

/-- A guard over nothing yet, with the limits of a profile. -/
def ofProfile (p : Profile) : Guard κ := { maxDepth := p.maxDepth, maxIterations := p.maxIterations }

/-- One more than `n`, as far as a counter can count. -/
def countUp (n : Nat) : Nat := if n < Profile.ceiling then n + 1 else n

/-- Clears the counters for another search. Nothing may be in work. -/
def reset (g : Guard κ) : Except Misuse (Guard κ) :=
  if g.active.isEmpty then .ok { g with depth := 0, iterations := 0, exceeded := false }
  else .error .resetWhileActive

/-- Clears the counters for another search, and takes note if that breaks the rules. -/
def restart (g : Guard κ) : Guard κ :=
  match g.reset with
  | .ok g => g
  | .error m => { g with misuse := g.misuse.or (some m) }

/-- Gives the guard up. Nothing may be in work. -/
def drop (g : Guard κ) : Except Misuse Unit :=
  if g.active.isEmpty then .ok () else .error (.droppedWhileActive g.active.length)

variable [DecidableEq κ]

/-- Whether the key is being worked on. -/
@[inline]
def isActive (g : Guard κ) (k : κ) : Bool := g.active.any (· = k)

/-- Tries to enter a key. Every attempt counts, and the number of attempts is checked first, then the depth, then
    the key itself. -/
@[specialize]
def enter (g : Guard κ) (k : κ) : Guard κ × Entry :=
  let tried := { g with iterations := countUp g.iterations, attempts := g.attempts + 1 }
  if tried.iterations > g.maxIterations then ({ tried with exceeded := true }, .exhausted)
  else if g.depth ≥ g.maxDepth then ({ tried with exceeded := true }, .tooDeep)
  else if g.isActive k then (tried, .cycle)
  else
    ({ tried with active := k :: g.active, depth := g.depth + 1, deepest := max g.deepest (g.depth + 1) }, .entered)

/-- Leaves a key. Only a key that is being worked on can be left. -/
@[specialize]
def leave (g : Guard κ) (k : κ) : Except Misuse (Guard κ) :=
  if g.isActive k then .ok { g with active := g.active.erase k, depth := g.depth - 1 }
  else .error .leftUnentered

/-- Leaves a key, and takes note if that breaks the rules. -/
@[specialize]
def release (g : Guard κ) (k : κ) : Guard κ :=
  match g.leave k with
  | .ok g => g
  | .error m => { g with misuse := g.misuse.or (some m) }

end Guard

end Nominal
