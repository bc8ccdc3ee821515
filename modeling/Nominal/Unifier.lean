import Nominal.Ancestry
import Nominal.Search
import Std.Data.HashMap

/-! Unification decides whether a type on hand can be used where another one is asked for. Five rules are tried in turn:
    two equal open definitions match; a reference matches the open definition of its own symbol, which binds the
    parameters; references to one symbol match if their arguments do; and the type asked for, as its open definition or
    as it stands, matches if one of the supertypes of the type on hand does.

    A unifier remembers the answers it has found. A negative answer that was found after a cycle was cut holds for that
    path only and is not remembered. -/

namespace Nominal

/-- The answer to a query: no match, a match, or a match that binds the parameters of an open definition. -/
inductive Unification where
  | noMatch
  | matched
  | instantiated (args : List TypeArg)
  deriving DecidableEq, Repr, Inhabited

namespace Unification

/-- Whether there is a match. -/
def isMatch : Unification → Bool
  | noMatch => false
  | _ => true

/-- The arguments that parameters were bound to. -/
def instantiation? : Unification → Option (List TypeArg)
  | instantiated args => some args
  | _ => none

end Unification

/-- A question: the type asked for, and the type on hand. -/
abbrev Query := TypeRef × TypeRef

/-- What a unifier gathers: answers to remember, how many cycles were cut, and what happened. -/
structure Findings where
  memo : Std.HashMap Query Unification := ∅
  cycles : Nat := 0
  events : Array Event := #[]

/-- A search for a match, watched by query. -/
abbrev UnifyM := SearchM Query Findings

namespace UnifyM

variable {σ : Type} [TypeSource σ]

/-- Tells what happened. -/
def tell (e : Event) : UnifyM Unit := SearchM.gather fun f => { f with events := f.events.push e }

/-- Tells of several events. -/
def tellAll (es : List Event) : UnifyM Unit := SearchM.gather fun f => { f with events := f.events ++ es }

/-- Answers with a match found by a rule. -/
def conclude (rule : Rule) (a b : TypeRef) (answer : Unification) : UnifyM Unification := do
  tell (.ruleApplied rule a b)
  return answer

/-- Cuts a cycle: on this path there is no match. -/
def cut (a b : TypeRef) : UnifyM Unification := do
  tell (.cycleCut a b)
  SearchM.gather fun f => { f with cycles := f.cycles + 1 }
  return .noMatch

/-- The supertypes in an ancestry. -/
def climb (above : Ancestry) : UnifyM (List TypeRef) := do
  tellAll above.events
  Attempt.ofExcept above.supertypes

/-- The supertypes of a declaration. -/
def climbSymbol (src : σ) (p : Profile) (s : Symbol) : UnifyM (List TypeRef) :=
  match TypeSource.definition? src s with
  | none => pure []
  | some t => climb (.ofRef src p t)

/-- Whether two arguments match: parameters if they are equal, references if there is a match. -/
def argMatches (recur : TypeRef → TypeRef → UnifyM Unification) : TypeArg → TypeArg → UnifyM Bool
  | .param p, .param q => pure (decide (p = q))
  | .type s as, .type t bs => return (← recur ⟨s, as⟩ ⟨t, bs⟩).isMatch
  | _, _ => pure false

/-- Whether arguments match in pairs; the first pair that does not ends the comparison. -/
def argsMatch (recur : TypeRef → TypeRef → UnifyM Unification) : List TypeArg → List TypeArg → UnifyM Bool
  | a :: as, b :: bs => do
    if ← argMatches recur a b then argsMatch recur as bs else return false
  | _, _ => pure true

/-- The first of several references that matches what is asked for. -/
def firstMatch? (recur : TypeRef → TypeRef → UnifyM Unification) (a : TypeRef) : List TypeRef → UnifyM (Option TypeRef)
  | [] => pure none
  | b :: bs => do
    if (← recur a b).isMatch then return some b else firstMatch? recur a bs

/-- The last two rules: through the supertypes of the declaration on hand, and through those of the reference on
    hand. -/
def throughSupertypes (src : σ) (p : Profile) (recur : TypeRef → TypeRef → UnifyM Unification) (a b : TypeRef) :
    UnifyM Unification := do
  match ← firstMatch? recur a.definition (← climbSymbol src p b.symbol) with
  | some via => conclude (.openSupertype via) a b .matched
  | none =>
    match ← firstMatch? recur a (← climb (.ofRef src p b)) with
    | some via => conclude (.supertype via) a b .matched
    | none => return .noMatch

/-- Tries the five rules in turn. -/
def tryRules (src : σ) (p : Profile) (recur : TypeRef → TypeRef → UnifyM Unification) (a b : TypeRef) :
    UnifyM Unification := do
  if a.symbol = b.symbol ∧ b.IsOpen then
    if a.IsOpen then conclude .bothOpen a b .matched
    else conclude .closedOpen a b (.instantiated a.args)
  else if a.symbol = b.symbol ∧ a.arity = b.arity then
    if ← argsMatch recur a.args b.args then conclude .arguments a b .matched
    else throughSupertypes src p recur a b
  else throughSupertypes src p recur a b

/-- Answers a query from memory or by the rules. The answer is remembered if it is a match or if no cycle was cut. -/
def visit (src : σ) (p : Profile) (recur : TypeRef → TypeRef → UnifyM Unification) (a b : TypeRef) :
    UnifyM Unification := do
  match ← SearchM.view (·.memo[(a, b)]?) with
  | some known => return known
  | none =>
    let before ← SearchM.view Findings.cycles
    let answer ← SearchM.within (a, b) (cut a b) (tryRules src p recur a b)
    SearchM.gather fun f =>
      if answer.isMatch ∨ f.cycles = before then { f with memo := f.memo.insert (a, b) answer } else f
    return answer

/-- Answers a query with room for so many levels below it. The guard enters no level beyond its depth limit, so that
    much room is enough. -/
def solve (src : σ) (p : Profile) : Nat → TypeRef → TypeRef → UnifyM Unification
  | 0 => visit src p fun _ _ => pure .noMatch
  | room + 1 => visit src p (solve src p room)

end UnifyM

/-- A unifier between queries: its guard, the limits for listing supertypes, and what it remembers. -/
structure Unifier where
  guard : Guard Query
  closure : Profile
  memo : Std.HashMap Query Unification := ∅
  cycles : Nat := 0

namespace Unifier

variable {σ : Type} [TypeSource σ]

/-- A unifier that remembers nothing yet. -/
def ofProfile (p : Profile) : Unifier := { guard := .ofProfile p, closure := p.closure }

/-- The answer to a query, the unifier afterwards, and what happened. -/
structure Answer where
  result : Except Failure Unification
  unifier : Unifier
  events : List Event

/-- The search for the answer to a query, from start to end. -/
def search (src : σ) (u : Unifier) (a b : TypeRef) : Except Failure Unification × Search Query Findings :=
  UnifyM.solve src u.closure u.guard.maxDepth a b
    { guard := u.guard.restart, gathered := { memo := u.memo, cycles := u.cycles } }

/-- The last event of a query. -/
def closing (result : Except Failure Unification) (steps : Nat) : Event :=
  match result with
  | .ok answer => .unifyEnded answer.isMatch answer.instantiation?.isSome steps
  | .error e => .unifyAborted e steps

/-- Asks whether `b` can be used where `a` is asked for. Both references are checked before the search begins. -/
def unify (src : σ) (u : Unifier) (a b : TypeRef) : Answer :=
  match TypeSource.check src a, TypeSource.check src b with
  | .error e, _ => ⟨.error e, u, []⟩
  | .ok (), .error e => ⟨.error e, u, []⟩
  | .ok (), .ok () =>
    let (result, state) := u.search src a b
    { result
      unifier := { u with guard := state.guard, memo := state.gathered.memo, cycles := state.gathered.cycles }
      events := .unifyStarted a b :: state.gathered.events.toList ++ [closing result state.guard.iterations] }

end Unifier

variable {σ : Type} [TypeSource σ]

/-- Asks a fresh unifier whether `b` can be used where `a` is asked for. -/
def unify (src : σ) (a b : TypeRef) (p : Profile := .unification) : Logged (Except Failure Unification) :=
  let answer := (Unifier.ofProfile p).unify src a b
  ⟨answer.result, answer.events⟩

/-- Whether `b` can be used where `a` is asked for; a query that fails counts as no. -/
def isUnifiable (src : σ) (a b : TypeRef) : Logged Bool :=
  let answer := unify src a b
  match answer.value with
  | .ok result => ⟨result.isMatch, answer.events⟩
  | .error e => ⟨false, answer.events ++ [.failedClosed a b e]⟩

end Nominal
