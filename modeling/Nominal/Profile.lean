/-! How far a search may go: how deep it may nest, and how often it may try to go on. -/

namespace Nominal

/-- The limits of a search, either those of one of the two usual tasks or chosen freely. -/
inductive Profile where
  | unification
  | supertypeClosure
  | custom (maxDepth maxIterations : Nat)
  deriving DecidableEq, Repr, Inhabited

namespace Profile

/-- How deep a search may nest. -/
def maxDepth : Profile → Nat
  | unification => 64
  | supertypeClosure => 64
  | custom depth _ => depth

/-- How often a search may try to go on. -/
def maxIterations : Profile → Nat
  | unification => 100000
  | supertypeClosure => 10000
  | custom _ iterations => iterations

/-- The limits for listing supertypes on behalf of a search with limits `p`. -/
def closure : Profile → Profile
  | custom depth iterations => custom depth iterations
  | _ => supertypeClosure

/-- The largest number a counter can show, and the limit that stands for none. -/
def ceiling : Nat := 4294967295

/-- The limits that no search reaches. -/
def unbounded : Profile := custom ceiling ceiling

/-- The limits as a log shows them. -/
def text : Profile → String
  | unification => "Unification"
  | supertypeClosure => "SupertypeClosure"
  | custom depth iterations =>
    "Custom \x7b max_depth: " ++ toString depth ++ ", max_iterations: " ++ toString iterations ++ " \x7d"

end Profile

end Nominal
