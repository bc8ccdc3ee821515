import Nominal.Reference.Text

/-! Why a question about types has no answer. A reference may be ill-formed, which breaks what the caller promised, or
    the search may have met one of its limits. -/

namespace Nominal

/-- Why a question about types has no answer. -/
inductive Failure where
  | arityMismatch (symbol : Symbol) (expected found : Nat)
  | unknownSymbol (symbol : Symbol)
  | paramOutOfRange (param : Param) (arity : Nat)
  | tooDeep (limit : Nat)
  | exhausted (limit : Nat)
  | inheritanceCycle (symbol : Symbol)
  deriving DecidableEq, Repr

namespace Failure

/-- What is said about a failure. -/
def message : Failure → String
  | arityMismatch s expected found =>
    "type " ++ s.text ++ " expects " ++ toString expected ++ " generic argument(s) but " ++ toString found ++
      " were supplied"
  | unknownSymbol s => "type " ++ s.text ++ " is not known to the type information provider"
  | paramOutOfRange p arity =>
    "generic parameter " ++ toString p.index ++ " of " ++ p.owner.text ++ " is out of range (arity " ++
      toString arity ++ ")"
  | tooDeep limit => "unification is too deep (limit " ++ toString limit ++ ")"
  | exhausted limit => "unification exceeded its budget of " ++ toString limit ++ " steps"
  | inheritanceCycle s => "inheritance cycle through type " ++ s.text

/-- Whether the search gave up, rather than being asked about an ill-formed reference. -/
def isLimit : Failure → Bool
  | tooDeep _ | exhausted _ | inheritanceCycle _ => true
  | _ => false

/-- Whether an ill-formed reference was asked about. -/
def isIllFormed (f : Failure) : Bool := !f.isLimit

end Failure

end Nominal
