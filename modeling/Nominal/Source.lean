import Nominal.Failure
import Nominal.Profile

/-! What a search has to know about declarations: how many parameters each has, what it implements, what it extends, and
    which one is the root that everything extends. Interfaces and bases are written with the parameters of the
    declaration itself. -/

namespace Nominal

/-- A source of type information. It is not asked for the arguments of a reference, nor whether a reference is an open
    definition: both are read off the reference (`TypeRef.args`, `TypeRef.IsOpen`), so a source cannot replace them. -/
class TypeSource (σ : Type) where
  /-- The number of parameters of a declaration, if there is one. -/
  arity? : σ → Symbol → Option Nat
  /-- All interfaces of a declaration, inherited ones included. -/
  interfaces : σ → Symbol → List TypeRef
  /-- All interfaces of a declaration, unless finding them goes beyond the limits of a profile. -/
  interfacesWithin : σ → Symbol → Profile → Except Failure (List TypeRef) := fun src s _ => .ok (interfaces src s)
  /-- What a declaration extends. -/
  base? : σ → Symbol → Option TypeRef
  /-- Whether a declaration is the root, which is never listed as a supertype. -/
  isRoot : σ → Symbol → Bool

namespace TypeSource

variable {σ : Type} [TypeSource σ]

mutual

/-- Checks an argument: a parameter has to belong to its owner, and a reference has to be well-formed. -/
def checkArg (src : σ) : TypeArg → Except Failure Unit
  | .param p =>
    match arity? src p.owner with
    | none => .error (.unknownSymbol p.owner)
    | some n => if p.index < n then .ok () else .error (.paramOutOfRange p n)
  | .type s as =>
    match arity? src s with
    | none => .error (.unknownSymbol s)
    | some n => if n = as.length then checkArgs src as else .error (.arityMismatch s n as.length)

/-- Checks arguments from left to right. -/
def checkArgs (src : σ) : List TypeArg → Except Failure Unit
  | [] => .ok ()
  | a :: as =>
    match checkArg src a with
    | .ok () => checkArgs src as
    | .error e => .error e

end

/-- Checks that a reference is well-formed: every symbol is known and has as many arguments as parameters, and every
    parameter belongs to its owner. The first fault is reported. -/
def check (src : σ) (t : TypeRef) : Except Failure Unit := checkArg src t.toArg

end TypeSource

end Nominal
