import Nominal.Expression.Token
import Nominal.Failure
import Nominal.Table.Basic

/-! A universe is a list of type declarations as people write them, with bases and interfaces given as type
    expressions. -/

namespace Nominal

namespace Universe

/-- A declaration as it is written. -/
structure Entry where
  name : String
  space? : Option String := none
  kind : Kind
  params : List String := []
  base? : Option String := none
  interfaces : List String := []
  deriving DecidableEq, Repr, Inhabited

/-- The name behind its namespace, if there is one. -/
def Entry.fullName (e : Entry) : String :=
  match e.space? with
  | some space => if space = "" then e.name else space ++ "." ++ e.name
  | none => e.name

end Universe

/-- Declarations in the order in which they are written. -/
structure Universe where
  types : List Universe.Entry
  deriving DecidableEq, Repr, Inhabited

/-- Why a universe is turned down. -/
inductive UniverseError where
  | badName (name : String)
  | badNamespace (space name : String)
  | badParam (param owner : String)
  | repeatedParam (param owner : String)
  | genericPrimitive (name : String)
  | redeclaredRoot (name : String)
  | repeatedType (name : String)
  | interfaceWithBase (name base : String)
  | badBase (name : String) (error : ExpressionError)
  | interfaceAsBase (name base : String)
  | badInterface (name : String) (error : ExpressionError)
  | notInterface (name interface : String)
  | badInheritance (name : String) (failure : Failure)
  | interfaceLoop (name : String)
  deriving DecidableEq, Repr

namespace UniverseError

/-- What is said about a universe that is turned down. -/
def message : UniverseError → String
  | badName name => "`" ++ name ++ "` is not a valid type name"
  | badNamespace space name => "`" ++ space ++ "` is not a valid namespace for `" ++ name ++ "`"
  | badParam param owner => "`" ++ param ++ "` is not a valid type parameter name in `" ++ owner ++ "`"
  | repeatedParam param owner => "type parameter `" ++ param ++ "` appears twice in `" ++ owner ++ "`"
  | genericPrimitive name => "primitive `" ++ name ++ "` cannot be generic"
  | redeclaredRoot name => "`" ++ name ++ "` is the builtin root and cannot be redeclared"
  | repeatedType name => "type `" ++ name ++ "` is declared more than once"
  | interfaceWithBase name base =>
    "interface `" ++ name ++ "` cannot have a base type; list `" ++ base ++ "` under interfaces"
  | badBase name e => "in the base type of `" ++ name ++ "`: " ++ e.message
  | interfaceAsBase name base =>
    "`" ++ name ++ "` names interface `" ++ base ++ "` as its base type; list it under interfaces"
  | badInterface name e => "in the interfaces of `" ++ name ++ "`: " ++ e.message
  | notInterface name i => "`" ++ name ++ "` lists `" ++ i ++ "` as an interface, but it is not one"
  | badInheritance name f => "invalid inheritance for `" ++ name ++ "`: " ++ f.message
  | interfaceLoop name => "interface inheritance of `" ++ name ++ "` loops back to itself"

/-- The failed search behind a refusal. -/
def failure? : UniverseError → Option Failure
  | badInheritance _ f => some f
  | _ => none

end UniverseError

end Nominal
