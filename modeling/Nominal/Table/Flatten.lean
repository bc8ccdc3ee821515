import Nominal.Reference.Substitution
import Nominal.Search
import Nominal.Source
import Nominal.Table.Basic

/-! All interfaces of a declaration: those it declares, each followed by what that one inherits, and then those of its
    base. Each is listed once, where it comes up first. A declaration that is being expanded already is not expanded
    again, so that every chain of expansions ends. -/

namespace Nominal

/-- A search for interfaces, watched by symbol, which gathers them in order. -/
abbrev FlattenM := SearchM Symbol (List TypeRef)

namespace FlattenM

/-- Lists an interface, unless it is listed already. -/
def list (i : TypeRef) : FlattenM Unit :=
  SearchM.gather fun found => if i ∈ found then found else found ++ [i]

/-- Goes through what `d`, read as `t` binds its parameters, implements and extends. -/
def expand (recur : TypeRef → FlattenM Unit) (t : TypeRef) (d : Declaration) : FlattenM Unit := do
  d.interfaces.forM fun declared => do
    list (t.instantiate declared)
    recur (t.instantiate declared)
  match d.base? with
  | none => pure ()
  | some base => recur (t.instantiate base)

/-- Visits a reference under the guard. What the table does not know has no interfaces. -/
def visit (table : Table) (recur : TypeRef → FlattenM Unit) (t : TypeRef) : FlattenM Unit :=
  match table.get? t.symbol with
  | none => pure ()
  | some d => SearchM.within t.symbol (pure ()) (expand recur t d)

/-- Visits a reference with room for so many levels below it. The guard enters no level beyond its depth limit, so that
    much room is enough. -/
def collect (table : Table) : Nat → TypeRef → FlattenM Unit
  | 0 => visit table fun _ => pure ()
  | room + 1 => visit table (collect table room)

end FlattenM

namespace Table

/-- The search for the interfaces of an open definition from start to end. -/
def flatten (t : Table) (s : Symbol) (arity : Nat) (p : Profile) : Except Failure Unit × Search Symbol (List TypeRef) :=
  FlattenM.collect t p.maxDepth (TypeRef.opened s arity) ⟨.ofProfile p, []⟩

/-- All interfaces of a declaration, if they are found within the limits of a profile. -/
def interfacesWithin (t : Table) (s : Symbol) (p : Profile) : Except Failure (List TypeRef) :=
  match t.get? s with
  | none => .ok []
  | some d =>
    match t.flatten s d.arity p with
    | (.ok (), found) => .ok found.gathered
    | (.error e, _) => .error e

/-- All interfaces of a declaration. -/
def interfaces (t : Table) (s : Symbol) : List TypeRef :=
  match t.interfacesWithin s .unbounded with
  | .ok found => found
  | .error _ => []

instance : TypeSource Table where
  arity? t s := (t.get? s).map (·.arity)
  interfaces := interfaces
  interfacesWithin := interfacesWithin
  base? t s := (t.get? s).bind (·.base?)
  isRoot t s := ((t.get? s).map (·.isRoot)).getD false

end Table

end Nominal
