import Nominal.Event
import Nominal.Reference.Substitution
import Nominal.Source

/-! The supertypes of a reference: the interfaces of its declaration, and then its bases from the nearest on, up to but
    without the root. All are read with the parameters bound as the reference binds them, and listed in normal form. -/

namespace Nominal

variable {σ : Type} [TypeSource σ]

/-- The bases above a reference, nearest first, and what stopped the climb, if it did not end by itself. -/
structure BaseChain where
  ancestors : List TypeRef
  failure? : Option Failure
  deriving DecidableEq, Repr

namespace BaseChain

/-- What a reference extends, with its parameters bound, unless that is the root. -/
def next? (src : σ) (t : TypeRef) : Option TypeRef :=
  match TypeSource.base? src t.symbol with
  | none => none
  | some declared => if TypeSource.isRoot src declared.symbol then none else some (t.instantiate declared)

/-- Climbs from a reference. A symbol that was passed before closes a cycle, and with no room left for another base the
    chain is too long for `limit`. -/
def climb (src : σ) (limit : Nat) (room : Nat) (passed : List Symbol) (t : TypeRef) : BaseChain :=
  match next? src t with
  | none => ⟨[], none⟩
  | some base =>
    if passed.any (· = base.symbol) then ⟨[], some (.inheritanceCycle base.symbol)⟩
    else
      match room with
      | 0 => ⟨[], some (.tooDeep limit)⟩
      | room + 1 =>
        let above := climb src limit room (base.symbol :: passed) base
        ⟨base :: above.ancestors, above.failure?⟩

/-- The bases above a reference. At most `limit` symbols may be passed, that of the reference included. -/
def above (src : σ) (limit : Nat) (t : TypeRef) : BaseChain :=
  climb src limit (limit - 1) [t.symbol] t

end BaseChain

/-- What is found above a reference: interfaces in normal form, and bases. -/
structure Ancestry where
  type : TypeRef
  interfaces : Except Failure (List TypeRef)
  bases : BaseChain

namespace Ancestry

/-- Looks above a reference within the limits of a profile. -/
def ofRef (src : σ) (p : Profile) (t : TypeRef) : Ancestry where
  type := t
  interfaces := (TypeSource.interfacesWithin src t.symbol p).map fun found =>
    found.map fun i => (t.instantiate i).normalized
  bases := BaseChain.above src p.maxDepth t

/-- The supertypes that were found. The interfaces are looked for first, so a failure there counts first. -/
def supertypes (a : Ancestry) : Except Failure (List TypeRef) :=
  match a.interfaces, a.bases.failure? with
  | .error e, _ => .error e
  | .ok _, some e => .error e
  | .ok interfaces, none => .ok (interfaces ++ a.bases.ancestors.map TypeRef.normalized)

/-- What there is to tell about the search. -/
def events (a : Ancestry) : List Event :=
  match a.interfaces, a.bases.failure? with
  | .error _, _ => []
  | .ok _, some _ => a.bases.ancestors.map .ancestorFound
  | .ok interfaces, none =>
    a.bases.ancestors.map .ancestorFound ++
      [.supertypesListed a.type interfaces.length a.bases.ancestors.length]

end Ancestry

/-- The supertypes of a reference within the limits of a profile. -/
def supertypesOf (src : σ) (t : TypeRef) (p : Profile := .supertypeClosure) : Except Failure (List TypeRef) :=
  (Ancestry.ofRef src p t).supertypes

/-- The open definition of a symbol, if it is declared. -/
def TypeSource.definition? (src : σ) (s : Symbol) : Option TypeRef :=
  (TypeSource.arity? src s).map (TypeRef.opened s)

/-- The supertypes of a declaration, read as its open definition. An unknown symbol has none. -/
def supertypes (src : σ) (s : Symbol) (p : Profile := .supertypeClosure) : Except Failure (List TypeRef) :=
  match TypeSource.definition? src s with
  | none => .ok []
  | some t => supertypesOf src t p

end Nominal
