import Nominal.Name.FullName
import Nominal.Reference.Basic

/-! A table holds declarations and numbers them from one in the order in which they come. It finds them again by full
    name, where the latest declaration counts, and by bare name, where the first one does. -/

namespace Nominal

/-- What is declared. -/
inductive Kind where
  | cls
  | interface
  | struct
  | primitive
  deriving DecidableEq, Repr, Inhabited

/-- What a declaration says: its kind and name, the names of its parameters, what it extends and what it implements
    directly, both written with its own parameters, and whether it is the root. -/
structure Declaration where
  kind : Kind
  name : FullName
  params : List Atom
  base? : Option TypeRef := none
  interfaces : List TypeRef := []
  isRoot : Bool := false
  deriving Repr, Inhabited

/-- How many parameters a declaration has. -/
def Declaration.arity (d : Declaration) : Nat := d.params.length

/-- Declarations in order, the names they use, and the two ways to find a declaration by name. -/
structure Table where
  names : NamePool
  declarations : Array Declaration := #[]
  byFullName : Std.HashMap Atom Symbol := ∅
  byName : Std.HashMap Atom Symbol := ∅
  root? : Option Symbol := none

namespace Table

/-- The table without declarations. -/
def empty : Table := { names := .common }

instance : Inhabited Table := ⟨empty⟩

/-- The symbol that the next declaration gets. -/
def nextSymbol (t : Table) : Symbol := ⟨t.declarations.size + 1⟩

/-- Adds a declaration. -/
def register (t : Table) (d : Declaration) : Table × Symbol :=
  let symbol := t.nextSymbol
  let (names, full) := t.names.intern (d.name.text t.names)
  ({ t with
      names
      declarations := t.declarations.push d
      byFullName := t.byFullName.insert full symbol
      byName := t.byName.insertIfNew d.name.name symbol },
   symbol)

/-- The name of the root. -/
def rootName : String := "System.Object"

/-- The table whose only declaration is the root. -/
def rooted : Table :=
  let (names, name) := FullName.ofText empty.names rootName
  let (t, root) := { empty with names }.register { kind := .cls, name, params := [], isRoot := true }
  { t with root? := some root }

/-- Declares `dotted` with parameters of the given names. A class extends the root, if there is one. -/
def declare (t : Table) (kind : Kind) (dotted : String) (params : List String) : Table × Symbol :=
  let (names, name) := FullName.ofText t.names dotted
  let (names, params) := names.internAll params
  let base? := if kind = .cls then t.root?.map (⟨·, []⟩) else none
  { t with names }.register { kind, name, params, base? }

/-- The declaration of a symbol. -/
def get? (t : Table) (s : Symbol) : Option Declaration :=
  if s.isValid then t.declarations[s.id - 1]? else none

/-- Whether a symbol is declared. -/
def contains (t : Table) (s : Symbol) : Bool := (t.get? s).isSome

/-- The number of declarations. -/
def size (t : Table) : Nat := t.declarations.size

/-- The declared symbols in order. -/
def symbols (t : Table) : List Symbol := (List.range t.size).map fun i => ⟨i + 1⟩

/-- Finds a declaration by its full name or else by its bare name. -/
def lookup? (t : Table) (name : String) : Option Symbol :=
  (t.names.get? name).bind fun a => t.byFullName[a]? <|> t.byName[a]?

/-- Changes the declaration of a symbol, if there is one. -/
def update (t : Table) (s : Symbol) (f : Declaration → Declaration) : Table :=
  if s.isValid then { t with declarations := t.declarations.modify (s.id - 1) f } else t

/-- Sets what a symbol extends. -/
def setBase (t : Table) (s : Symbol) (base? : Option TypeRef) : Table :=
  t.update s fun d => { d with base? }

/-- Adds to what a symbol implements directly. -/
def addInterface (t : Table) (s : Symbol) (i : TypeRef) : Table :=
  t.update s fun d => { d with interfaces := d.interfaces ++ [i] }

/-- The parameter of a symbol at a place. -/
def param? (t : Table) (owner : Symbol) (index : Nat) : Option Param :=
  (t.get? owner).bind fun d => if index < d.arity then some ⟨owner, index⟩ else none

/-- The first parameter of a symbol with a name. -/
def paramNamed? (t : Table) (owner : Symbol) (name : String) : Option Param := do
  let a ← t.names.get? name
  let d ← t.get? owner
  let index ← d.params.idxOf? a
  return ⟨owner, index⟩

/-- The bare name of a symbol. -/
def nameOf? (t : Table) (s : Symbol) : Option String :=
  (t.get? s).map fun d => t.names.text d.name.name

/-- The namespace of a symbol. -/
def spaceOf? (t : Table) (s : Symbol) : Option String :=
  (t.get? s).map fun d => t.names.text d.name.space

/-- The declared name of a parameter. -/
def paramName? (t : Table) (p : Param) : Option String := do
  let d ← t.get? p.owner
  let a ← d.params[p.index]?
  return t.names.text a

end Table

end Nominal
