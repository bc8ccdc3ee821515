import Nominal.Ancestry
import Nominal.Attempt
import Nominal.Expression.Parser
import Nominal.Table.Flatten
import Nominal.Universe.Basic

/-! The table of a universe. All types are declared first, so that they may refer to each other in any order. Then their
    bases and interfaces are read, and at last no type may turn out to be above itself. -/

namespace Nominal

namespace Universe

/-- The table so far, and what happened. -/
structure Build where
  table : Table
  events : Array Event

/-- A step of building a table. -/
abbrev BuildM : Type → Type := Attempt UniverseError Build

/-- The names of parameters have to be words, each used once. -/
def checkParams (owner : String) (seen : List String) : List String → Except UniverseError Unit
  | [] => .ok ()
  | p :: rest =>
    if !isWord p then .error (.badParam p owner)
    else if p ∈ seen then .error (.repeatedParam p owner)
    else checkParams owner (p :: seen) rest

/-- Checks what a declaration says about itself: its name, its namespace, its parameters and its kind, in this order. -/
def Entry.check (e : Entry) : Except UniverseError Unit :=
  let space := e.space?.getD ""
  if !isWord e.name then .error (.badName e.name)
  else if space ≠ "" ∧ ¬ isDottedWords space then .error (.badNamespace space e.name)
  else
    match checkParams e.fullName [] e.params with
    | .error err => .error err
    | .ok () =>
      if e.kind = .primitive ∧ e.params ≠ [] then .error (.genericPrimitive e.fullName) else .ok ()

namespace BuildM

/-- Tells of several events. -/
def tell (es : List Event) : BuildM Unit := Attempt.change fun b => { b with events := b.events ++ es }

/-- The table so far. -/
def table : BuildM Table := Attempt.view Build.table

/-- Declares a type. Its full name must be neither the root's nor one that was declared before. -/
def declare (seen : List String) (e : Entry) : BuildM Symbol := do
  Attempt.ofExcept e.check
  Attempt.require (e.fullName ≠ Table.rootName) (.redeclaredRoot e.fullName)
  Attempt.require (e.fullName ∉ seen) (.repeatedType e.fullName)
  let (t, s) := (← table).declare e.kind e.fullName e.params
  Attempt.change fun b => { b with table := t }
  tell (t.registration s ++ [.declared s e.fullName e.params.length])
  return s

/-- Declares all types, and pairs each with its symbol. -/
def declareAll (seen : List String) : List Entry → BuildM (List (Entry × Symbol))
  | [] => return []
  | e :: rest => do
    let s ← declare seen e
    return (e, s) :: (← declareAll (e.fullName :: seen) rest)

/-- Whether a symbol is an interface. -/
def isInterface (t : Table) (s : Symbol) : Bool :=
  match t.get? s with
  | some d => d.kind = .interface
  | none => false

/-- Reads the base of a type. -/
def resolveBase (e : Entry) (s : Symbol) : BuildM Unit :=
  match e.base? with
  | none => pure ()
  | some text => do
    Attempt.require (e.kind ≠ .interface) (.interfaceWithBase e.fullName text)
    let t ← table
    let base ← Attempt.ofExcept ((t.parse text (some s)).mapError (.badBase e.fullName))
    Attempt.require (!isInterface t base.symbol) (.interfaceAsBase e.fullName text)
    Attempt.change fun b => { b with table := b.table.setBase s (some base) }

/-- Reads an interface of a type. -/
def resolveInterface (e : Entry) (s : Symbol) (text : String) : BuildM Unit := do
  let t ← table
  let i ← Attempt.ofExcept ((t.parse text (some s)).mapError (.badInterface e.fullName))
  Attempt.require (isInterface t i.symbol) (.notInterface e.fullName text)
  Attempt.change fun b => { b with table := b.table.addInterface s i }

/-- Reads the base of a type and then its interfaces. -/
def resolve (e : Entry) (s : Symbol) : BuildM Unit := do
  resolveBase e s
  e.interfaces.forM (resolveInterface e s)

/-- Limits that a hierarchy without cycles keeps: it is never higher than the table is long. -/
def wholeTable (t : Table) : Profile := .custom (min (t.size + 1) Profile.ceiling) Profile.ceiling

/-- Checks that a type is not above itself, neither by its bases nor by its interfaces. -/
def checkInheritance (e : Entry) (s : Symbol) : BuildM Unit := do
  let t ← table
  match TypeSource.definition? t s with
  | none => pure ()
  | some ty =>
    let above := Ancestry.ofRef t (wholeTable t) ty
    tell above.events
    let _ ← Attempt.ofExcept (above.supertypes.mapError (.badInheritance e.fullName))
  Attempt.require (!(t.interfaces s).any (·.symbol = s)) (.interfaceLoop e.fullName)

/-- Declares all types, reads their bases and interfaces, and checks their inheritance. -/
def all (u : Universe) : BuildM Unit := do
  let declared ← declareAll [] u.types
  declared.forM fun (e, s) => resolve e s
  declared.forM fun (e, s) => checkInheritance e s
  tell [.universeLoaded declared.length]

end BuildM

/-- The start of every build: a table with the root. -/
def Build.start : Build :=
  ⟨.rooted, (.tableCreated :: (Table.rooted.root?.map Table.rooted.registration).getD []).toArray⟩

/-- The table of a universe, and what happened while it was built. -/
def build (u : Universe) : Logged (Except UniverseError Table) :=
  match BuildM.all u .start with
  | (.ok (), b) => ⟨.ok b.table, b.events.toList⟩
  | (.error e, b) => ⟨.error e, b.events.toList⟩

end Universe

end Nominal
