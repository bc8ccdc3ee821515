import Nominal.Name.Pool

/-! A declaration is known by a dotted name, of which all but the last part is its namespace. -/

namespace Nominal

/-- The text before the last dot and the text after it; without a dot there is nothing before it. -/
def splitLastDot : List Char → Option (List Char × List Char)
  | [] => none
  | c :: rest =>
    match splitLastDot rest with
    | some (before, after) => some (c :: before, after)
    | none => if c = '.' then some ([], rest) else none

/-- A declaration's name within its namespace. The global namespace has the empty name. -/
structure FullName where
  space : Atom
  name : Atom
  deriving DecidableEq, Repr, Inhabited

namespace FullName

/-- Namespace and name of a dotted name, as texts. -/
def parts (dotted : String) : String × String :=
  match splitLastDot dotted.toList with
  | some (space, name) => (String.ofList space, String.ofList name)
  | none => ("", dotted)

/-- Reads a dotted name; the pool learns the namespace first and then the name. -/
def ofText (pool : NamePool) (dotted : String) : NamePool × FullName :=
  let (space, name) := parts dotted
  let (pool, space) := pool.intern space
  let (pool, name) := pool.intern name
  (pool, ⟨space, name⟩)

/-- The dotted form of a name. -/
def text (pool : NamePool) (full : FullName) : String :=
  if full.space.isEmpty then pool.text full.name
  else pool.text full.space ++ "." ++ pool.text full.name

end FullName

end Nominal
