import Nominal.Reference.Text
import Nominal.Table.Basic

/-! References as people write them, with the declared names of symbols and parameters. -/

namespace Nominal

namespace Table

/-- The bare name of a symbol, or a remark that the table does not know it. -/
def baseName (t : Table) (s : Symbol) : String :=
  (t.nameOf? s).getD ("<unknown " ++ s.text ++ ">")

/-- The name of a symbol behind its namespace. -/
def fullName (t : Table) (s : Symbol) : String :=
  match t.spaceOf? s with
  | some space => if space = "" then t.baseName s else space ++ "." ++ t.baseName s
  | none => t.baseName s

/-- Declared names, with or without namespaces; an unknown parameter is called by its numbers. -/
def naming (t : Table) (qualified : Bool) : Naming where
  symbol s := if qualified then t.fullName s else t.baseName s
  param p := (t.paramName? p).getD p.text

/-- A reference in declared names. -/
def format (t : Table) (qualified : Bool) (ty : TypeRef) : String := ty.render (t.naming qualified)

end Table

end Nominal
