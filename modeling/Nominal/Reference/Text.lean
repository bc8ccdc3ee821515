import Nominal.Reference.Basic

/-! The text of a reference: the name of its symbol, followed by its arguments between angle brackets, if it has
    any. How symbols and parameters are called is left to a naming. By number, a symbol reads as #3 and a
    parameter as #3!0. -/

namespace Nominal

/-- What symbols and unbound parameters are called. -/
structure Naming where
  symbol : Symbol → String
  param : Param → String

namespace TypeArg

mutual

/-- The text of an argument. -/
def render (names : Naming) : TypeArg → String
  | .param p => names.param p
  | .type s [] => names.symbol s
  | .type s (a :: as) => names.symbol s ++ "<" ++ (render names a ++ renderRest names as) ++ ">"

/-- The texts of the arguments after the first, each behind a comma. -/
def renderRest (names : Naming) : List TypeArg → String
  | [] => ""
  | a :: as => ", " ++ render names a ++ renderRest names as

end

/-- The texts of several arguments, separated by commas. -/
def renderAll (names : Naming) : List TypeArg → String
  | [] => ""
  | a :: as => render names a ++ renderRest names as

end TypeArg

/-- The text of a reference. -/
def TypeRef.render (names : Naming) (t : TypeRef) : String := t.toArg.render names

/-- The number of a symbol behind a hash sign. -/
def Symbol.text (s : Symbol) : String := "#" ++ toString s.id

/-- The owner of a parameter and the parameter's place, divided by an exclamation mark. -/
def Param.text (p : Param) : String := p.owner.text ++ "!" ++ toString p.index

/-- Symbols and parameters called by their numbers. -/
def Naming.byNumber : Naming := ⟨Symbol.text, Param.text⟩

/-- The text of an argument by numbers. -/
def TypeArg.text (a : TypeArg) : String := a.render Naming.byNumber

/-- The text of a reference by numbers. -/
def TypeRef.text (t : TypeRef) : String := t.render Naming.byNumber

end Nominal
