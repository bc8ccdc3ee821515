import Nominal.Expression.Token
import Nominal.Reader
import Nominal.Table.Basic

/-! Type expressions: a dotted name, followed by its arguments between angle brackets. An open definition is written
    with nothing but commas between the brackets. Within the scope of a declaration, a bare name that is one of its
    parameters means that parameter. -/

namespace Nominal

namespace Expression

/-- Where an expression is read: the declarations, the one whose parameters are in scope, and the column after the
    text. -/
structure Context where
  table : Table
  scope? : Option Symbol
  lastColumn : Nat

/-- How many levels of argument lists may be nested. -/
def maxNesting : Nat := 128

/-- A reader of the tokens of a type expression. -/
abbrev Reading (α : Type) : Type := Reader Placed ExpressionError α

namespace Context

variable (ctx : Context)

/-- The token a list starts with, and its column, or the column after the text. -/
def next (ts : List Placed) : Option Token × Nat :=
  match ts with
  | [] => (none, ctx.lastColumn)
  | t :: _ => (some t.token, t.column)

/-- Reports that a name is missing. -/
def nameExpected {α : Type} (ts : List Placed) : Except ExpressionError α :=
  .error (.nameExpected (ctx.next ts).1 (ctx.next ts).2)

/-- Reads the parts of a dotted name after the first. -/
def dottedRest : (ts : List Placed) →
    Except ExpressionError (String × NotLonger ts)
  | ⟨.dot, _⟩ :: ⟨.word w, _⟩ :: ts => do
    let (more, ⟨rest, h⟩) ← dottedRest ts
    return ("." ++ w ++ more, ⟨rest, by simp; omega⟩)
  | ⟨.dot, _⟩ :: ts => ctx.nameExpected ts
  | ts => .ok ("", ⟨ts, Nat.le_refl _⟩)

/-- Reads a dotted name and the column where it starts. -/
def name : Reading (String × Nat)
  | ⟨.word w, column⟩ :: ts => do
    let (more, ⟨rest, h⟩) ← ctx.dottedRest ts
    return ((w ++ more, column), ⟨rest, by simp; omega⟩)
  | ts => ctx.nameExpected ts

/-- Reads one sign that has to come next. -/
def expect (sign : Token) : Reading Unit
  | [] => .error (.tokenExpected sign none ctx.lastColumn)
  | t :: ts =>
    if t.token = sign then .ok ((), ⟨ts, by simp⟩)
    else .error (.tokenExpected sign (some t.token) t.column)

/-- Counts the commas at the beginning. -/
def commas : (ts : List Placed) → Nat × NotLonger ts
  | ⟨.comma, _⟩ :: ts =>
    let (n, ⟨rest, h⟩) := commas ts
    (n + 1, ⟨rest, by simp; omega⟩)
  | ts => (0, ⟨ts, Nat.le_refl _⟩)

/-- Reads further arguments, each behind a comma. -/
def argumentsRest (argument : Reading TypeArg) (ts : List Placed) :
    Except ExpressionError (List TypeArg × NotLonger ts) :=
  match ts with
  | ⟨.comma, _⟩ :: ts => do
    let (a, ⟨ts', h⟩) ← argument ts
    let (as, ⟨rest, h'⟩) ← argumentsRest argument ts'
    return (a :: as, ⟨rest, by simp; omega⟩)
  | ts => .ok ([], ⟨ts, Nat.le_refl _⟩)
  termination_by ts.length

/-- Reads arguments up to the closing bracket. -/
def arguments (argument : Reading TypeArg) : Reading (List TypeArg) := fun ts => do
  let (a, ⟨ts', h⟩) ← argument ts
  let (as, ⟨ts'', h'⟩) ← argumentsRest argument ts'
  let ((), ⟨rest, h''⟩) ← ctx.expect .greater ts''
  return (a :: as, ⟨rest, by omega⟩)

/-- The parameter in scope that a name means. -/
def param? (name : String) : Option Param :=
  if '.' ∈ name.toList then none else ctx.scope?.bind fun owner => ctx.table.paramNamed? owner name

/-- The declaration that a name means, and how many parameters it has. -/
def resolve (name : String) (column : Nat) : Except ExpressionError (Symbol × Nat) :=
  match ctx.table.lookup? name with
  | some s => .ok (s, ((ctx.table.get? s).map (·.arity)).getD 0)
  | none => .error (.unknownType name column)

/-- What a name means that stands without brackets. -/
def bare (name : String) (column : Nat) : Except ExpressionError TypeArg :=
  match ctx.param? name with
  | some p => .ok (.param p)
  | none => do
    let (s, arity) ← ctx.resolve name column
    if arity > 0 then .error (.argumentsMissing name arity) else .ok (.type s [])

/-- Reads the commas of an open form up to the closing bracket. -/
def openForm (name : String) (column : Nat) (s : Symbol) (arity : Nat) : Reading TypeArg := fun ts => do
  let (n, ⟨ts', h⟩) := commas ts
  let ((), ⟨rest, h'⟩) ← ctx.expect .greater ts'
  if n + 1 = arity then return ((TypeRef.opened s arity).toArg, ⟨rest, by omega⟩)
  else .error (.openFormSize name arity column (n + 1))

/-- Reads what follows an opening bracket: the rest of an open form, or arguments. -/
def bracketed (arguments : Nat → Reading (List TypeArg)) (name : String) (column : Nat) :
    Reading TypeArg := fun ts => do
  let (s, arity) ← ctx.resolve name column
  match (ctx.next ts).1 with
  | some .greater | some .comma => ctx.openForm name column s arity ts
  | _ =>
    let (as, rest) ← arguments column ts
    if as.length = arity then return (.type s as, rest)
    else .error (.argumentCount name arity as.length column)

/-- Reads an argument; `arguments` reads the list that a bracket at a column opens. -/
def argumentWith (arguments : Nat → Reading (List TypeArg)) : Reading TypeArg := fun ts => do
  let ((name, column), rest) ← ctx.name ts
  match rest with
  | ⟨⟨.less, _⟩ :: ts', h⟩ =>
    let (a, ⟨rest, h'⟩) ← ctx.bracketed arguments name column ts'
    return (a, ⟨rest, by simp at h; omega⟩)
  | rest =>
    let a ← ctx.bare name column
    return (a, rest)

/-- Reads an argument, in which so many levels of argument lists may still be nested. -/
def argument : Nat → Reading TypeArg
  | 0 => ctx.argumentWith fun column _ => .error (.nestedTooDeep column maxNesting)
  | room + 1 => ctx.argumentWith fun _ => ctx.arguments (argument room)

end Context

end Expression

/-- Reads a type expression. Parameters of `scope?` may occur in it by name, though not stand for the whole. -/
def Table.parse (t : Table) (text : String) (scope? : Option Symbol := none) : Except ExpressionError TypeRef := do
  let tokens ← Expression.tokenize 1 text.toList
  let ctx : Expression.Context := ⟨t, scope?, text.utf8ByteSize + 1⟩
  let (a, ⟨rest, _⟩) ← ctx.argument Expression.maxNesting tokens
  match a with
  | .param _ => .error (.parameterAlone text)
  | .type s as =>
    match rest with
    | [] => return ⟨s, as⟩
    | t :: _ => .error (.trailing t.token t.column)

end Nominal
