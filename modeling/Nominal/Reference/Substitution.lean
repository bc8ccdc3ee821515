import Nominal.Reference.Basic

/-! Substitution binds the parameters of one declaration. Parameters of other declarations stay as they are, and so
    does a parameter whose place lies beyond the arguments given. -/

namespace Nominal

namespace TypeArg

mutual

/-- Binds the parameters of `owner` in an argument to `values`. -/
def substitute (owner : Symbol) (values : List TypeArg) : TypeArg → TypeArg
  | .param p => if p.owner = owner then values[p.index]?.getD (.param p) else .param p
  | .type s as => .type s (substituteAll owner values as)

/-- Binds the parameters of `owner` in each of several arguments. -/
def substituteAll (owner : Symbol) (values : List TypeArg) : List TypeArg → List TypeArg
  | [] => []
  | a :: as => substitute owner values a :: substituteAll owner values as

end

end TypeArg

namespace TypeRef

/-- Binds the parameters of `owner` in a reference to `values`. -/
def substitute (t : TypeRef) (owner : Symbol) (values : List TypeArg) : TypeRef :=
  ⟨t.symbol, TypeArg.substituteAll owner values t.args⟩

/-- Reads a reference declared by `t`'s symbol with that symbol's parameters bound as `t` binds them. -/
def instantiate (t declared : TypeRef) : TypeRef := declared.substitute t.symbol t.args

end TypeRef

end Nominal
