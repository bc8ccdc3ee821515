/-! Type references. A reference applies a declared symbol to arguments, and an argument is either a parameter
    that nothing is bound to yet or another reference. A reference whose arguments are exactly the parameters of
    its own declaration, each in its place, is that declaration's open definition. -/

namespace Nominal

/-- The number of a declaration. Declarations count from one, and zero belongs to none. -/
structure Symbol where
  id : Nat
  deriving DecidableEq, Hashable, Repr, Inhabited

/-- Whether a declaration can have this number. -/
def Symbol.isValid (s : Symbol) : Bool := s.id != 0

/-- An unbound parameter: the declaration that owns it and its place among that declaration's parameters. -/
structure Param where
  owner : Symbol
  index : Nat
  deriving DecidableEq, Hashable, Repr, Inhabited

/-- An argument of a reference: an unbound parameter, or a symbol with arguments of its own. -/
inductive TypeArg where
  | param (param : Param)
  | type (symbol : Symbol) (args : List TypeArg)
  deriving Repr, Inhabited

namespace TypeArg

mutual

/-- Equality of arguments is decided along their structure. -/
def decEq : (a b : TypeArg) → Decidable (a = b)
  | .param p, .param q =>
    if h : p = q then isTrue (h ▸ rfl) else isFalse fun e => h (param.inj e)
  | .param _, .type _ _ => isFalse nofun
  | .type _ _, .param _ => isFalse nofun
  | .type s as, .type t bs =>
    if h : s = t then
      match decEqAll as bs with
      | isTrue h' => isTrue (h ▸ h' ▸ rfl)
      | isFalse h' => isFalse fun e => h' (type.inj e).2
    else isFalse fun e => h (type.inj e).1

/-- Equality of argument lists, from left to right. -/
def decEqAll : (as bs : List TypeArg) → Decidable (as = bs)
  | [], [] => isTrue rfl
  | [], _ :: _ => isFalse nofun
  | _ :: _, [] => isFalse nofun
  | a :: as, b :: bs =>
    match decEq a b with
    | isFalse h => isFalse fun e => h (List.cons.inj e).1
    | isTrue h =>
      match decEqAll as bs with
      | isTrue h' => isTrue (h ▸ h' ▸ rfl)
      | isFalse h' => isFalse fun e => h' (List.cons.inj e).2

end

instance : DecidableEq TypeArg := decEq

mutual

/-- A hash of an argument's whole structure. -/
def hashCode : TypeArg → UInt64
  | .param p => mixHash 3 (hash p)
  | .type s as => mixHash (hash s) (hashAll as)

/-- A hash of a list of arguments. -/
def hashAll : List TypeArg → UInt64
  | [] => 7
  | a :: as => mixHash (hashCode a) (hashAll as)

end

instance : Hashable TypeArg := ⟨hashCode⟩

/-- Whether the argument is an unbound parameter. -/
def isParam : TypeArg → Bool
  | .param _ => true
  | .type _ _ => false

/-- The parameter an argument is, if it is one. -/
def asParam? : TypeArg → Option Param
  | .param p => some p
  | .type _ _ => none

mutual

/-- Whether an unbound parameter occurs in the argument, at any depth. -/
def mentionsParam : TypeArg → Bool
  | .param _ => true
  | .type _ as => anyMentionsParam as

/-- Whether an unbound parameter occurs in one of the arguments. -/
def anyMentionsParam : List TypeArg → Bool
  | [] => false
  | a :: as => mentionsParam a || anyMentionsParam as

end

end TypeArg

/-- A symbol applied to arguments. -/
structure TypeRef where
  symbol : Symbol
  args : List TypeArg
  deriving DecidableEq, Repr, Inhabited

namespace TypeRef

instance : Hashable TypeRef := ⟨fun t => mixHash (hash t.symbol) (TypeArg.hashAll t.args)⟩

/-- The reference as an argument of another one. -/
def toArg (t : TypeRef) : TypeArg := .type t.symbol t.args

instance : Coe TypeRef TypeArg := ⟨toArg⟩

/-- How many arguments the reference has. -/
def arity (t : TypeRef) : Nat := t.args.length

/-- Whether the reference has arguments at all. -/
def isGeneric (t : TypeRef) : Bool := !t.args.isEmpty

/-- The parameters of a declaration with `arity` of them, in order. -/
def openArgs (symbol : Symbol) (arity : Nat) : List TypeArg :=
  (List.range arity).map fun i => .param ⟨symbol, i⟩

/-- The open definition of a declaration: the symbol applied to its own parameters. -/
def opened (symbol : Symbol) (arity : Nat) : TypeRef := ⟨symbol, openArgs symbol arity⟩

/-- The open definition of the reference's symbol, with as many parameters as the reference has arguments. -/
def definition (t : TypeRef) : TypeRef := opened t.symbol t.arity

/-- Whether the reference is the open definition of its symbol. A reference without arguments always is. -/
def IsOpen (t : TypeRef) : Prop := t.args = openArgs t.symbol t.arity

instance (t : TypeRef) : Decidable t.IsOpen := inferInstanceAs (Decidable (_ = _))

/-- Whether nothing of the declaration is left open; a reference without arguments counts as closed. -/
def isClosed (t : TypeRef) : Bool := !t.isGeneric || !decide t.IsOpen

/-- Whether the reference has arguments and all of them are unbound parameters, of whatever owner. -/
def hasOnlyParams (t : TypeRef) : Bool := t.isGeneric && t.args.all TypeArg.isParam

/-- Whether an unbound parameter occurs in the reference, at any depth. -/
def mentionsParam (t : TypeRef) : Bool := TypeArg.anyMentionsParam t.args

/-- The normal form of a supertype: one applied to parameters only stands for its open definition. -/
def normalized (t : TypeRef) : TypeRef := if t.hasOnlyParams then t.definition else t

end TypeRef

/-- The reference an argument is, if it is one. -/
def TypeArg.asType? : TypeArg → Option TypeRef
  | .param _ => none
  | .type s as => some ⟨s, as⟩

end Nominal
