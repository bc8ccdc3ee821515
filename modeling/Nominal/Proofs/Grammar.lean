import Nominal.Expression.Parser

/-! The grammar of type expressions. A tree says how an argument is written: as a bare name, as an open form, or as a
    name with arguments between brackets. No two trees are written with the same tokens. -/

namespace Nominal

namespace Expression

/-- The words of a dotted name, of which there is at least one. -/
structure Dotted where
  first : String
  more : List String
  deriving DecidableEq, Repr

namespace Dotted

/-- The tokens of further words, each behind a dot. -/
def restTokens : List String → List Token
  | [] => []
  | w :: ws => .dot :: .word w :: restTokens ws

/-- The text of further words, each behind a dot. -/
def restText : List String → String
  | [] => ""
  | w :: ws => "." ++ w ++ restText ws

def tokens (name : Dotted) : List Token := .word name.first :: restTokens name.more

def text (name : Dotted) : String := name.first ++ restText name.more

/-- The parameter in scope that a name of a single word means. -/
def param? (t : Table) (scope? : Option Symbol) (name : Dotted) : Option Param :=
  if name.more = [] then scope?.bind fun owner => t.paramNamed? owner name.first else none

end Dotted

/-- How an argument is written: a name; a name with nothing but commas between brackets; a name with arguments. -/
inductive Tree where
  | bare (name : Dotted)
  | opened (name : Dotted) (commas : Nat)
  | applied (name : Dotted) (first : Tree) (more : List Tree)

namespace Tree

mutual

/-- The tokens of a tree, from left to right. -/
def tokens : Tree → List Token
  | bare name => name.tokens
  | opened name commas => name.tokens ++ .less :: (List.replicate commas .comma ++ [.greater])
  | applied name first more => name.tokens ++ .less :: (tokens first ++ (restTokens more ++ [.greater]))

/-- The tokens of further arguments, each behind a comma. -/
def restTokens : List Tree → List Token
  | [] => []
  | tree :: trees => .comma :: (tokens tree ++ restTokens trees)

end

mutual

/-- How many lists of arguments are nested inside one another. -/
def nesting : Tree → Nat
  | bare _ => 0
  | opened _ _ => 0
  | applied _ first more => 1 + max (nesting first) (nestingAll more)

def nestingAll : List Tree → Nat
  | [] => 0
  | tree :: trees => max (nesting tree) (nestingAll trees)

end

variable (t : Table) (scope? : Option Symbol)

/-- The number of parameters of a symbol. -/
def arity (s : Symbol) : Nat := ((t.get? s).map (·.arity)).getD 0

mutual

/-- What a tree means in the scope of a declaration, if it means anything. A name is looked up unless it stands alone
    and is one of the parameters in scope; a declaration takes as many slots or arguments as it has parameters. -/
def meaning? : Tree → Option TypeArg
  | bare name =>
    match name.param? t scope? with
    | some p => some (.param p)
    | none => (t.lookup? name.text).bind fun s => if arity t s = 0 then some (.type s []) else none
  | opened name commas =>
    (t.lookup? name.text).bind fun s =>
      if arity t s = commas + 1 then some (TypeRef.opened s (commas + 1)).toArg else none
  | applied name first more =>
    (t.lookup? name.text).bind fun s => (meaning? first).bind fun a => (meanings? more).bind fun as =>
      if arity t s = (a :: as).length then some (.type s (a :: as)) else none

/-- What several trees mean. -/
def meanings? : List Tree → Option (List TypeArg)
  | [] => some []
  | tree :: trees => (meaning? tree).bind fun a => (meanings? trees).bind fun as => some (a :: as)

end

section Meanings

variable {t : Table} {scope? : Option Symbol} {tree : Tree} {trees : List Tree} {name : Dotted} {a : TypeArg}
  {as as' : List TypeArg}

theorem meanings?_cons :
    meanings? t scope? (tree :: trees) = some as' ↔
      ∃ a as, as' = a :: as ∧ meaning? t scope? tree = some a ∧ meanings? t scope? trees = some as := by
  simp only [meanings?, Option.bind_eq_some_iff, Option.some.injEq]
  constructor
  · rintro ⟨a, ha, as, has, rfl⟩
    exact ⟨a, as, rfl, ha, has⟩
  · rintro ⟨a, as, rfl, ha, has⟩
    exact ⟨a, ha, as, has, rfl⟩

theorem meanings?_eq_nil : meanings? t scope? trees = some [] ↔ trees = [] := by
  cases trees with
  | nil => simp [meanings?]
  | cons tree trees => simp [meanings?_cons]

theorem meanings?_eq_cons :
    meanings? t scope? trees = some (a :: as) ↔
      ∃ tree more, trees = tree :: more ∧ meaning? t scope? tree = some a ∧ meanings? t scope? more = some as := by
  cases trees with
  | nil => simp [meanings?]
  | cons tree trees =>
    rw [meanings?_cons]
    constructor
    · rintro ⟨a, as, heq, ha, has⟩
      cases heq
      exact ⟨tree, trees, rfl, ha, has⟩
    · rintro ⟨tree, more, heq, ha, has⟩
      cases heq
      exact ⟨a, as, rfl, ha, has⟩

theorem meaning?_opened {k : Nat} :
    meaning? t scope? (.opened name k) = some a ↔
      ∃ s, t.lookup? name.text = some s ∧ arity t s = k + 1 ∧ a = (TypeRef.opened s (k + 1)).toArg := by
  simp only [meaning?, Option.bind_eq_some_iff, Option.ite_none_right_eq_some, Option.some.injEq]
  constructor
  · rintro ⟨s, hs, harity, rfl⟩
    exact ⟨s, hs, harity, rfl⟩
  · rintro ⟨s, hs, harity, rfl⟩
    exact ⟨s, hs, harity, rfl⟩

theorem meaning?_applied :
    meaning? t scope? (.applied name tree trees) = some a ↔
      ∃ s as, t.lookup? name.text = some s ∧ meanings? t scope? (tree :: trees) = some as ∧ arity t s = as.length ∧
        a = .type s as := by
  simp only [meaning?, meanings?, Option.bind_eq_some_iff, Option.ite_none_right_eq_some, Option.some.injEq]
  constructor
  · rintro ⟨s, hs, a, ha, as, has, harity, rfl⟩
    exact ⟨s, a :: as, hs, ⟨a, ha, as, has, rfl⟩, harity, rfl⟩
  · rintro ⟨s, _, hs, ⟨a, ha, as, has, rfl⟩, harity, rfl⟩
    exact ⟨s, hs, a, ha, as, has, harity, rfl⟩

end Meanings

end Tree

/-! ### One tree for the tokens -/

namespace Dotted

theorem restTokens_inj {ws ws' : List String} {r r' : List Token} (h : restTokens ws ++ r = restTokens ws' ++ r')
    (hr : r.head? ≠ some .dot) (hr' : r'.head? ≠ some .dot) : ws = ws' ∧ r = r' := by
  induction ws generalizing ws' with
  | nil =>
    cases ws' with
    | nil => exact ⟨rfl, h⟩
    | cons w' ws' =>
      cases h
      exact absurd rfl hr
  | cons w ws ih =>
    cases ws' with
    | nil =>
      cases h
      exact absurd rfl hr'
    | cons w' ws' =>
      rw [restTokens, restTokens, List.cons_append, List.cons_append, List.cons_append, List.cons_append] at h
      injection h with _ h
      injection h with hw h
      obtain ⟨rfl, rfl⟩ := ih h
      cases hw
      exact ⟨rfl, rfl⟩

theorem tokens_inj {name name' : Dotted} {r r' : List Token} (h : name.tokens ++ r = name'.tokens ++ r')
    (hr : r.head? ≠ some .dot) (hr' : r'.head? ≠ some .dot) : name = name' ∧ r = r' := by
  obtain ⟨first, more⟩ := name
  obtain ⟨first', more'⟩ := name'
  injection h with hfirst h
  obtain ⟨rfl, rfl⟩ := restTokens_inj h hr hr'
  cases hfirst
  exact ⟨rfl, rfl⟩

end Dotted

namespace Tree

/-- What may follow an argument. -/
def Closing (r : List Token) : Prop := r.head? ≠ some .dot ∧ r.head? ≠ some .less

/-- The brackets of a tree, with what is between them. -/
def brackets : Tree → List Token
  | bare _ => []
  | opened _ commas => .less :: (List.replicate commas .comma ++ [.greater])
  | applied _ first more => .less :: (tokens first ++ (restTokens more ++ [.greater]))

def name : Tree → Dotted
  | bare name | opened name _ | applied name _ _ => name

theorem tokens_eq (tree : Tree) : tree.tokens = tree.name.tokens ++ tree.brackets := by
  cases tree <;> simp [tokens, Tree.name, brackets]

variable {tree tree' : Tree} {trees trees' : List Tree} {r r' : List Token}

theorem closing_restTokens : Closing (restTokens trees ++ .greater :: r) := by
  cases trees <;> exact ⟨nofun, nofun⟩

theorem slots_inj {k k' : Nat}
    (h : List.replicate k Token.comma ++ .greater :: r = List.replicate k' .comma ++ .greater :: r') :
    k = k' ∧ r = r' := by
  induction k generalizing k' with
  | zero =>
    cases k' with
    | zero => exact ⟨rfl, List.tail_eq_of_cons_eq h⟩
    | succ k' => cases h
  | succ k ih =>
    cases k' with
    | zero => cases h
    | succ k' =>
      obtain ⟨rfl, rfl⟩ := ih (List.tail_eq_of_cons_eq h)
      exact ⟨rfl, rfl⟩

/-- Arguments start with a word, and open forms do not. -/
theorem slots_ne_tokens {k : Nat} : List.replicate k Token.comma ++ .greater :: r ≠ tree.tokens ++ r' := by
  cases k <;> cases tree <;> nofun

/-- Equal names are taken off the front, so that the brackets are left to compare. -/
theorem brackets_of_tokens (h : tree.tokens ++ r = tree'.tokens ++ r') (hr : Closing r) (hr' : Closing r') :
    tree.name = tree'.name ∧ tree.brackets ++ r = tree'.brackets ++ r' := by
  rw [tokens_eq, tokens_eq, List.append_assoc, List.append_assoc] at h
  have hdot (tree : Tree) {r : List Token} (hr : Closing r) : (tree.brackets ++ r).head? ≠ some .dot := by
    cases tree with
    | bare name => exact hr.1
    | _ => nofun
  exact Dotted.tokens_inj h (hdot tree hr) (hdot tree' hr')

mutual

theorem tokens_inj (tree tree' : Tree) (r r' : List Token) (h : tree.tokens ++ r = tree'.tokens ++ r') (hr : Closing r)
    (hr' : Closing r') : tree = tree' ∧ r = r' := by
  obtain ⟨hname, hbrackets⟩ := brackets_of_tokens h hr hr'
  match tree, tree' with
  | bare name, bare name' =>
    cases hname
    exact ⟨rfl, hbrackets⟩
  | bare name, opened name' k' | bare name, applied name' first' more' =>
    rw [show r = _ from hbrackets] at hr
    exact absurd rfl hr.2
  | opened name k, bare name' | applied name first more, bare name' =>
    rw [show r' = _ from hbrackets.symm] at hr'
    exact absurd rfl hr'.2
  | opened name k, opened name' k' =>
    cases hname
    simp only [brackets, List.cons_append, List.append_assoc, List.nil_append] at hbrackets
    obtain ⟨rfl, rfl⟩ := slots_inj (List.tail_eq_of_cons_eq hbrackets)
    exact ⟨rfl, rfl⟩
  | opened name k, applied name' first' more' =>
    simp only [brackets, List.cons_append, List.append_assoc, List.nil_append] at hbrackets
    exact absurd (List.tail_eq_of_cons_eq hbrackets) slots_ne_tokens
  | applied name first more, opened name' k' =>
    simp only [brackets, List.cons_append, List.append_assoc, List.nil_append] at hbrackets
    exact absurd (List.tail_eq_of_cons_eq hbrackets.symm) slots_ne_tokens
  | applied name first more, applied name' first' more' =>
    cases hname
    simp only [brackets, List.cons_append, List.append_assoc, List.nil_append] at hbrackets
    obtain ⟨rfl, hmore⟩ :=
      tokens_inj first first' _ _ (List.tail_eq_of_cons_eq hbrackets) closing_restTokens closing_restTokens
    obtain ⟨rfl, rfl⟩ := restTokens_inj more more' _ _ hmore
    exact ⟨rfl, rfl⟩

theorem restTokens_inj (trees trees' : List Tree) (r r' : List Token)
    (h : restTokens trees ++ .greater :: r = restTokens trees' ++ .greater :: r') : trees = trees' ∧ r = r' := by
  match trees, trees' with
  | [], [] => exact ⟨rfl, List.tail_eq_of_cons_eq h⟩
  | [], tree' :: trees' => cases h
  | tree :: trees, [] => cases h
  | tree :: trees, tree' :: trees' =>
    simp only [restTokens, List.cons_append, List.append_assoc] at h
    obtain ⟨rfl, hrest⟩ := tokens_inj tree tree' _ _ (List.tail_eq_of_cons_eq h) closing_restTokens closing_restTokens
    obtain ⟨rfl, rfl⟩ := restTokens_inj trees trees' _ _ hrest
    exact ⟨rfl, rfl⟩

end

end Tree
end Expression

end Nominal
