import Nominal.Proofs.Parsing
import Nominal.Proofs.References
import Nominal.Reference.Text

/-! Written references are read back. The text of a reference is split into the tokens of a tree that follows the
    reference, and if every name in it leads where it came from, the tree means the reference. -/

namespace Nominal

/-! ### Parts between dots -/

theorem exists_dotParts (cs : List Char) :
    ∃ part parts, dotParts cs = part :: parts ∧ part ++ parts.flatMap ('.' :: ·) = cs := by
  induction cs with
  | nil => exact ⟨[], [], rfl, rfl⟩
  | cons c cs ih =>
    obtain ⟨part, parts, hparts, hjoin⟩ := ih
    rw [dotParts, hparts]
    by_cases hc : c = '.'
    · subst hc
      refine ⟨[], part :: parts, rfl, ?_⟩
      simp [hjoin]
    · refine ⟨c :: part, parts, by simp [hc], ?_⟩
      simp [hjoin]

theorem dotParts_append (before after : List Char) :
    dotParts (before ++ '.' :: after) = dotParts before ++ dotParts after := by
  induction before with
  | nil => rfl
  | cons c before ih =>
    obtain ⟨part, parts, hparts, -⟩ := exists_dotParts before
    rw [List.cons_append, dotParts, dotParts, ih, hparts]
    split <;> rfl

theorem not_mem_of_mem_dotParts {cs part : List Char} (h : part ∈ dotParts cs) : '.' ∉ part := by
  induction cs generalizing part with
  | nil => simp_all [dotParts]
  | cons c cs ih =>
    obtain ⟨first, parts, hparts, -⟩ := exists_dotParts cs
    rw [hparts] at ih
    rw [dotParts, hparts] at h
    split at h
    · rcases List.mem_cons.mp h with rfl | h
      · simp
      · exact ih h
    · rcases List.mem_cons.mp h with rfl | h
      · have hfirst := ih List.mem_cons_self
        simp_all [eq_comm]
      · exact ih (List.mem_cons_of_mem _ h)

theorem dotParts_of_not_mem {cs : List Char} (h : '.' ∉ cs) : dotParts cs = [cs] := by
  induction cs with
  | nil => rfl
  | cons c cs ih =>
    rw [List.mem_cons, not_or] at h
    rw [dotParts, if_neg (Ne.symm h.1), ih h.2]

namespace Expression

/-! ### Dotted names -/

namespace Dotted

/-- The words between the dots of a text. -/
def ofText (text : String) : Dotted :=
  ⟨String.ofList ((dotParts text.toList).headD []), (dotParts text.toList).tail.map String.ofList⟩

theorem toList_restText (parts : List (List Char)) :
    (restText (parts.map String.ofList)).toList = parts.flatMap ('.' :: ·) := by
  induction parts with
  | nil => rfl
  | cons part parts ih => simp [restText, ih]

theorem text_ofText (text : String) : (ofText text).text = text := by
  obtain ⟨part, parts, hparts, hjoin⟩ := exists_dotParts text.toList
  have hlist : (ofText text).text.toList = text.toList := by
    simp only [Dotted.text, ofText, hparts, String.toList_append, List.tail_cons, toList_restText]
    simpa using hjoin
  exact String.toList_injective hlist

theorem first_ofText {text : String} (h : (ofText text).more = []) : (ofText text).first = text := by
  have htext := text_ofText text
  rw [Dotted.text, h, restText, String.append_empty] at htext
  exact htext

theorem not_mem_first_ofText (text : String) : '.' ∉ (ofText text).first.toList := by
  obtain ⟨part, parts, hparts, -⟩ := exists_dotParts text.toList
  have hpart : '.' ∉ part := not_mem_of_mem_dotParts (hparts ▸ List.mem_cons_self)
  simpa [ofText, hparts] using hpart

theorem ofText_of_isWord {w : String} (h : isWord w = true) : ofText w = ⟨w, []⟩ := by
  simp [ofText, dotParts_of_not_mem (not_mem_of_isWord h)]

/-- All words of a name are words. -/
def Proper (name : Dotted) : Prop := isWord name.first = true ∧ ∀ w ∈ name.more, isWord w = true

theorem proper_ofText {text : String} (h : isDottedWords text = true) : (ofText text).Proper := by
  obtain ⟨part, parts, hparts, -⟩ := exists_dotParts text.toList
  rw [isDottedWords, hparts, List.all_cons, Bool.and_eq_true, List.all_eq_true] at h
  refine ⟨?_, fun w hw => ?_⟩
  · simpa [ofText, hparts, isWord] using h.1
  · simp only [ofText, hparts, List.tail_cons, List.mem_map] at hw
    obtain ⟨part, hpart, rfl⟩ := hw
    simpa [isWord] using h.2 part hpart

end Dotted

section Names

variable {cs : List Char} {tokens : List Token}

theorem Spells.dottedRest {ws : List String} (h : Spells cs tokens) (hws : ∀ w ∈ ws, isWord w = true) (hcs : Stops cs) :
    Spells ((Dotted.restText ws).toList ++ cs) (Dotted.restTokens ws ++ tokens) ∧
      Stops ((Dotted.restText ws).toList ++ cs) := by
  induction ws with
  | nil => exact ⟨h, hcs⟩
  | cons w ws ih =>
    rw [List.forall_mem_cons] at hws
    obtain ⟨hrest, hstops⟩ := ih hws.2
    have hword : Spells _ (.word w :: _) := hrest.word hws.1 hstops
    have hdot : Spells _ (.dot :: _) := hword.sign (c := '.') rfl
    have htext : (Dotted.restText (w :: ws)).toList ++ cs =
      '.' :: (w.toList ++ ((Dotted.restText ws).toList ++ cs)) := by
      simp [Dotted.restText]
    rw [htext]
    exact ⟨hdot, stops_of_sign rfl⟩

theorem Spells.dotted {name : Dotted} (h : Spells cs tokens) (hname : name.Proper) (hcs : Stops cs) :
    Spells (name.text.toList ++ cs) (name.tokens ++ tokens) := by
  obtain ⟨hrest, hstops⟩ := h.dottedRest hname.2 hcs
  rw [Dotted.text, String.toList_append, List.append_assoc]
  exact hrest.word hname.1 hstops

end Names

/-! ### Arguments -/

namespace Tree

mutual

/-- The tree of an argument as it is written. -/
def ofArg (names : Naming) : TypeArg → Tree
  | .param p => bare (.ofText (names.param p))
  | .type s [] => bare (.ofText (names.symbol s))
  | .type s (a :: as) => applied (.ofText (names.symbol s)) (ofArg names a) (ofArgs names as)

def ofArgs (names : Naming) : List TypeArg → List Tree
  | [] => []
  | a :: as => ofArg names a :: ofArgs names as

end

end Tree

/-- The names in an argument lead back to where they come from: a parameter is found in scope, and a symbol is found by
    a name that no parameter in scope has, if the name stands alone. -/
inductive Legible (names : Naming) (t : Table) (scope? : Option Symbol) : TypeArg → Prop
  | param {p : Param} (word : isWord (names.param p) = true)
      (found : (scope?.bind fun owner => t.paramNamed? owner (names.param p)) = some p) :
        Legible names t scope? (.param p)
  | type {s : Symbol} {as : List TypeArg} (dotted : isDottedWords (names.symbol s) = true)
      (found : t.lookup? (names.symbol s) = some s) (arity : Tree.arity t s = as.length)
      (clear : as = [] → (Dotted.ofText (names.symbol s)).param? t scope? = none)
      (args : ∀ a ∈ as, Legible names t scope? a) : Legible names t scope? (.type s as)

section Arguments

variable {names : Naming} {t : Table} {scope? : Option Symbol} {a : TypeArg} {as : List TypeArg}

/-- The text of the argument, in front of anything that ends a word, is split into the tokens of its tree. -/
def SpellsArg (names : Naming) (a : TypeArg) : Prop :=
  ∀ ⦃cs tokens⦄, Spells cs tokens → Stops cs →
    Spells ((a.render names).toList ++ cs) ((Tree.ofArg names a).tokens ++ tokens)

theorem spells_renderRest (has : ∀ a ∈ as, SpellsArg names a) {cs : List Char} {tokens : List Token}
    (h : Spells cs tokens) (hcs : Stops cs) :
    Spells ((TypeArg.renderRest names as).toList ++ cs) (Tree.restTokens (Tree.ofArgs names as) ++ tokens) ∧
      Stops ((TypeArg.renderRest names as).toList ++ cs) := by
  induction as with
  | nil => exact ⟨h, hcs⟩
  | cons a as ih =>
    rw [List.forall_mem_cons] at has
    obtain ⟨hrest, hstops⟩ := ih has.2
    have harg := has.1 hrest hstops
    have hcomma : Spells _ (.comma :: _) := (harg.blank (c := ' ') (by decide)).sign (c := ',') rfl
    have htext : (TypeArg.renderRest names (a :: as)).toList ++ cs =
        ',' :: ' ' :: ((a.render names).toList ++ ((TypeArg.renderRest names as).toList ++ cs)) := by
      simp [TypeArg.renderRest]
    rw [htext, Tree.ofArgs, Tree.restTokens, List.cons_append, List.append_assoc]
    exact ⟨hcomma, stops_of_sign rfl⟩

theorem Legible.spells (h : Legible names t scope? a) : SpellsArg names a := by
  induction h with
  | @param p word found =>
    intro cs tokens hrest hcs
    have hproper : Dotted.Proper ⟨names.param p, []⟩ := ⟨word, nofun⟩
    have hname := hrest.dotted hproper hcs
    simpa [TypeArg.render, Tree.ofArg, Tree.tokens, Dotted.ofText_of_isWord word, Dotted.text, Dotted.restText]
      using hname
  | @type s as dotted found arity clear args ih =>
    intro cs tokens hrest hcs
    have hproper := Dotted.proper_ofText dotted
    cases as with
    | nil =>
      have hname := hrest.dotted hproper hcs
      rw [Dotted.text_ofText] at hname
      exact hname
    | cons a as =>
      rw [List.forall_mem_cons] at ih
      have hclose : Spells _ (.greater :: _) := hrest.sign (c := '>') rfl
      obtain ⟨hargs, hstops⟩ := spells_renderRest ih.2 hclose (stops_of_sign rfl)
      have hopen : Spells _ (.less :: _) := (ih.1 hargs hstops).sign (c := '<') rfl
      have hname := hopen.dotted hproper (stops_of_sign rfl)
      rw [Dotted.text_ofText] at hname
      simpa [TypeArg.render, Tree.ofArg, Tree.tokens] using hname

theorem meanings?_ofArgs (h : ∀ a ∈ as, Tree.meaning? t scope? (Tree.ofArg names a) = some a) :
    Tree.meanings? t scope? (Tree.ofArgs names as) = some as := by
  induction as with
  | nil => rfl
  | cons a as ih =>
    rw [List.forall_mem_cons] at h
    exact Tree.meanings?_cons.mpr ⟨a, as, rfl, h.1, ih h.2⟩

theorem Legible.meaning? (h : Legible names t scope? a) : Tree.meaning? t scope? (Tree.ofArg names a) = some a := by
  induction h with
  | param word found => simp [Tree.ofArg, Tree.meaning?, Dotted.ofText_of_isWord word, Dotted.param?, found]
  | @type s as dotted found arity clear args ih =>
    cases as with
    | nil =>
      simp [Tree.ofArg, Tree.meaning?, clear rfl, Dotted.text_ofText, found, arity]
    | cons a as =>
      refine Tree.meaning?_applied.mpr ⟨s, a :: as, ?_, meanings?_ofArgs ih, arity, rfl⟩
      rw [Dotted.text_ofText, found]

end Arguments

end Expression

namespace TypeArg

mutual

/-- How many pairs of brackets are nested in the text of an argument. -/
def brackets : TypeArg → Nat
  | .param _ => 0
  | .type _ [] => 0
  | .type _ (a :: as) => 1 + max (brackets a) (bracketsAll as)

def bracketsAll : List TypeArg → Nat
  | [] => 0
  | a :: as => max (brackets a) (bracketsAll as)

end

end TypeArg

open Expression

mutual

theorem Expression.Tree.nesting_ofArg (names : Naming) : (a : TypeArg) → (Tree.ofArg names a).nesting = a.brackets
  | .param _ => rfl
  | .type _ [] => rfl
  | .type _ (a :: as) => by
    rw [Tree.ofArg, Tree.nesting, TypeArg.brackets, Tree.nesting_ofArg names a, Tree.nestingAll_ofArgs names as]

theorem Expression.Tree.nestingAll_ofArgs (names : Naming) :
    (as : List TypeArg) → Tree.nestingAll (Tree.ofArgs names as) = TypeArg.bracketsAll as
  | [] => rfl
  | a :: as => by
    rw [Tree.ofArgs, Tree.nestingAll, TypeArg.bracketsAll, Tree.nesting_ofArg names a, Tree.nestingAll_ofArgs names as]

end

/-- A legible reference is read from its own text. -/
theorem Table.parse_render {names : Naming} {t : Table} {scope? : Option Symbol} {ty : TypeRef}
    (h : Legible names t scope? ty.toArg) (hn : ty.toArg.brackets ≤ maxNesting) :
    t.parse (ty.render names) scope? = .ok ty := by
  obtain ⟨tokens, htokens, htree⟩ := h.spells spells_nil nofun 1
  rw [List.append_nil] at htokens htree
  refine (t.parse_iff_derives scope? htokens).mpr ⟨Tree.ofArg names ty.toArg, ?_, h.meaning?, ?_, ?_⟩
  · exact ⟨tokens, (List.append_nil _).symm, htree⟩
  · rw [Tree.nesting_ofArg]
    exact hn
  · exact Tree.ends_nil

end Nominal
