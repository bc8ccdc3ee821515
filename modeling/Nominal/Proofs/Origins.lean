import Nominal.CommandLine.Run
import Nominal.Proofs.Parsing
import Nominal.Proofs.Supertypes
import Nominal.Proofs.Validity

/-! What is read from a text is well-formed, and its parameters come from two places: the scope, and the slots of open
    forms. The command line asks about what it has read, so its searches are never turned down and end early only at
    limits. -/

namespace Nominal

open TypeSource

/-! ### Parameters of what is read -/

/-- Each parameter among the arguments is one in scope, or it has its own place in an open definition. -/
def TypeRef.Placed (scope? : Option Symbol) (x : TypeRef) : Prop :=
  ∀ (i : Nat) (p : Param), x.args[i]? = some (.param p) → scope? = some p.owner ∨ x.IsOpen ∧ p = ⟨x.symbol, i⟩

theorem TypeRef.placed_opened (scope? : Option Symbol) (s : Symbol) (n : Nat) : (opened s n).Placed scope? := by
  intro i p hp
  refine .inr ⟨by simp [IsOpen, opened, openArgs, arity], ?_⟩
  simp only [opened, openArgs, List.getElem?_map, Option.map_eq_some_iff, TypeArg.param.injEq] at hp
  obtain ⟨j, hj, rfl⟩ := hp
  obtain ⟨hlt, rfl⟩ := List.getElem?_eq_some_iff.mp hj
  rw [List.getElem_range]
  rfl

namespace TypeArg

/-- A parameter that is the argument is one in scope, and those inside it are in their places. -/
structure Originates (scope? : Option Symbol) (a : TypeArg) : Prop where
  param : ∀ p, a = .param p → scope? = some p.owner
  placed : ∀ x ∈ a.references, x.Placed scope?

variable {scope? : Option Symbol}

theorem Originates.of_scope {p : Param} (h : scope? = some p.owner) : Originates scope? (.param p) where
  param q hq := by
    cases hq
    exact h
  placed x hx := by cases hx

theorem Originates.opened (scope? : Option Symbol) (s : Symbol) (n : Nat) :
    Originates scope? (TypeRef.opened s n).toArg where
  param _ hp := by cases hp
  placed x hx := by
    rcases TypeRef.mem_references.mp hx with rfl | ⟨a, ha, hx⟩
    · exact TypeRef.placed_opened scope? s n
    · obtain ⟨i, -, rfl⟩ := List.mem_map.mp ha
      cases hx

theorem Originates.type {s : Symbol} {as : List TypeArg} (h : ∀ a ∈ as, Originates scope? a) :
    Originates scope? (.type s as) where
  param _ hp := by cases hp
  placed x hx := by
    rcases List.mem_cons.mp hx with rfl | hx
    · -- A parameter that stands alone as an argument was found in the scope.
      intro i p hp
      exact .inl ((h _ (List.mem_of_getElem? hp)).param p rfl)
    · obtain ⟨a, ha, hx⟩ := mem_referencesAll.mp hx
      exact (h a ha).placed x hx

end TypeArg

open TypeArg

theorem Table.owner_of_paramNamed? {t : Table} {owner : Symbol} {name : String} {p : Param}
    (h : t.paramNamed? owner name = some p) : p.owner = owner := by
  simp only [paramNamed?, Option.bind_eq_bind, Option.bind_eq_some_iff] at h
  obtain ⟨-, -, -, -, i, -, h⟩ := h
  cases h
  rfl

namespace Expression.Tree

variable {t : Table} {scope? : Option Symbol}

theorem bare_originates {name : Dotted} {a : TypeArg} (h : meaning? t scope? (.bare name) = some a) :
    Originates scope? a := by
  unfold meaning? at h
  split at h
  · rename_i p hp
    cases h
    unfold Dotted.param? at hp
    split at hp
    · obtain ⟨owner, rfl, hp⟩ := Option.bind_eq_some_iff.mp hp
      exact .of_scope (congrArg some (Table.owner_of_paramNamed? hp).symm)
    · cases hp
  · obtain ⟨s, -, h⟩ := Option.bind_eq_some_iff.mp h
    split at h <;> cases h
    exact .type nofun

mutual

theorem meaning?_originates (tree : Tree) (a : TypeArg) (h : tree.meaning? t scope? = some a) :
    Originates scope? a := by
  match tree with
  | bare name => exact bare_originates h
  | opened name commas =>
    obtain ⟨s, -, -, rfl⟩ := meaning?_opened.mp h
    exact .opened scope? s (commas + 1)
  | applied name first more =>
    obtain ⟨s, as, -, has, -, rfl⟩ := meaning?_applied.mp h
    obtain ⟨a, as, rfl, ha, has⟩ := meanings?_cons.mp has
    exact .type (List.forall_mem_cons.mpr ⟨meaning?_originates first a ha, meanings?_originates more as has⟩)

theorem meanings?_originates (trees : List Tree) (as : List TypeArg) (h : meanings? t scope? trees = some as) :
    ∀ a ∈ as, Originates scope? a := by
  match trees with
  | [] =>
    cases h
    exact List.forall_mem_nil _
  | tree :: trees =>
    obtain ⟨a, as, rfl, ha, has⟩ := meanings?_cons.mp h
    exact List.forall_mem_cons.mpr ⟨meaning?_originates tree a ha, meanings?_originates trees as has⟩

end

end Expression.Tree

namespace Table

variable {t t' : Table}

theorem parse_originates {text : String} {scope? : Option Symbol} {r : TypeRef} (h : t.parse text scope? = .ok r) :
    Originates scope? r.toArg := by
  obtain ⟨tokens, htokens, -⟩ := ok_of_bind h
  obtain ⟨tree, -, hmeaning, -⟩ := (t.parse_iff_derives scope? htokens).mp h
  exact tree.meaning?_originates r.toArg hmeaning

/-! ### Tables that can come about -/

/-- The tables that can come about, from the one without declarations or the one with the root. -/
inductive Reached : Table → Prop
  | empty : Reached .empty
  | rooted : Reached .rooted
  | intern {t : Table} (h : Reached t) (text : String) : Reached { t with names := (t.names.intern text).1 }
  | declare {t : Table} (h : Reached t) (kind : Kind) (dotted : String) (params : List String) :
      Reached (t.declare kind dotted params).1
  | register {t : Table} (h : Reached t) (d : Declaration) : Reached (t.register d).1
  | setBase {t : Table} (h : Reached t) (s : Symbol) (base? : Option TypeRef) : Reached (t.setBase s base?)
  | addInterface {t : Table} (h : Reached t) (s : Symbol) (i : TypeRef) : Reached (t.addInterface s i)

theorem SameHeads.indexed (h : SameHeads t t') (ht : t.Indexed) : t'.Indexed := by
  intro a s hs
  rw [h.byFullName, h.byName] at hs
  rw [h.contains]
  exact ht a s hs

theorem Reached.indexed (h : t.Reached) : t.Indexed := by
  induction h with
  | empty =>
    intro a s hs
    simp [Table.empty] at hs
  | rooted => exact Universe.Rooted.start.indexed
  | intern _ text ih => exact ih
  | @declare t _ kind dotted params ih =>
    obtain ⟨names, name, atoms, h, -⟩ := t.declare_eq_register kind dotted params
    rw [h]
    exact Indexed.register (t := { t with names }) ih
  | register _ d ih => exact ih.register
  | setBase _ s base? ih =>
    refine SameHeads.indexed ?_ ih
    exact .update fun _ => rfl
  | addInterface _ s i ih =>
    refine SameHeads.indexed ?_ ih
    exact .update fun _ => rfl

end Table

theorem Universe.indexed_of_build {u : Universe} {t : Table} (h : u.build.value = .ok t) : t.Indexed := by
  obtain ⟨-, rfl⟩ := build_eq_ok h
  exact u.sameHeads_linked.indexed u.holds_declared.rooted.indexed

theorem Universe.reached_declareTypes {t : Table} (ht : t.Reached) (es : List Entry) :
    (BuildM.declareTypes t es).Reached := by
  induction es generalizing t with
  | nil => exact ht
  | cons e es ih => exact ih (.declare ht e.kind e.fullName e.params)

/-! ### Answers and errors of an attempt -/

namespace Attempt

variable {ε s α β : Type} {P : ε → Prop} {Q : α → Prop} {R : β → Prop} {x : Attempt ε s α} {f : α → Attempt ε s β}

/-- Every answer of the attempt satisfies `Q` and every error `P`. -/
structure Ends (P : ε → Prop) (Q : α → Prop) (x : Attempt ε s α) : Prop where
  answer : ∀ t a, (x t).1 = .ok a → Q a
  error : ∀ t e, (x t).1 = .error e → P e

theorem Ends.ofExcept {r : Except ε α} (hok : ∀ a, r = .ok a → Q a) (herror : ∀ e, r = .error e → P e) :
    Ends P Q (Attempt.ofExcept r : Attempt ε s α) := ⟨fun _ => hok, fun _ => herror⟩

theorem Ends.pure {a : α} (h : Q a) : Ends P Q (Pure.pure a : Attempt ε s α) where
  answer _ _ ha := by
    cases ha
    exact h
  error _ _ he := by cases he

theorem Ends.fail {e : ε} (h : P e) : Ends P Q (Attempt.fail e : Attempt ε s α) where
  answer _ _ ha := by cases ha
  error _ _ he := by
    cases he
    exact h

theorem Ends.bind (hx : Ends P Q x) (hf : ∀ a, Q a → Ends P R (f a)) : Ends P R (x >>= f) := by
  have hcases (t : s) : (∃ e, ((x >>= f) t).1 = .error e ∧ P e) ∨ ∃ a u, (x >>= f) t = f a u ∧ Q a := by
    rcases hxt : x t with ⟨e | a, u⟩
    · exact .inl ⟨e, congrArg Prod.fst (bind_of_error hxt), hx.error t e (congrArg Prod.fst hxt)⟩
    · exact .inr ⟨a, u, bind_of_ok hxt, hx.answer t a (congrArg Prod.fst hxt)⟩
  refine ⟨fun t b hb => ?_, fun t e he => ?_⟩
  · rcases hcases t with ⟨e, he, -⟩ | ⟨a, u, h, ha⟩
    · cases he.symm.trans hb
    · rw [h] at hb
      exact (hf a ha).answer u b hb
  · rcases hcases t with ⟨e', he', hp⟩ | ⟨a, u, h, ha⟩
    · cases he'.symm.trans he
      exact hp
    · rw [h] at he
      exact (hf a ha).error u e he

theorem Ends.change_bind {g : s → s} (h : Ends P Q x) : Ends P Q (Attempt.change g >>= fun _ => x) :=
  ⟨fun t => h.answer (g t), fun t => h.error (g t)⟩

theorem Ends.mapError {ε' : Type} {r : Except ε' α} {wrap : ε' → ε} (hok : ∀ a, r = .ok a → Q a)
    (herror : ∀ e, r = .error e → P (wrap e)) : Ends P Q (Attempt.ofExcept (r.mapError wrap) : Attempt ε s α) := by
  refine .ofExcept (fun a ha => ?_) fun e he => ?_
  · cases r with
    | ok => exact hok a (by cases ha; rfl)
    | error => cases ha
  · cases r with
    | ok => cases he
    | error e' =>
      cases he
      exact herror e' rfl

end Attempt

/-! ### The command line -/

namespace CommandLine

open Attempt

/-- The failed search behind an error. -/
def RunError.failure? : RunError → Option Failure
  | undecided _ _ f | unflattened _ f | unclimbed _ f => some f
  | unloadable _ (.refused e) | badCore (.refused e) => e.failure?
  | _ => none

/-- If a search has failed, it was at a limit. -/
def RunError.AtLimit (e : RunError) : Prop := ∀ f ∈ e.failure?, f.isLimit = true

theorem RunError.atLimit_of_some {e : RunError} {f : Failure} (h : e.failure? = some f) (hf : f.isLimit = true) :
    e.AtLimit := by
  intro f' hf'
  cases h.symm.trans hf'
  exact hf

theorem RunError.atLimit_of_none {e : RunError} (h : e.failure? = none) : e.AtLimit := by
  intro f hf
  cases h.symm.trans hf

theorem RunM.ends_logged {ε α : Type} {P : RunError → Prop} {Q : α → Prop} {r : Logged (Except ε α)}
    {wrap : ε → RunError} (hok : ∀ a, r.value = .ok a → Q a) (herror : ∀ e, r.value = .error e → P (wrap e)) :
    Ends P Q (RunM.logged r wrap) :=
  .change_bind (.mapError hok herror)

namespace Job

variable {job : Job}

theorem ends_parse (hix : job.table.Indexed) (text : String) :
    Ends RunError.AtLimit (fun r => check job.table r = .ok ()) (job.parse text) :=
  .mapError (fun _ => Table.parse_check hix) fun _ _ => RunError.atLimit_of_none rfl

theorem ends_supertypes (r : TypeRef) : Ends RunError.AtLimit (fun _ => True) (job.supertypes r) := by
  refine .bind (RunM.ends_logged (Q := fun _ => True) (fun _ _ => trivial) fun e he => ?_) fun _ _ => .pure trivial
  exact RunError.atLimit_of_some rfl (Table.isLimit_of_supertypesOf he)

theorem ends_unify (hix : job.table.Indexed) (a b : String) :
    Ends RunError.AtLimit (fun _ => True) (job.unify a b) := by
  refine .bind (ends_parse hix a) fun x hx => .bind (ends_parse hix b) fun y hy => .change_bind ?_
  refine .bind (RunM.ends_logged (Q := fun _ => True) (fun _ _ => trivial) fun e he => ?_) fun _ _ => .pure trivial
  have hresult := (Unifier.result_of_check hx hy).symm.trans he
  exact RunError.atLimit_of_some rfl (UnifyM.isLimit_of_solve hresult)

theorem ends_list (hix : job.table.Indexed) (text : String) : Ends RunError.AtLimit (fun _ => True) (job.list text) :=
  .bind (ends_parse hix text) fun r _ => .bind (ends_supertypes r) fun _ _ => .pure trivial

theorem ends_describe (hix : job.table.Indexed) (text : String) :
    Ends RunError.AtLimit (fun _ => True) (job.describe text) := by
  refine .bind (ends_parse hix text) fun r _ => ?_
  cases job.table.get? r.symbol with
  | none => exact .fail (RunError.atLimit_of_none rfl)
  | some d =>
    refine .bind (.mapError (Q := fun _ => True) (fun _ _ => trivial) fun e he => ?_) fun _ _ =>
      .bind (ends_supertypes r) fun _ _ => .pure trivial
    refine RunError.atLimit_of_some rfl ?_
    rcases Table.interfacesWithin_error he with rfl | rfl <;> rfl

end Job

/-- A universe is loaded with all its names in place, or else a limit may have been met. -/
theorem ends_build (u : Universe) {wrap : LoadError → RunError}
    (hwrap : ∀ e, (wrap (.refused e)).failure? = e.failure?) :
    Ends RunError.AtLimit Table.Indexed (RunM.logged ⟨u.build.value.mapError .refused, u.build.events⟩ wrap) := by
  have hcases := u.build_cases (P := fun e => (wrap (.refused e)).AtLimit)
    (fun e he => RunError.atLimit_of_none ((hwrap e).trans he))
    fun p _ r f _ hf => RunError.atLimit_of_some (hwrap _) (Table.isLimit_of_supertypesOf hf)
  rcases hcases with ⟨-, hok⟩ | ⟨-, e, he, hlimit⟩
  · rw [hok]
    refine RunM.ends_logged (fun t ht => ?_) nofun
    cases ht
    exact Universe.indexed_of_build hok
  · rw [he]
    refine RunM.ends_logged nofun fun e' he' => ?_
    cases he'
    exact hlimit

theorem ends_loadTable (args : Arguments) (files : String → Except FileError String) :
    Ends RunError.AtLimit Table.Indexed (loadTable args files) := by
  unfold loadTable
  cases args.options.universe? with
  | none => exact ends_build .core fun _ => rfl
  | some path =>
    refine .bind (.mapError (Q := fun _ => True) (fun _ _ => trivial) fun _ _ => RunError.atLimit_of_none rfl)
      fun text _ => ?_
    unfold Universe.load
    cases Universe.ofText text with
    | error e =>
      refine RunM.ends_logged nofun fun e' he' => ?_
      cases he'
      exact RunError.atLimit_of_none rfl
    | ok u => exact ends_build u fun _ => rfl

theorem ends_runM (args : Arguments) (color : Bool) (files : String → Except FileError String) :
    Ends RunError.AtLimit (fun _ => True) (runM args color files) := by
  refine .bind (ends_loadTable args files) fun t ht => ?_
  cases args.command with
  | unify a b => exact Job.ends_unify ht a b
  | supertypes r => exact Job.ends_list ht r
  | describe r => exact Job.ends_describe ht r

end CommandLine

open CommandLine in
/-- Whatever is read, in whatever scope, is well-formed, and its parameters are those of the scope or have their own
    places in open definitions. No command ends because an ill-formed reference was asked about. -/
theorem parse_wellFormed :
    (∀ t : Table, t.Reached → ∀ (text : String) (scope? : Option Symbol) (r : TypeRef), t.parse text scope? = .ok r →
      check t r = .ok () ∧ ∀ x ∈ r.references, x.Placed scope?) ∧
    ∀ (e : RunError) (f : Failure), e.failure? = some f → f.isIllFormed = true →
      ∀ (args : Arguments) (color : Bool) (files : String → Except FileError String),
        (run args color files).value ≠ .error e := by
  refine ⟨fun t ht text scope? r h => ?_, fun e f hf hill args color files h => ?_⟩
  · exact ⟨Table.parse_check ht.indexed h, (Table.parse_originates h).placed⟩
  · have hlimit := (ends_runM args color files).error [] e h f hf
    simp [Failure.isIllFormed, hlimit] at hill

open CommandLine in
/-- A parameter of an open form, and a parameter in scope. -/
theorem parse_wellFormed_borrowed :
    (check Universe.borrowed.declared ⟨⟨6⟩, [(TypeRef.opened ⟨4⟩ 1).toArg]⟩ = .ok () ∧
      (TypeRef.opened ⟨4⟩ 1).Placed (some ⟨5⟩)) ∧
    (check Universe.borrowed.declared ⟨⟨6⟩, [.type ⟨6⟩ [.param ⟨⟨5⟩, 0⟩]]⟩ = .ok () ∧
      TypeRef.Placed (some ⟨5⟩) ⟨⟨6⟩, [.param ⟨⟨5⟩, 0⟩]⟩) ∧
    ∀ args color files, (run args color files).value ≠ .error (.undecided "I<>" "L<I<>>" (.arityMismatch ⟨6⟩ 1 0)) := by
  obtain ⟨hread, hrun⟩ := parse_wellFormed
  obtain ⟨-, -, -, hopen, hscope⟩ := Universe.parse_borrowed
  have hreached : Universe.borrowed.declared.Reached := Universe.reached_declareTypes .rooted _
  obtain ⟨hcheck, hplaced⟩ := hread _ hreached _ _ _ hopen
  obtain ⟨hcheck', hplaced'⟩ := hread _ hreached _ _ _ hscope
  exact ⟨⟨hcheck, hplaced _ (by decide)⟩, ⟨hcheck', hplaced' _ (by decide)⟩, hrun _ _ rfl rfl⟩

end Nominal
