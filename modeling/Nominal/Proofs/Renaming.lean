import Mathlib.Data.List.Basic
import Nominal.Proofs.References
import Nominal.Unifier

/-! References, answers and failures with other symbols in place of their own. Everything that is said of references by
    their structure stays as it is if different symbols stay different. -/

namespace Nominal

/-- The parameter with its owner renamed. -/
def Param.rename (f : Symbol → Symbol) (p : Param) : Param := ⟨f p.owner, p.index⟩

namespace TypeArg

mutual

/-- The argument with every symbol renamed. -/
def rename (f : Symbol → Symbol) : TypeArg → TypeArg
  | .param p => .param (p.rename f)
  | .type s as => .type (f s) (renameAll f as)

/-- The arguments with every symbol renamed. -/
def renameAll (f : Symbol → Symbol) : List TypeArg → List TypeArg
  | [] => []
  | a :: as => rename f a :: renameAll f as

end

end TypeArg

/-- The reference with every symbol renamed. -/
def TypeRef.rename (f : Symbol → Symbol) (t : TypeRef) : TypeRef := ⟨f t.symbol, TypeArg.renameAll f t.args⟩

/-- The answer with every symbol renamed. -/
def Unification.rename (f : Symbol → Symbol) : Unification → Unification
  | .noMatch => .noMatch
  | .matched => .matched
  | .instantiated args => .instantiated (TypeArg.renameAll f args)

/-- The failure with every symbol renamed. -/
def Failure.rename (f : Symbol → Symbol) : Failure → Failure
  | .arityMismatch s expected found => .arityMismatch (f s) expected found
  | .unknownSymbol s => .unknownSymbol (f s)
  | .paramOutOfRange p arity => .paramOutOfRange (p.rename f) arity
  | .tooDeep limit => .tooDeep limit
  | .exhausted limit => .exhausted limit
  | .inheritanceCycle s => .inheritanceCycle (f s)

/-- The result with every symbol renamed, by `g` in an answer. -/
def renamed {α β : Type} (f : Symbol → Symbol) (g : α → β) : Except Failure α → Except Failure β
  | .ok v => .ok (g v)
  | .error e => .error (e.rename f)

variable {f : Symbol → Symbol}

theorem Param.rename_injective (hf : f.Injective) : (Param.rename f).Injective := by
  rintro ⟨s, i⟩ ⟨t, j⟩ h
  obtain ⟨hs, rfl⟩ : f s = f t ∧ i = j := Param.mk.inj h
  rw [hf hs]

namespace TypeArg

theorem renameAll_eq_map (as : List TypeArg) : renameAll f as = as.map (rename f) := by
  induction as with
  | nil => rfl
  | cons a as ih => simp only [renameAll, ih, List.map_cons]

@[simp]
theorem length_renameAll (as : List TypeArg) : (renameAll f as).length = as.length := by
  simp [renameAll_eq_map]

@[simp]
theorem isParam_rename (a : TypeArg) : (a.rename f).isParam = a.isParam := by
  cases a <;> rfl

theorem rename_toArg (t : TypeRef) : t.toArg.rename f = (t.rename f).toArg := rfl

@[simp]
theorem rename_id (a : TypeArg) : a.rename id = a := by
  induction a using args_induction with
  | param p => rfl
  | type s as ih =>
    rw [rename, renameAll_eq_map, List.map_congr_left ih]
    simp

@[simp]
theorem renameAll_id (as : List TypeArg) : renameAll id as = as := by
  rw [renameAll_eq_map, List.map_congr_left fun a _ => rename_id a, List.map_id']

theorem rename_injective (hf : f.Injective) : (rename f).Injective := by
  intro a
  induction a using args_induction with
  | param p =>
    rintro (q | ⟨t, bs⟩) h
    · rw [Param.rename_injective hf (param.inj h)]
    · cases h
  | type s as ih =>
    rintro (q | ⟨t, bs⟩) h
    · cases h
    · obtain ⟨hs, has⟩ := type.inj h
      rw [renameAll_eq_map, renameAll_eq_map] at has
      have hargs : as = bs := by
        clear h hs
        induction as generalizing bs with
        | nil => exact (List.map_eq_nil_iff.mp has.symm).symm
        | cons a as ih' =>
          obtain ⟨b, bs, rfl, hb, hbs⟩ := List.map_eq_cons_iff.mp has.symm
          rw [ih a List.mem_cons_self hb.symm, ih' (fun c hc => ih c (List.mem_cons_of_mem a hc)) bs hbs.symm]
      rw [hf hs, hargs]

theorem rename_substitute (hf : f.Injective) (o : Symbol) (values : List TypeArg) (a : TypeArg) :
    (a.substitute o values).rename f = (a.rename f).substitute (f o) (renameAll f values) := by
  induction a using args_induction with
  | param p =>
    simp only [substitute, rename, Param.rename, hf.eq_iff]
    split
    · rw [renameAll_eq_map, List.getElem?_map]
      cases values[p.index]? <;> rfl
    · rfl
  | type s as ih =>
    simp only [substitute, rename, substituteAll_eq_map, renameAll_eq_map, List.map_map, type.injEq, true_and]
    refine List.map_congr_left fun a ha => ?_
    rw [Function.comp_apply, ih a ha, renameAll_eq_map]
    rfl

end TypeArg

namespace TypeRef

@[simp]
theorem rename_id (t : TypeRef) : t.rename id = t := by
  simp [rename]

theorem rename_injective (hf : f.Injective) : (rename f).Injective := by
  rintro ⟨s, as⟩ ⟨t, bs⟩ h
  obtain ⟨rfl, rfl⟩ := TypeArg.type.inj (TypeArg.rename_injective hf (congrArg toArg h))
  rfl

@[simp]
theorem arity_rename (t : TypeRef) : (t.rename f).arity = t.arity := TypeArg.length_renameAll t.args

theorem renameAll_openArgs (s : Symbol) (n : Nat) : TypeArg.renameAll f (openArgs s n) = openArgs (f s) n := by
  simp only [TypeArg.renameAll_eq_map, openArgs, List.map_map]
  rfl

theorem rename_opened (s : Symbol) (n : Nat) : (opened s n).rename f = opened (f s) n := by
  rw [rename, opened, renameAll_openArgs]
  rfl

theorem rename_definition (t : TypeRef) : t.definition.rename f = (t.rename f).definition := by
  rw [definition, rename_opened, definition, arity_rename]
  rfl

theorem isOpen_rename (hf : f.Injective) (t : TypeRef) : (t.rename f).IsOpen ↔ t.IsOpen := by
  unfold IsOpen
  rw [arity_rename]
  show TypeArg.renameAll f t.args = openArgs (f t.symbol) t.arity ↔ _
  rw [← renameAll_openArgs, TypeArg.renameAll_eq_map, TypeArg.renameAll_eq_map]
  exact (List.map_injective_iff.mpr (TypeArg.rename_injective hf)).eq_iff

theorem hasOnlyParams_rename (t : TypeRef) : (t.rename f).hasOnlyParams = t.hasOnlyParams := by
  simp only [hasOnlyParams, isGeneric, rename, TypeArg.renameAll_eq_map, List.isEmpty_map, List.all_map]
  congr 2
  funext a
  exact TypeArg.isParam_rename a

theorem rename_normalized (t : TypeRef) : t.normalized.rename f = (t.rename f).normalized := by
  unfold normalized
  rw [hasOnlyParams_rename]
  split
  · exact rename_definition t
  · rfl

theorem rename_instantiate (hf : f.Injective) (t declared : TypeRef) :
    (t.instantiate declared).rename f = (t.rename f).instantiate (declared.rename f) := by
  simp only [instantiate, substitute, rename, TypeArg.substituteAll_eq_map, TypeArg.renameAll_eq_map, List.map_map,
    TypeRef.mk.injEq, true_and]
  refine List.map_congr_left fun a _ => ?_
  rw [Function.comp_apply, TypeArg.rename_substitute hf, TypeArg.renameAll_eq_map]
  rfl

end TypeRef

@[simp]
theorem Unification.isMatch_rename (u : Unification) : (u.rename f).isMatch = u.isMatch := by
  cases u <;> rfl

@[simp]
theorem Unification.rename_id (u : Unification) : u.rename id = u := by
  cases u <;> simp [Unification.rename]

end Nominal
