import Nominal.Reference.Substitution
import Nominal.Source

/-! Well-formed references, by their parts: a symbol has as many arguments as its declaration has parameters, and every
    argument is well-formed in turn. The nesting of a reference counts how deep references stand inside each other. -/

namespace Nominal

namespace TypeSource

variable {σ : Type} [TypeSource σ] {src : σ}

theorem checkArg_param_iff {p : Param} :
    checkArg src (.param p) = .ok () ↔ ∃ n, arity? src p.owner = some n ∧ p.index < n := by
  unfold checkArg
  cases arity? src p.owner with
  | none => simp
  | some n => by_cases h : p.index < n <;> simp [h]

theorem checkArgs_iff {as : List TypeArg} : checkArgs src as = .ok () ↔ ∀ a ∈ as, checkArg src a = .ok () := by
  induction as with
  | nil => simp [checkArgs]
  | cons a as ih =>
    rw [checkArgs, List.forall_mem_cons, ← ih]
    cases checkArg src a <;> simp

theorem checkArg_type_iff {s : Symbol} {as : List TypeArg} :
    checkArg src (.type s as) = .ok () ↔ arity? src s = some as.length ∧ ∀ a ∈ as, checkArg src a = .ok () := by
  rw [checkArg, ← checkArgs_iff]
  cases arity? src s with
  | none => simp
  | some n => by_cases h : n = as.length <;> simp [h]

theorem checkArg_opened {s : Symbol} {n : Nat} (h : arity? src s = some n) :
    checkArg src (TypeRef.opened s n).toArg = .ok () := by
  refine checkArg_type_iff.mpr ⟨by simp [TypeRef.opened, TypeRef.openArgs, h], fun a ha => ?_⟩
  simp only [TypeRef.opened, TypeRef.openArgs, List.mem_map, List.mem_range] at ha
  obtain ⟨i, hi, rfl⟩ := ha
  exact checkArg_param_iff.mpr ⟨n, h, hi⟩

end TypeSource

/-! ### Nesting -/

namespace TypeArg

mutual

/-- How many references an argument nests inside each other. -/
def nesting : TypeArg → Nat
  | .param _ => 0
  | .type _ as => 1 + nestingAll as

/-- The deepest nesting among arguments. -/
def nestingAll : List TypeArg → Nat
  | [] => 0
  | a :: as => max (nesting a) (nestingAll as)

end

theorem nesting_le_nestingAll {a : TypeArg} {as : List TypeArg} (h : a ∈ as) : a.nesting ≤ nestingAll as := by
  induction as with
  | nil => cases h
  | cons b as ih =>
    rw [nestingAll]
    rcases List.mem_cons.mp h with rfl | h
    · exact Nat.le_max_left _ _
    · exact Nat.le_trans (ih h) (Nat.le_max_right _ _)

theorem nestingAll_eq_zero {as : List TypeArg} (h : ∀ a ∈ as, a.nesting = 0) : nestingAll as = 0 := by
  induction as with
  | nil => rfl
  | cons a as ih =>
    rw [List.forall_mem_cons] at h
    rw [nestingAll, h.1, ih h.2, Nat.max_self]

end TypeArg

namespace TypeRef

/-- How deep a reference nests: one without references among its arguments has one level. -/
def nesting (t : TypeRef) : Nat := t.toArg.nesting

theorem one_le_nesting (t : TypeRef) : 1 ≤ t.nesting := by
  rw [nesting, toArg, TypeArg.nesting]
  omega

theorem nesting_lt_of_mem {t : TypeRef} {a : TypeArg} (h : a ∈ t.args) : a.nesting < t.nesting := by
  have hle := TypeArg.nesting_le_nestingAll h
  rw [nesting, toArg, TypeArg.nesting]
  omega

theorem nesting_definition (t : TypeRef) : t.definition.nesting = 1 := by
  have hzero : TypeArg.nestingAll (openArgs t.symbol t.arity) = 0 := by
    refine TypeArg.nestingAll_eq_zero fun a ha => ?_
    obtain ⟨i, -, rfl⟩ := List.mem_map.mp ha
    rfl
  rw [nesting, toArg, TypeArg.nesting, definition, opened, hzero]

end TypeRef

/-! ### Parameters and substitution -/

namespace TypeArg

/-- The parameter occurs in the argument, at any depth. -/
inductive Occurs (p : Param) : TypeArg → Prop
  | param : Occurs p (.param p)
  | type {s : Symbol} {as : List TypeArg} {a : TypeArg} (mem : a ∈ as) (occurs : Occurs p a) : Occurs p (.type s as)

theorem occurs_param_iff {p q : Param} : Occurs p (.param q) ↔ p = q := by
  constructor
  · rintro ⟨⟩
    rfl
  · rintro rfl
    exact .param

theorem occurs_type_iff {p : Param} {s : Symbol} {as : List TypeArg} :
    Occurs p (.type s as) ↔ ∃ a ∈ as, Occurs p a := by
  constructor
  · rintro (_ | ⟨hmem, hp⟩)
    exact ⟨_, hmem, hp⟩
  · rintro ⟨a, hmem, hp⟩
    exact .type hmem hp

/-- What holds of parameters, and of a reference if it holds of its arguments, holds of all arguments. -/
theorem args_induction {motive : TypeArg → Prop} (param : ∀ p, motive (.param p))
    (type : ∀ s as, (∀ a ∈ as, motive a) → motive (.type s as)) : ∀ a, motive a
  | .param p => param p
  | .type s as => type s as fun a _ => args_induction param type a

variable {o s : Symbol} {xs ys : List TypeArg}

theorem substituteAll_eq_map (as : List TypeArg) : substituteAll o xs as = as.map (substitute o xs) := by
  induction as with
  | nil => rfl
  | cons a as ih => rw [substituteAll, ih, List.map_cons]

/-- Binding the parameters of `o` and then those of `s` is binding those of `o` to values in which those of `s` are
    bound, unless the argument mentions `s` itself. If `o` is `s`, the values have to be enough for its parameters. -/
theorem substitute_substitute {x : TypeArg} (hin : o = s → ∀ p, Occurs p x → p.owner = o → p.index < xs.length)
    (hout : ∀ p, Occurs p x → p.owner = s → o = s) :
    substitute s ys (substitute o xs x) = substitute o (substituteAll s ys xs) x := by
  induction x using args_induction with
  | param p =>
    by_cases ho : p.owner = o
    · rw [substitute, if_pos ho, substitute, if_pos ho, substituteAll_eq_map, List.getElem?_map]
      by_cases hlt : p.index < xs.length
      · rw [List.getElem?_eq_getElem hlt]
        rfl
      · -- A parameter beyond the values stays, and it is none of `s`.
        have hs : p.owner ≠ s := fun h => hlt (hin (hout p .param h) p .param ho)
        rw [List.getElem?_eq_none (Nat.not_lt.mp hlt)]
        show substitute s ys (.param p) = .param p
        rw [substitute, if_neg hs]
    · have hs : p.owner ≠ s := fun h => ho (h.trans (hout p .param h).symm)
      rw [substitute, if_neg ho, substitute, if_neg hs, substitute, if_neg ho]
  | type q as ih =>
    rw [substitute, substitute, substitute, substituteAll_eq_map, substituteAll_eq_map, substituteAll_eq_map,
      List.map_map]
    congr 1
    refine List.map_congr_left fun a ha => ?_
    exact ih a ha (fun h p hp => hin h p (.type ha hp)) (fun p hp => hout p (.type ha hp))

end TypeArg

namespace TypeRef

variable {r x : TypeRef} {s : Symbol} {ys : List TypeArg}

/-- A parameter of `s` occurs in the reference. -/
def Mentions (r : TypeRef) (s : Symbol) : Prop := ∃ p, TypeArg.Occurs p r.toArg ∧ p.owner = s

/-- Reading a declared reference and then binding parameters is reading it from the bound reference, unless it mentions
    the declaration whose parameters are bound. -/
theorem substitute_instantiate
    (hin : r.symbol = s → ∀ p, TypeArg.Occurs p x.toArg → p.owner = r.symbol → p.index < r.args.length)
    (hout : x.Mentions s → r.symbol = s) :
    (r.instantiate x).substitute s ys = (r.substitute s ys).instantiate x := by
  have h := @TypeArg.substitute_substitute _ _ _ ys _ hin fun p hp hs => hout ⟨p, hp, hs⟩
  exact congrArg (TypeRef.mk x.symbol) (TypeArg.type.inj h).2

theorem instantiate_opened (r : TypeRef) : r.instantiate (.opened r.symbol r.args.length) = r := by
  have hargs : TypeArg.substituteAll r.symbol r.args (openArgs r.symbol r.args.length) = r.args := by
    rw [TypeArg.substituteAll_eq_map]
    refine List.ext_getElem (by simp [openArgs]) fun i h h' => ?_
    simp [openArgs, TypeArg.substitute, h']
  exact congrArg (TypeRef.mk r.symbol) hargs

theorem length_args_instantiate : (r.instantiate x).args.length = x.args.length := by
  rw [instantiate, substitute, TypeArg.substituteAll_eq_map, List.length_map]

end TypeRef

/-! ### References inside each other -/

namespace TypeArg

mutual

/-- The references that occur in an argument, each before those among its own arguments. -/
def references : TypeArg → List TypeRef
  | .param _ => []
  | .type s as => ⟨s, as⟩ :: referencesAll as

/-- The references that occur in several arguments. -/
def referencesAll : List TypeArg → List TypeRef
  | [] => []
  | a :: as => references a ++ referencesAll as

end

theorem mem_referencesAll {x : TypeRef} {as : List TypeArg} : x ∈ referencesAll as ↔ ∃ a ∈ as, x ∈ a.references := by
  induction as with
  | nil => simp [referencesAll]
  | cons a as ih => simp [referencesAll, ih]

theorem references_trans {x y : TypeRef} {a : TypeArg} (hx : x ∈ a.references) (hy : y ∈ x.toArg.references) :
    y ∈ a.references := by
  induction a using args_induction with
  | param p => cases hx
  | type s as ih =>
    rcases List.mem_cons.mp hx with rfl | hx
    · exact hy
    · obtain ⟨a, ha, hx⟩ := mem_referencesAll.mp hx
      exact List.mem_cons_of_mem _ (mem_referencesAll.mpr ⟨a, ha, ih a ha hx⟩)

theorem nesting_le_of_mem_references {x : TypeRef} {a : TypeArg} (hx : x ∈ a.references) : x.nesting ≤ a.nesting := by
  induction a using args_induction with
  | param p => cases hx
  | type s as ih =>
    rcases List.mem_cons.mp hx with rfl | hx
    · exact Nat.le_refl _
    · obtain ⟨a, ha, hx⟩ := mem_referencesAll.mp hx
      have hle := nesting_le_nestingAll ha
      have hx := ih a ha hx
      rw [nesting]
      omega

end TypeArg

/-- The references that occur in a reference, the reference itself included. -/
def TypeRef.references (t : TypeRef) : List TypeRef := t.toArg.references

theorem TypeRef.mem_references {t x : TypeRef} : x ∈ t.references ↔ x = t ∨ ∃ a ∈ t.args, x ∈ a.references := by
  rw [references, toArg, TypeArg.references, List.mem_cons, TypeArg.mem_referencesAll]

/-- Whether an argument is well-formed depends only on how many parameters each declaration has. -/
theorem TypeSource.checkArg_of_arity? {σ τ : Type} [TypeSource σ] [TypeSource τ] {src : σ} {src' : τ}
    (harity : ∀ s, arity? src' s = arity? src s) {x : TypeArg} (h : checkArg src x = .ok ()) :
    checkArg src' x = .ok () := by
  induction x using TypeArg.args_induction with
  | param p =>
    rw [checkArg_param_iff] at h ⊢
    rwa [harity]
  | type s as ih =>
    rw [checkArg_type_iff] at h ⊢
    rw [harity]
    exact ⟨h.1, fun a ha => ih a ha (h.2 a ha)⟩

theorem TypeSource.index_lt_of_check {σ : Type} [TypeSource σ] {src : σ} {x : TypeArg} {p : Param}
    (h : checkArg src x = .ok ()) (hp : TypeArg.Occurs p x) : ∃ n, arity? src p.owner = some n ∧ p.index < n := by
  induction hp with
  | param => exact checkArg_param_iff.mp h
  | type mem _ ih => exact ih ((checkArg_type_iff.mp h).2 _ mem)

end Nominal
