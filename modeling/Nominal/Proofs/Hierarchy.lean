import Mathlib.Data.List.Nodup
import Mathlib.Data.List.Perm.Subperm
import Mathlib.Logic.Relation
import Nominal.Table.Basic

/-! The graph of a table: which declarations implement or extend which others directly. If nothing is above itself, then
    every step up leaves fewer declarations above (`Table.rank`), and there are never more of them than the table
    has. -/

namespace Nominal

/-- What a declaration implements and extends directly. -/
def Declaration.relations (d : Declaration) : List TypeRef := d.interfaces ++ d.base?.toList

theorem Declaration.mem_relations {d : Declaration} {r : TypeRef} :
    r ∈ d.relations ↔ r ∈ d.interfaces ∨ d.base? = some r := by
  simp [relations]

namespace Table

variable {t : Table} {s s' : Symbol}

/-! ### Declared symbols -/

theorem get?_eq_some_iff {d : Declaration} :
    t.get? s = some d ↔ s.id ≠ 0 ∧ t.declarations[s.id - 1]? = some d := by
  unfold get? Symbol.isValid
  by_cases h : s.id = 0 <;> simp [h]

theorem contains_iff : t.contains s = true ↔ ∃ d, t.get? s = some d := Option.isSome_iff_exists

theorem mem_symbols : s ∈ t.symbols ↔ t.contains s = true := by
  simp only [contains_iff, get?_eq_some_iff, symbols, size, List.mem_map, List.mem_range]
  constructor
  · rintro ⟨i, hi, rfl⟩
    exact ⟨t.declarations[i], by simp, by simp [hi]⟩
  · rintro ⟨d, h0, hd⟩
    obtain ⟨hlt, -⟩ := Array.getElem?_eq_some_iff.mp hd
    exact ⟨s.id - 1, hlt, by cases s; simp at h0 ⊢; omega⟩

theorem length_symbols : t.symbols.length = t.size := by
  simp [symbols]

theorem length_le_size {path : List Symbol} (hnd : path.Nodup) (h : ∀ q ∈ path, t.contains q = true) :
    path.length ≤ t.size := by
  rw [← length_symbols]
  exact (List.subperm_of_subset hnd fun q hq => mem_symbols.mpr (h q hq)).length_le

/-! ### Steps up -/

/-- `s` implements or extends a reference to `s'` directly. -/
def Extends (t : Table) (s s' : Symbol) : Prop := ∃ d, t.get? s = some d ∧ ∃ r ∈ d.relations, r.symbol = s'

/-- Nothing is above itself. -/
def Acyclic (t : Table) : Prop := ∀ s, ¬Relation.TransGen t.Extends s s

/-- Whatever is implemented or extended is declared. -/
def Closed (t : Table) : Prop := ∀ s s', t.Extends s s' → t.contains s' = true

theorem Extends.contains (h : t.Extends s s') : t.contains s = true := by
  obtain ⟨d, hd, -⟩ := h
  exact contains_iff.mpr ⟨d, hd⟩

theorem Acyclic.not_reaches (h : t.Acyclic) (hs : t.Extends s s') : ¬Relation.ReflTransGen t.Extends s' s := fun hr =>
  h s (Relation.TransGen.head' hs hr)

open Classical in
/-- How many declarations are at or above a symbol; at least one, also for a symbol that is not declared. -/
noncomputable def rank (t : Table) (s : Symbol) : Nat :=
  max 1 (t.symbols.filter fun q => Relation.ReflTransGen t.Extends s q).length

theorem one_le_rank (t : Table) (s : Symbol) : 1 ≤ t.rank s := Nat.le_max_left _ _

theorem rank_le_size (h : 1 ≤ t.size) : t.rank s ≤ t.size := by
  refine Nat.max_le.mpr ⟨h, ?_⟩
  rw [← length_symbols]
  exact List.length_filter_le _ _

theorem rank_lt_of_extends (hac : t.Acyclic) (hcl : t.Closed) (h : t.Extends s s') : t.rank s' < t.rank s := by
  classical
  have hself : s' ∈ t.symbols.filter fun q => Relation.ReflTransGen t.Extends s' q :=
    List.mem_filter.mpr ⟨mem_symbols.mpr (hcl s s' h), decide_eq_true .refl⟩
  have hpos : 1 ≤ (t.symbols.filter fun q => Relation.ReflTransGen t.Extends s' q).length :=
    List.length_pos_of_mem hself
  -- What is above `s'` is above `s` too, and `s` itself is not above `s'`.
  have hlt : (t.symbols.filter fun q => Relation.ReflTransGen t.Extends s' q).length <
      (t.symbols.filter fun q => Relation.ReflTransGen t.Extends s q).length := by
    have hnd : (s :: t.symbols.filter fun q => Relation.ReflTransGen t.Extends s' q).Nodup := by
      refine List.nodup_cons.mpr ⟨fun hmem => ?_, ?_⟩
      · exact hac.not_reaches h (of_decide_eq_true (List.mem_filter.mp hmem).2)
      · refine List.Nodup.filter _ (List.Nodup.map ?_ List.nodup_range)
        intro i j hij
        simpa using hij
    refine (List.subperm_of_subset hnd fun q hq => ?_).length_le
    rcases List.mem_cons.mp hq with rfl | hq
    · exact List.mem_filter.mpr ⟨mem_symbols.mpr h.contains, decide_eq_true .refl⟩
    · obtain ⟨hq, hr⟩ := List.mem_filter.mp hq
      exact List.mem_filter.mpr ⟨hq, decide_eq_true (.head h (of_decide_eq_true hr))⟩
  unfold rank
  omega

theorem rank_lt_of_reaches (hac : t.Acyclic) (hcl : t.Closed) (h : Relation.TransGen t.Extends s s') :
    t.rank s' < t.rank s := by
  induction h with
  | single h => exact rank_lt_of_extends hac hcl h
  | tail _ h ih => exact Nat.lt_trans (rank_lt_of_extends hac hcl h) ih

/-! ### Walks that avoid symbols -/

/-- A walk along the steps of `E` from one symbol to another that leaves none of the symbols on `path`. -/
inductive WalkOff (E : Symbol → Symbol → Prop) (path : List Symbol) : Symbol → Symbol → Prop
  | single {s s' : Symbol} (off : s ∉ path) (step : E s s') : WalkOff E path s s'
  | head {s m s' : Symbol} (off : s ∉ path) (step : E s m) (rest : WalkOff E path m s') : WalkOff E path s s'

/-- A walk that does not leave a symbol `v` again, or the part of it after `v` is left for the last time. -/
theorem WalkOff.cut {E : Symbol → Symbol → Prop} {path : List Symbol} (h : WalkOff E path s s') (v : Symbol) :
    WalkOff E (v :: path) s s' ∨ E v s' ∨ ∃ m, E v m ∧ WalkOff E (v :: path) m s' := by
  induction h with
  | @single s s' off step =>
    by_cases hv : s = v
    · exact Or.inr (Or.inl (hv ▸ step))
    · exact Or.inl (.single (by simp [hv, off]) step)
  | @head s m s' off step _ ih =>
    rcases ih with hrest | hlater
    · by_cases hv : s = v
      · exact Or.inr (Or.inr ⟨m, hv ▸ step, hrest⟩)
      · exact Or.inl (.head (by simp [hv, off]) step hrest)
    · exact Or.inr hlater

/-- A walk takes one step, or one step and a walk that does not come back to where it began. -/
theorem WalkOff.cases_simple {E : Symbol → Symbol → Prop} {path : List Symbol} (h : WalkOff E path s s') :
    s ∉ path ∧ (E s s' ∨ ∃ m, E s m ∧ WalkOff E (s :: path) m s') := by
  cases h with
  | single off step => exact ⟨off, Or.inl step⟩
  | @head _ m _ off step rest =>
    refine ⟨off, ?_⟩
    rcases rest.cut s with hrest | hlater
    · exact Or.inr ⟨m, step, hrest⟩
    · exact hlater

theorem WalkOff.of_transGen {E : Symbol → Symbol → Prop} (h : Relation.TransGen E s s') : WalkOff E [] s s' := by
  induction h using Relation.TransGen.head_induction_on with
  | single step => exact .single List.not_mem_nil step
  | head step _ ih => exact .head List.not_mem_nil step ih

end Table

end Nominal
