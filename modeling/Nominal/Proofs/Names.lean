import Nominal.Name.FullName
import Std.Data.HashMap.Lemmas

/-! A pool finds exactly the names it has handed out, and its numbers keep their names while it grows. A full name that
    is taken apart and stored is put together again. -/

namespace Nominal

namespace NamePool

variable {pool pool' pool'' : NamePool} {a : Atom} {s x : String}

/-- The pool finds a name under the number that stands for it, and zero stands for the empty name. -/
structure Faithful (pool : NamePool) : Prop where
  get?_iff : ∀ s a, pool.get? s = some a ↔ pool.text? a = some s
  empty : pool.text? Atom.empty = some ""

/-- Numbers that stand for a name in the first pool stand for it in the second. -/
def Grows (pool pool' : NamePool) : Prop := ∀ a s, pool.text? a = some s → pool'.text? a = some s

theorem Grows.refl (pool : NamePool) : Grows pool pool := fun _ _ h => h

theorem Grows.trans (h : Grows pool pool') (h' : Grows pool' pool'') : Grows pool pool'' := fun a s ha =>
  h' a s (h a s ha)

theorem Faithful.start : Faithful NamePool.empty := by
  refine ⟨fun s a => ?_, rfl⟩
  have hget : NamePool.empty.get? s = if "" = s then some Atom.empty else none := by
    simp [get?, NamePool.empty, Std.HashMap.getElem?_insert]
  have htext : NamePool.empty.text? a = if a = Atom.empty then some "" else none := by
    obtain ⟨_ | n⟩ := a <;> simp [text?, NamePool.empty, Atom.empty]
  rw [hget, htext]
  by_cases hs : "" = s
  · by_cases ha : a = Atom.empty
    · simp [hs, ha]
    · simp [hs, ha, Ne.symm ha]
  · by_cases ha : a = Atom.empty <;> simp [hs, ha]

theorem text_of_text? {a : Atom} {s : String} (h : pool.text? a = some s) : pool.text a = s := by
  rw [text, h]
  rfl

/-- What storing a name does: the pool grows, and the number it hands out stands for the name. -/
structure Stores (pool pool' : NamePool) (a : Atom) (s : String) : Prop where
  faithful : pool'.Faithful
  grows : pool.Grows pool'
  text? : pool'.text? a = some s

theorem Faithful.intern (h : pool.Faithful) (s : String) : Stores pool (pool.intern s).1 (pool.intern s).2 s := by
  unfold NamePool.intern
  cases hs : pool.get? s with
  | some a => exact ⟨h, .refl pool, (h.get?_iff s a).mp hs⟩
  | none =>
    have hgrows : Grows pool ⟨pool.texts.push s, pool.ids.insert s ⟨pool.texts.size⟩⟩ := by
      intro a x hx
      obtain ⟨hlt, -⟩ := Array.getElem?_eq_some_iff.mp hx
      rw [NamePool.text?, Array.getElem?_push, if_neg (Nat.ne_of_lt hlt)]
      exact hx
    refine ⟨⟨fun x a => ?_, hgrows _ _ h.empty⟩, hgrows, by simp [NamePool.text?]⟩
    have hold := h.get?_iff x a
    rw [NamePool.get?, NamePool.text?] at hold
    rw [NamePool.get?, NamePool.text?, Std.HashMap.getElem?_insert, Array.getElem?_push]
    by_cases ha : a.index = pool.texts.size
    · have hout : pool.texts[a.index]? = none := by simp [ha]
      obtain ⟨n⟩ := a
      cases ha
      by_cases hx : s = x <;> simp_all
    · have hne : (⟨pool.texts.size⟩ : Atom) ≠ a := fun h => ha (h ▸ rfl)
      by_cases hx : s = x
      · subst hx
        have hnone : pool.ids[s]? = none := hs
        simp_all
      · simp [ha, hx, hold]

theorem Faithful.internAll (h : pool.Faithful) (ss : List String) :
    (pool.internAll ss).1.Faithful ∧ pool.Grows (pool.internAll ss).1 ∧
      (pool.internAll ss).2.map (pool.internAll ss).1.text? = ss.map some := by
  induction ss generalizing pool with
  | nil => exact ⟨h, .refl pool, rfl⟩
  | cons s ss ih =>
    obtain ⟨hf, hg, ht⟩ := h.intern s
    obtain ⟨hf', hg', ht'⟩ := ih hf
    refine ⟨hf', hg.trans hg', ?_⟩
    rw [NamePool.internAll, List.map_cons, List.map_cons, ht', hg' _ _ ht]

theorem Faithful.common : Faithful NamePool.common := (Faithful.start.internAll commonNames).1

theorem Grows.get? (hg : pool.Grows pool') (h : pool.Faithful) (h' : pool'.Faithful) (hs : pool.get? s = some a) :
    pool'.get? s = some a :=
  (h'.get?_iff s a).mpr (hg a s ((h.get?_iff s a).mp hs))

theorem Faithful.text?_inj (h : pool.Faithful) {b : Atom} (ha : pool.text? a = some s) (hb : pool.text? b = some s) :
    a = b := by
  rw [← h.get?_iff] at ha hb
  exact Option.some.inj (ha.symm.trans hb)

theorem Faithful.atom_ne (h : pool.Faithful) {b : Atom} (ha : pool.text? a = some s) (hb : pool.get? x = some b)
    (hx : x ≠ s) : a ≠ b := by
  rintro rfl
  exact hx (Option.some.inj (((h.get?_iff x a).mp hb).symm.trans ha))

/-- Where a number stands among others, its name stands among theirs. -/
theorem Faithful.idxOf?_eq (h : pool.Faithful) (ha : pool.text? a = some s) {atoms : List Atom} {texts : List String}
    (hat : atoms.map pool.text? = texts.map some) : atoms.idxOf? a = texts.idxOf? s := by
  induction atoms generalizing texts with
  | nil =>
    cases texts with
    | nil => rfl
    | cons x texts => simp at hat
  | cons b atoms ih =>
    cases texts with
    | nil => simp at hat
    | cons x texts =>
      rw [List.map_cons, List.map_cons, List.cons.injEq] at hat
      have hbx : b = a ↔ x = s := by
        constructor
        · rintro rfl
          exact Option.some.inj (hat.1.symm.trans ha)
        · rintro rfl
          exact h.text?_inj hat.1 ha
      rw [List.idxOf?_cons, List.idxOf?_cons, ih hat.2]
      by_cases hx : x = s <;> simp [hx, hbx]

end NamePool

/-! ### Full names -/

namespace FullName

open NamePool

variable {pool pool' : NamePool}

theorem splitLastDot_eq {l before after : List Char} (h : splitLastDot l = some (before, after)) :
    l = before ++ '.' :: after := by
  induction l generalizing before with
  | nil => cases h
  | cons c rest ih =>
    rw [splitLastDot] at h
    cases hr : splitLastDot rest with
    | some p =>
      rw [hr] at h
      cases h
      rw [ih hr, List.cons_append]
    | none =>
      rw [hr] at h
      dsimp only at h
      split at h
      · cases h
        simp_all
      · cases h

theorem splitLastDot_of_not_mem {l : List Char} (h : '.' ∉ l) : splitLastDot l = none := by
  induction l with
  | nil => rfl
  | cons c l ih =>
    rw [List.mem_cons, not_or] at h
    rw [splitLastDot, ih h.2]
    simp [Ne.symm h.1]

theorem splitLastDot_append {before after : List Char} (h : '.' ∉ after) :
    splitLastDot (before ++ '.' :: after) = some (before, after) := by
  induction before with
  | nil => simp [splitLastDot, splitLastDot_of_not_mem h]
  | cons c before ih => rw [List.cons_append, splitLastDot, ih]

theorem not_mem_of_splitLastDot_eq_none {l : List Char} (h : splitLastDot l = none) : '.' ∉ l := by
  induction l with
  | nil => exact List.not_mem_nil
  | cons c rest ih =>
    rw [splitLastDot] at h
    split at h
    · cases h
    · rename_i hr
      split at h
      · cases h
      · rename_i hc
        rw [List.mem_cons, not_or]
        exact ⟨Ne.symm hc, ih hr⟩

theorem not_mem_of_splitLastDot {l before after : List Char} (h : splitLastDot l = some (before, after)) :
    '.' ∉ after := by
  induction l generalizing before with
  | nil => cases h
  | cons c rest ih =>
    rw [splitLastDot] at h
    cases hr : splitLastDot rest with
    | some p =>
      rw [hr] at h
      cases h
      exact ih hr
    | none =>
      rw [hr] at h
      dsimp only at h
      split at h
      · cases h
        exact not_mem_of_splitLastDot_eq_none hr
      · cases h

/-- The dotted name of a namespace and a name. -/
def join (space name : String) : String := if space = "" then name else space ++ "." ++ name

/-- Names with a dot in front of the only other part lose it. -/
def Regular (dotted : String) : Prop := (splitLastDot dotted.toList).map Prod.fst ≠ some []

instance (dotted : String) : Decidable (Regular dotted) := inferInstanceAs (Decidable (_ ≠ _))

theorem join_parts {dotted : String} (h : Regular dotted) : join (parts dotted).1 (parts dotted).2 = dotted := by
  unfold parts
  unfold Regular at h
  cases hs : splitLastDot dotted.toList with
  | none => simp [join]
  | some p =>
    obtain ⟨before, after⟩ := p
    have hne : String.ofList before ≠ "" := by
      intro hb
      have hnil : before = [] := by simpa using congrArg String.toList hb
      exact h (by rw [hs, hnil]; rfl)
    rw [join, if_neg hne]
    apply String.toList_inj.mp
    simp [splitLastDot_eq hs]

theorem text_eq_join (h : pool.Faithful) {full : FullName} {space name : String}
    (hs : pool.text? full.space = some space) (hn : pool.text? full.name = some name) :
    full.text pool = join space name := by
  have hempty : full.space.isEmpty = true ↔ space = "" := by
    have hatom : full.space.isEmpty = true ↔ full.space = Atom.empty := by
      obtain ⟨⟨n⟩, -⟩ := full
      simp [Atom.isEmpty, Atom.empty]
    rw [hatom]
    constructor
    · intro he
      rw [he, h.empty] at hs
      exact (Option.some.inj hs).symm
    · intro he
      rw [he] at hs
      exact h.text?_inj hs h.empty
  unfold FullName.text join
  simp only [hempty, NamePool.text_of_text? hs, NamePool.text_of_text? hn]

theorem text_of_parts (h : pool.Faithful) {full : FullName} {dotted : String} (hr : Regular dotted)
    (hs : pool.text? full.space = some (parts dotted).1) (hn : pool.text? full.name = some (parts dotted).2) :
    full.text pool = dotted := by
  rw [text_eq_join h hs hn, join_parts hr]

theorem ofText_stores (h : pool.Faithful) (dotted : String) :
    (ofText pool dotted).1.Faithful ∧ pool.Grows (ofText pool dotted).1 ∧
      (ofText pool dotted).1.text? (ofText pool dotted).2.space = some (parts dotted).1 ∧
      (ofText pool dotted).1.text? (ofText pool dotted).2.name = some (parts dotted).2 := by
  obtain ⟨hf, hg, ht⟩ := h.intern (parts dotted).1
  obtain ⟨hf', hg', ht'⟩ := hf.intern (parts dotted).2
  exact ⟨hf', hg.trans hg', hg' _ _ ht, ht'⟩

end FullName

end Nominal
