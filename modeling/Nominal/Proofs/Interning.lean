import Mathlib.Data.List.Nodup
import Nominal.Proofs.Names

/-! A pool over a whole run of requests. Storing a name puts it behind all others, unless it is there already. From this
    it follows that the list of names never repeats itself, that names and numbers stand for each other one to one, and
    that neither is ever given to anything else. -/

namespace Nominal

namespace NamePool

/-- What is asked of a pool. -/
inductive Request where
  | intern (s : String)
  | get (s : String)
  | resolve (a : Atom)
  | tryResolve (a : Atom)
  | read (dotted : String)

/-- One request. Only storing a name and reading a dotted one can change the pool. -/
def step (pool : NamePool) : Request → NamePool
  | .intern s => (pool.intern s).1
  | .read dotted => (FullName.ofText pool dotted).1
  | .get _ | .resolve _ | .tryResolve _ => pool

def run (pool : NamePool) (requests : List Request) : NamePool := requests.foldl step pool

/-- The pool with the empty name only, or the one that knows the common names. -/
def initial (common : Bool) : NamePool := if common then .common else .empty

variable {pool : NamePool} {a : Atom} {s : String}

/-! ### Storing a name -/

theorem Faithful.get?_isSome_iff (h : pool.Faithful) : (pool.get? s).isSome ↔ s ∈ pool.texts.toList := by
  rw [Option.isSome_iff_exists, List.mem_iff_getElem?]
  constructor
  · rintro ⟨⟨i⟩, ha⟩
    refine ⟨i, ?_⟩
    rw [Array.getElem?_toList]
    exact (h.get?_iff s ⟨i⟩).mp ha
  · rintro ⟨i, hi⟩
    rw [Array.getElem?_toList] at hi
    exact ⟨⟨i⟩, (h.get?_iff s ⟨i⟩).mpr hi⟩

theorem Faithful.texts_intern (h : pool.Faithful) (s : String) :
    (pool.intern s).1.texts.toList =
      if s ∈ pool.texts.toList then pool.texts.toList else pool.texts.toList ++ [s] := by
  unfold NamePool.intern
  cases hs : pool.get? s with
  | some a =>
    have hmem : s ∈ pool.texts.toList := h.get?_isSome_iff.mp (by rw [hs]; rfl)
    rw [if_pos hmem]
  | none =>
    have hmem : s ∉ pool.texts.toList := fun hmem => by
      have hsome := h.get?_isSome_iff.mpr hmem
      rw [hs] at hsome
      cases hsome
    rw [if_neg hmem, Array.toList_push]

theorem Faithful.nodup (h : pool.Faithful) : pool.texts.toList.Nodup := by
  rw [List.nodup_iff_getElem?_ne_getElem?]
  intro i j hij hj heq
  have hsome : pool.texts.toList[j]? = some pool.texts.toList[j] := List.getElem?_eq_getElem hj
  have hi : pool.text? ⟨i⟩ = some pool.texts.toList[j] := by
    rw [NamePool.text?, ← Array.getElem?_toList, heq, hsome]
  have hj' : pool.text? ⟨j⟩ = some pool.texts.toList[j] := by
    rw [NamePool.text?, ← Array.getElem?_toList, hsome]
  cases h.text?_inj hi hj'
  exact Nat.lt_irrefl i hij

theorem Faithful.head? (h : pool.Faithful) : pool.texts.toList.head? = some "" := by
  have hfirst := h.empty
  rw [NamePool.text?, ← Array.getElem?_toList] at hfirst
  rw [List.head?_eq_getElem?]
  exact hfirst

/-! ### Runs -/

theorem Faithful.step (h : pool.Faithful) (r : Request) : (pool.step r).Faithful ∧ pool.Grows (pool.step r) := by
  cases r with
  | intern s => exact ⟨(h.intern s).faithful, (h.intern s).grows⟩
  | read dotted =>
    obtain ⟨hfaithful, hgrows, -⟩ := FullName.ofText_stores h dotted
    exact ⟨hfaithful, hgrows⟩
  | get s => exact ⟨h, .refl pool⟩
  | resolve a => exact ⟨h, .refl pool⟩
  | tryResolve a => exact ⟨h, .refl pool⟩

theorem Faithful.run (h : pool.Faithful) (requests : List Request) :
    (pool.run requests).Faithful ∧ pool.Grows (pool.run requests) := by
  induction requests generalizing pool with
  | nil => exact ⟨h, .refl pool⟩
  | cons r requests ih =>
    obtain ⟨hstep, hgrows⟩ := h.step r
    obtain ⟨hrun, hgrows'⟩ := ih hstep
    exact ⟨hrun, hgrows.trans hgrows'⟩

theorem Faithful.begin (common : Bool) : (initial common).Faithful := by
  cases common with
  | false => exact .start
  | true => exact .common

/-- Names and numbers of the pool correspond one to one, and storing a name adds it if it is new and nothing
    otherwise. -/
structure Bijective (pool : NamePool) : Prop where
  nodup : pool.texts.toList.Nodup
  first : pool.texts.toList.head? = some ""
  get?_iff : ∀ s a, pool.get? s = some a ↔ pool.text? a = some s
  resolves : ∀ s, (pool.intern s).1.text? (pool.intern s).2 = some s
  empty_iff : ∀ s, (pool.intern s).2 = Atom.empty ↔ s = ""
  size : ∀ s, (pool.intern s).1.size = if s ∈ pool.texts.toList then pool.size else pool.size + 1

theorem Faithful.bijective (h : pool.Faithful) : Bijective pool := by
  refine ⟨h.nodup, h.head?, h.get?_iff, fun s => (h.intern s).text?, fun s => ?_, fun s => ?_⟩
  · obtain ⟨hf, -, htext⟩ := h.intern s
    constructor
    · intro hempty
      rw [hempty, hf.empty] at htext
      exact (Option.some.inj htext).symm
    · rintro rfl
      exact hf.text?_inj htext hf.empty
  · rw [size, size, ← Array.length_toList, ← Array.length_toList, h.texts_intern s]
    split <;> simp

/-- Later on, numbers and names still stand for each other as before. -/
structure Settled (pool later : NamePool) : Prop where
  text? : ∀ a s, pool.text? a = some s → later.text? a = some s
  get? : ∀ s a, pool.get? s = some a → later.get? s = some a

/-- A name that is stored again gets the number that it has, and another name gets another number. -/
theorem Faithful.intern_eq_iff (h : pool.Faithful) (ha : pool.text? a = some s) (s' : String) :
    a = (pool.intern s').2 ↔ s = s' := by
  obtain ⟨hf, hgrows, htext⟩ := h.intern s'
  have ha' : (pool.intern s').1.text? a = some s := hgrows a s ha
  constructor
  · intro heq
    rw [← heq, ha'] at htext
    exact Option.some.inj htext
  · rintro rfl
    exact hf.text?_inj ha' htext

/-- After any run of requests, the pool maps names to numbers one to one. Whatever is asked for later, the names and
    numbers in use stay with each other, and two names that are stored at any two times get the same number exactly if
    they are equal. -/
theorem bijective_run (common : Bool) (requests further : List Request) :
    let pool := (initial common).run requests
    Bijective pool ∧ Settled pool (pool.run further) ∧
      ∀ s s', (pool.intern s).2 = (((pool.intern s).1.run further).intern s').2 ↔ s = s' := by
  intro pool
  have h : pool.Faithful := ((Faithful.begin common).run requests).1
  refine ⟨h.bijective, ?_, fun s s' => ?_⟩
  · obtain ⟨hlater, hgrows⟩ := h.run further
    exact ⟨hgrows, fun s a hs => hgrows.get? h hlater hs⟩
  · obtain ⟨hf, -, htext⟩ := h.intern s
    obtain ⟨hlater, hgrows⟩ := hf.run further
    exact hlater.intern_eq_iff (hgrows _ _ htext) s'

end NamePool

end Nominal
