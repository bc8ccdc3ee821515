import Nominal.Search

/-! Computations that carry a state, and what a guarded search does to its guard. A relation between states that holds
    across the steps of a computation holds across the whole of it (`Attempt.Keeps`). Working on a key leaves the guard
    as it was, except for the number of attempts (`Guard.Balanced`). -/

namespace Nominal

namespace Attempt

variable {ε s α β : Type} {x : Attempt ε s α} {f : α → Attempt ε s β} {t u v : s}

theorem bind_apply (x : Attempt ε s α) (f : α → Attempt ε s β) (t : s) :
    (x >>= f) t = match x t with
      | (.ok a, u) => f a u
      | (.error e, u) => (.error e, u) := rfl

theorem bind_of_ok {a : α} (h : x t = (.ok a, u)) : (x >>= f) t = f a u := by
  rw [bind_apply, h]

theorem bind_of_error {e : ε} (h : x t = (.error e, u)) : (x >>= f) t = (.error e, u) := by
  rw [bind_apply, h]

theorem bind_eq_ok {b : β} : (x >>= f) t = (.ok b, v) ↔ ∃ a u, x t = (.ok a, u) ∧ f a u = (.ok b, v) := by
  constructor
  · intro h
    rcases hx : x t with ⟨_ | a, u⟩
    · rw [bind_of_error hx] at h
      cases h
    · rw [bind_of_ok hx] at h
      exact ⟨a, u, rfl, h⟩
  · rintro ⟨a, u, hx, hf⟩
    rw [bind_of_ok hx, hf]

/-! ### Relations that hold across a computation -/

/-- The states before and after the computation are related, whether it succeeds or fails. -/
def Keeps (R : s → s → Prop) (x : Attempt ε s α) : Prop := ∀ t, R t (x t).2

namespace Keeps

variable {R : s → s → Prop}

theorem of_eq (h : Keeps R x) {r : Except ε α} (hx : x t = (r, u)) : R t u := by
  have := h t
  rw [hx] at this
  exact this

theorem pure (hr : ∀ t, R t t) (a : α) : Keeps R (Pure.pure a : Attempt ε s α) := hr

theorem ofExcept (hr : ∀ t, R t t) (r : Except ε α) : Keeps R (Attempt.ofExcept r : Attempt ε s α) := hr

theorem bind (ht : ∀ {t u v}, R t u → R u v → R t v) (hx : Keeps R x) (hf : ∀ a, Keeps R (f a)) :
    Keeps R (x >>= f) := by
  intro t
  have h := hx t
  rcases hxt : x t with ⟨_ | a, u⟩
  · rw [bind_of_error hxt]
    rw [hxt] at h
    exact h
  · rw [bind_of_ok hxt]
    rw [hxt] at h
    exact ht h (hf a u)

end Keeps

end Attempt

/-! ### The guard -/

namespace Guard

variable {κ : Type} {g g' g'' : Guard κ}

theorem countUp_le {n : Nat} (h : n ≤ Profile.ceiling) : countUp n ≤ Profile.ceiling := by
  unfold countUp
  split <;> omega

theorem countUp_min (n : Nat) : countUp (min n Profile.ceiling) = min (n + 1) Profile.ceiling := by
  unfold countUp
  split <;> omega

theorem le_countUp (n : Nat) : n ≤ countUp n := by
  unfold countUp
  split <;> omega

/-- The guard watches the same keys within the same limits, and no rule was broken on the way. -/
structure Balanced (g g' : Guard κ) : Prop where
  active : g'.active = g.active
  depth : g'.depth = g.depth
  maxDepth : g'.maxDepth = g.maxDepth
  maxIterations : g'.maxIterations = g.maxIterations
  misuse : g'.misuse = g.misuse
  counted : g.iterations ≤ Profile.ceiling → g'.iterations ≤ Profile.ceiling

theorem Balanced.refl (g : Guard κ) : Balanced g g := ⟨rfl, rfl, rfl, rfl, rfl, id⟩

theorem Balanced.trans (h : Balanced g g') (h' : Balanced g' g'') : Balanced g g'' where
  active := h'.active.trans h.active
  depth := h'.depth.trans h.depth
  maxDepth := h'.maxDepth.trans h.maxDepth
  maxIterations := h'.maxIterations.trans h.maxIterations
  misuse := h'.misuse.trans h.misuse
  counted := h'.counted ∘ h.counted

theorem restart_of_inactive (h : g.active = []) :
    g.restart = { g with depth := 0, iterations := 0, exceeded := false } := by
  simp [restart, reset, h]

/-- The guard after a counted attempt. -/
def tried (g : Guard κ) : Guard κ := { g with iterations := countUp g.iterations, attempts := g.attempts + 1 }

theorem Balanced.tried (g : Guard κ) : Balanced g g.tried := ⟨rfl, rfl, rfl, rfl, rfl, countUp_le⟩

/-- The guard after it turned a key down at a limit. -/
def refused (g : Guard κ) : Guard κ := { g.tried with exceeded := true }

theorem Balanced.refused (g : Guard κ) : Balanced g g.refused := ⟨rfl, rfl, rfl, rfl, rfl, countUp_le⟩

/-- The guard after it let a key in. -/
def entered (g : Guard κ) (k : κ) : Guard κ :=
  { g.tried with active := k :: g.active, depth := g.depth + 1, deepest := max g.deepest (g.depth + 1) }

variable [DecidableEq κ] {k : κ}

theorem isActive_iff : g.isActive k = true ↔ k ∈ g.active := by
  simp [isActive]

/-- The four answers to an attempt, each with what it says about the guard. -/
theorem enter_cases (g : Guard κ) (k : κ) :
    (g.maxIterations < countUp g.iterations ∧ g.enter k = (g.refused, .exhausted)) ∨
    (g.maxDepth ≤ g.depth ∧ g.enter k = (g.refused, .tooDeep)) ∨
    (g.depth < g.maxDepth ∧ k ∈ g.active ∧ g.enter k = (g.tried, .cycle)) ∨
    (g.depth < g.maxDepth ∧ k ∉ g.active ∧ g.enter k = (g.entered k, .entered)) := by
  by_cases hi : countUp g.iterations > g.maxIterations
  · exact Or.inl ⟨hi, by simp [enter, hi, refused, Guard.tried]⟩
  · by_cases hd : g.depth ≥ g.maxDepth
    · exact Or.inr (Or.inl ⟨hd, by simp [enter, hi, hd, refused, Guard.tried]⟩)
    · have hd' : g.depth < g.maxDepth := Nat.not_le.mp hd
      by_cases ha : k ∈ g.active
      · have ha' := isActive_iff.mpr ha
        exact Or.inr (Or.inr (Or.inl ⟨hd', ha, by simp [enter, hi, hd, ha', Guard.tried]⟩))
      · have ha' : g.isActive k = false := by
          rw [Bool.eq_false_iff, Ne, isActive_iff]
          exact ha
        exact Or.inr (Or.inr (Or.inr ⟨hd', ha, by simp [enter, hi, hd, ha', entered, Guard.tried]⟩))

/-- Leaving the key that was entered last. -/
theorem release_of_active {l : List κ} (h : g.active = k :: l) :
    g.release k = { g with active := l, depth := g.depth - 1 } := by
  simp [release, leave, isActive, h]

/-- A guard that is balanced from the entry of a key on is balanced from before the entry once the key is left. -/
theorem Balanced.release (h : Balanced (g.entered k) g') : Balanced g (g'.release k) := by
  rw [release_of_active h.active]
  refine ⟨rfl, ?_, h.maxDepth, h.maxIterations, h.misuse, fun hg => h.counted (countUp_le hg)⟩
  show g'.depth - 1 = g.depth
  rw [h.depth]
  exact Nat.add_sub_cancel _ _

end Guard

/-! ### Guarded searches -/

namespace SearchM

variable {κ ρ α : Type}

theorem view_bind {β : Type} (f : ρ → α) (next : α → SearchM κ ρ β) (s : Search κ ρ) :
    (view f >>= next) s = next (f s.gathered) s := rfl

/-- Across a part of a search the guard is balanced, and what is gathered changes as `Q` allows. -/
structure Across (Q : ρ → ρ → Prop) (s t : Search κ ρ) : Prop where
  guard : Guard.Balanced s.guard t.guard
  gathered : Q s.gathered t.gathered

variable [DecidableEq κ] {key : κ} {onCycle work : SearchM κ ρ α}

/-- What comes of working on a key: the guard turns it down at a limit, or finds it in work, or lets it in. -/
theorem within_cases (key : κ) (onCycle work : SearchM κ ρ α) (s : Search κ ρ) :
    (s.guard.maxIterations < Guard.countUp s.guard.iterations ∧
      within key onCycle work s = (.error (.exhausted s.guard.maxIterations), { s with guard := s.guard.refused })) ∨
    (s.guard.maxDepth ≤ s.guard.depth ∧
      within key onCycle work s = (.error (.tooDeep s.guard.maxDepth), { s with guard := s.guard.refused })) ∨
    (s.guard.depth < s.guard.maxDepth ∧ key ∈ s.guard.active ∧
      within key onCycle work s = onCycle { s with guard := s.guard.tried }) ∨
    (s.guard.depth < s.guard.maxDepth ∧ key ∉ s.guard.active ∧
      within key onCycle work s =
        ((work { s with guard := s.guard.entered key }).1,
          { (work { s with guard := s.guard.entered key }).2 with
            guard := (work { s with guard := s.guard.entered key }).2.guard.release key })) := by
  rcases s.guard.enter_cases key with ⟨hi, he⟩ | ⟨hd, he⟩ | ⟨hd, ha, he⟩ | ⟨hd, ha, he⟩
  · exact Or.inl ⟨hi, by rw [within, he]; rfl⟩
  · exact Or.inr (Or.inl ⟨hd, by rw [within, he]; rfl⟩)
  · exact Or.inr (Or.inr (Or.inl ⟨hd, ha, by rw [within, he]⟩))
  · exact Or.inr (Or.inr (Or.inr ⟨hd, ha, by rw [within, he]⟩))

theorem within_across {Q : ρ → ρ → Prop} (hQ : ∀ f, Q f f) (hc : Attempt.Keeps (Across Q) onCycle)
    (hw : Attempt.Keeps (Across Q) work) : Attempt.Keeps (Across Q) (within key onCycle work) := by
  intro s
  rcases within_cases key onCycle work s with ⟨-, h⟩ | ⟨-, h⟩ | ⟨-, -, h⟩ | ⟨-, -, h⟩ <;> rw [h]
  · exact ⟨.refused s.guard, hQ _⟩
  · exact ⟨.refused s.guard, hQ _⟩
  · have hcut := hc { s with guard := s.guard.tried }
    exact ⟨(Guard.Balanced.tried s.guard).trans hcut.guard, hcut.gathered⟩
  · have hwork := hw { s with guard := s.guard.entered key }
    exact ⟨hwork.guard.release, hwork.gathered⟩

end SearchM

end Nominal
