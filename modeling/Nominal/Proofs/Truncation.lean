import Nominal.Proofs.Interfaces

/-! Interfaces are listed in full or not at all. A search under a guard that fails has met one of the guard's limits,
    and says which (`SearchM.FailsAtLimit`). So whatever list is found within limits is the whole list, and without
    limits it is always found. -/

namespace Nominal

/-! ### Failures of a search -/

namespace Guard

variable {κ : Type}

/-- What a search says that has met a limit of its guard. -/
def refusals (g : Guard κ) : List Failure := [.tooDeep g.maxDepth, .exhausted g.maxIterations]

theorem refusals_release [DecidableEq κ] (g : Guard κ) (k : κ) : (g.release k).refusals = g.refusals := by
  unfold release leave
  by_cases h : g.isActive k = true
  · rw [if_pos h]
    rfl
  · rw [if_neg h]
    rfl

end Guard

namespace SearchM

variable {κ ρ α β : Type} {x : SearchM κ ρ α} {f : α → SearchM κ ρ β}

/-- The search leaves the limits of its guard as they are, and it fails only where it meets one of them. -/
structure FailsAtLimit (x : SearchM κ ρ α) : Prop where
  limits : ∀ s, (x s).2.guard.refusals = s.guard.refusals
  failure : ∀ s e, (x s).1 = .error e → e ∈ s.guard.refusals

/-- What leaves the guard alone and does not fail. -/
theorem FailsAtLimit.still (hok : ∀ s, ∃ a, (x s).1 = .ok a) (hguard : ∀ s, (x s).2.guard = s.guard) :
    FailsAtLimit x where
  limits s := by rw [hguard]
  failure s e he := by
    obtain ⟨a, ha⟩ := hok s
    cases ha.symm.trans he

theorem FailsAtLimit.pure (a : α) : FailsAtLimit (Pure.pure a : SearchM κ ρ α) :=
  .still (fun _ => ⟨a, rfl⟩) fun _ => rfl

theorem FailsAtLimit.bind (hx : FailsAtLimit x) (hf : ∀ a, FailsAtLimit (f a)) : FailsAtLimit (x >>= f) := by
  refine ⟨fun s => ?_, fun s e he => ?_⟩
  · have hlimits := hx.limits s
    rcases hxs : x s with ⟨e | a, t⟩ <;> rw [hxs] at hlimits
    · rw [Attempt.bind_of_error hxs]
      exact hlimits
    · rw [Attempt.bind_of_ok hxs]
      exact ((hf a).limits t).trans hlimits
  · have hlimits := hx.limits s
    have hfailure := hx.failure s
    rcases hxs : x s with ⟨e' | a, t⟩ <;> rw [hxs] at hlimits hfailure
    · rw [Attempt.bind_of_error hxs] at he
      cases he
      exact hfailure e rfl
    · rw [Attempt.bind_of_ok hxs] at he
      rw [← hlimits]
      exact (hf a).failure t e he

theorem FailsAtLimit.forM {γ : Type} {l : List γ} {g : γ → SearchM κ ρ PUnit} (h : ∀ i ∈ l, FailsAtLimit (g i)) :
    FailsAtLimit (l.forM g) := by
  induction l with
  | nil => exact .pure _
  | cons i l ih => exact .bind (h i List.mem_cons_self) fun _ => ih fun j hj => h j (List.mem_cons_of_mem i hj)

/-- A key is turned down at a limit of the guard, and the work on it is done under the same limits. -/
theorem FailsAtLimit.within [DecidableEq κ] {key : κ} {onCycle work : SearchM κ ρ α} (hcycle : FailsAtLimit onCycle)
    (hwork : FailsAtLimit work) : FailsAtLimit (within key onCycle work) := by
  refine ⟨fun s => ?_, fun s e he => ?_⟩
  · rcases within_cases key onCycle work s with ⟨-, h⟩ | ⟨-, h⟩ | ⟨-, -, h⟩ | ⟨-, -, h⟩ <;> rw [h]
    · rfl
    · rfl
    · exact hcycle.limits { s with guard := s.guard.tried }
    · exact (Guard.refusals_release _ key).trans (hwork.limits { s with guard := s.guard.entered key })
  · rcases within_cases key onCycle work s with ⟨-, h⟩ | ⟨-, h⟩ | ⟨-, -, h⟩ | ⟨-, -, h⟩ <;> rw [h] at he
    · cases he
      exact List.mem_cons_of_mem _ List.mem_cons_self
    · cases he
      exact List.mem_cons_self
    · exact hcycle.failure { s with guard := s.guard.tried } e he
    · exact hwork.failure { s with guard := s.guard.entered key } e he

end SearchM

/-! ### Interfaces -/

namespace FlattenM

open SearchM

variable {table : Table} {recur : TypeRef → FlattenM Unit}

theorem expand_failsAtLimit (hrec : ∀ r, FailsAtLimit (recur r)) (r : TypeRef) (d : Declaration) :
    FailsAtLimit (expand recur r d) := by
  have hlist (i : TypeRef) : FailsAtLimit (list i) := .still (fun _ => ⟨(), rfl⟩) fun _ => rfl
  refine .bind (.forM fun i _ => .bind (hlist _) fun _ => hrec _) fun _ => ?_
  cases d.base? with
  | none => exact .pure ()
  | some base => exact hrec _

theorem visit_failsAtLimit (hrec : ∀ r, FailsAtLimit (recur r)) (r : TypeRef) : FailsAtLimit (visit table recur r) := by
  unfold visit
  split
  · exact .pure ()
  · exact .within (.pure ()) (expand_failsAtLimit hrec r _)

theorem collect_failsAtLimit (table : Table) : ∀ (room : Nat) (r : TypeRef), FailsAtLimit (collect table room r)
  | 0, r => visit_failsAtLimit (fun _ => .pure ()) r
  | room + 1, r => visit_failsAtLimit (collect_failsAtLimit table room) r

end FlattenM

namespace Table

variable {t : Table} {s : Symbol} {p : Profile} {e : Failure}

theorem interfacesWithin_error (h : t.interfacesWithin s p = .error e) :
    e = .tooDeep p.maxDepth ∨ e = .exhausted p.maxIterations := by
  unfold interfacesWithin at h
  cases hd : t.get? s with
  | none =>
    rw [hd] at h
    cases h
  | some d =>
    simp only [hd] at h
    rcases hrun : t.flatten s d.arity p with ⟨e' | v, found⟩ <;> rw [hrun] at h
    · cases h
      have hmem := (FlattenM.collect_failsAtLimit t p.maxDepth (.opened s d.arity)).failure ⟨.ofProfile p, []⟩ e
        (congrArg Prod.fst hrun)
      exact List.mem_pair.mp hmem
    · cases h

/-- Within limits all interfaces of a symbol are listed, or the limit is named that was met; a list is never cut short.
    Without limits they are always listed. -/
theorem interfacesWithin_never_truncated (t : Table) (hsize : t.size < Profile.ceiling) (s : Symbol) :
    (∀ p : Profile, t.interfacesWithin s p = .error (.tooDeep p.maxDepth) ∨
      t.interfacesWithin s p = .error (.exhausted p.maxIterations) ∨ t.interfacesWithin s p = .ok (t.interfaces s)) ∧
    t.interfacesWithin s .unbounded = .ok (t.interfaces s) := by
  have hall : t.interfaces s = t.flattened s := interfaces_of_size hsize
  refine ⟨fun p => ?_, ?_⟩
  · cases h : t.interfacesWithin s p with
    | error e =>
      rcases interfacesWithin_error h with rfl | rfl
      · exact Or.inl rfl
      · exact Or.inr (Or.inl rfl)
    | ok found =>
      rw [hall, interfacesWithin_eq_flattened h]
      exact Or.inr (Or.inr rfl)
  · rw [hall]
    exact interfacesWithin_of_size hsize (Nat.le_refl _)

/-- Four levels and six attempts are enough for the walk through declarations that lead back to themselves, and it lists
    what the walk without limits lists; with less of either it stops. -/
theorem interfacesWithin_tangle :
    let all : List TypeRef := [⟨⟨2⟩, [.type ⟨1⟩ []]⟩, ⟨⟨2⟩, [.type ⟨2⟩ [.type ⟨1⟩ []]]⟩, ⟨⟨9⟩, []⟩]
    tangle.interfacesWithin ⟨1⟩ (.custom 3 6) = .error (.tooDeep 3) ∧
      tangle.interfacesWithin ⟨1⟩ (.custom 4 5) = .error (.exhausted 5) ∧
      tangle.interfacesWithin ⟨1⟩ (.custom 4 6) = .ok all ∧ tangle.interfaces ⟨1⟩ = all ∧
      tangle.interfacesWithin ⟨1⟩ .unbounded = .ok all := by
  intro all
  obtain ⟨hlimited, hunbounded⟩ := interfacesWithin_never_truncated tangle (by decide) ⟨1⟩
  have hlist : tangle.interfacesWithin ⟨1⟩ (.custom 4 6) = .ok all := by decide +kernel
  have hall : tangle.interfaces ⟨1⟩ = all := by
    rcases hlimited (.custom 4 6) with h | h | h
    · cases hlist.symm.trans h
    · cases hlist.symm.trans h
    · exact (Except.ok.inj (hlist.symm.trans h)).symm
  exact ⟨by decide +kernel, by decide +kernel, hlist, hall, hall ▸ hunbounded⟩

end Table

end Nominal
