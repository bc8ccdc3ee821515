import Mathlib.Data.Finset.Card
import Nominal.Proofs.Answers
import Nominal.Proofs.References
import Nominal.Proofs.Visit
import Nominal.Source.Catalogue

/-! Every reference matches itself, as far as the limits go. The search compares arguments with themselves and asks
    about each reference inside only once, for it remembers the matches it finds. So it counts the distinct references,
    and it never comes to the rules about supertypes. -/

namespace Nominal

theorem TypeRef.IsOpen.param_of_mem {x : TypeRef} (h : x.IsOpen) {a : TypeArg} (ha : a ∈ x.args) :
    ∃ p, a = .param p := by
  rw [h] at ha
  obtain ⟨i, -, rfl⟩ := List.mem_map.mp ha
  exact ⟨_, rfl⟩

namespace UnifyM

/-! ### References that are known to match themselves -/

/-- The search remembers that the references of `K` match themselves, and nothing about others and themselves. With a
    reference, `K` has those inside it. -/
structure Aware (K : Finset TypeRef) (s : Search Query Findings) : Prop where
  known : ∀ x, known s (x, x) = if x ∈ K then some .matched else none
  closed : ∀ x ∈ K, ∀ y ∈ x.references, y ∈ K

/-- The search can turn to the references of `P`: it is not at work on any of them, and no attempt came too often
    yet. -/
structure Poised (K P : Finset TypeRef) (room : Nat) (s : Search Query Findings) : Prop where
  aware : Aware K s
  idle : ∀ x ∈ P, (x, x) ∉ s.guard.active
  fits : Fits room s
  within : s.guard.iterations ≤ s.guard.maxIterations
  counted : s.guard.iterations ≤ Profile.ceiling

/-- What the counter shows when those of `P` were tried that are not in `K`. -/
def tally (K P : Finset TypeRef) (s : Search Query Findings) : Nat :=
  min (s.guard.iterations + (P \ K).card) Profile.ceiling

variable {α β : Type} {K P Q : Finset TypeRef} {n m room : Nat} {v : α} {w : β} {s t : Search Query Findings}

/-- What can come of a search that is to find `v` and has the references of `P` to match with themselves, nested `n`
    levels deep. It finds `v` and remembers them all, or it fails at a limit that is too low. -/
inductive Accounted (K P : Finset TypeRef) (n : Nat) (v : α) (s : Search Query Findings) :
    Except Failure α × Search Query Findings → Prop
  | answered {t : Search Query Findings} (guard : s.guard.Balanced t.guard) (aware : Aware (K ∪ P) t)
      (steps : t.guard.iterations = tally K P s) (within : tally K P s ≤ s.guard.maxIterations) :
        Accounted K P n v s (.ok v, t)
  | exhausted {t : Search Query Findings} (beyond : s.guard.maxIterations < tally K P s) :
      Accounted K P n v s (.error (.exhausted s.guard.maxIterations), t)
  | tooDeep {t : Search Query Findings} (beyond : s.guard.maxDepth < s.guard.depth + n) :
      Accounted K P n v s (.error (.tooDeep s.guard.maxDepth), t)

/-- The second search does what the first one does, and that is accounted for. -/
def Reflects (K P : Finset TypeRef) (n room : Nat) (v : α) (x x' : UnifyM α) : Prop :=
  ∀ s, Poised K P room s → x' s = x s ∧ Accounted K P n v s (x s)

/-! ### One after the other -/

theorem card_union_sdiff (K P Q : Finset TypeRef) : ((P ∪ Q) \ K).card = (P \ K).card + (Q \ (K ∪ P)).card := by
  have hunion : (P ∪ Q) \ K = P \ K ∪ Q \ (K ∪ P) := by
    ext x
    simp only [Finset.mem_sdiff, Finset.mem_union]
    tauto
  have hdisjoint : Disjoint (P \ K) (Q \ (K ∪ P)) := by
    rw [Finset.disjoint_left]
    intro x hx hx'
    simp only [Finset.mem_sdiff, Finset.mem_union] at hx hx'
    exact hx'.2 (.inr hx.1)
  rw [hunion, Finset.card_union_of_disjoint hdisjoint]

theorem tally_union (hsteps : t.guard.iterations = tally K P s) : tally (K ∪ P) Q t = tally K (P ∪ Q) s := by
  unfold tally at hsteps ⊢
  rw [hsteps, card_union_sdiff]
  omega

theorem tally_le_union (K P Q : Finset TypeRef) (s : Search Query Findings) : tally K P s ≤ tally K (P ∪ Q) s := by
  unfold tally
  rw [card_union_sdiff]
  omega

theorem Poised.left (h : Poised K (P ∪ Q) room s) : Poised K P room s :=
  { h with idle := fun x hx => h.idle x (Finset.mem_union_left Q hx) }

theorem Poised.next (h : Poised K (P ∪ Q) room s) (guard : s.guard.Balanced t.guard) (aware : Aware (K ∪ P) t)
    (steps : t.guard.iterations = tally K P s) (within : tally K P s ≤ s.guard.maxIterations) :
    Poised (K ∪ P) Q room t where
  aware := aware
  idle x hx := by
    rw [guard.active]
    exact h.idle x (Finset.mem_union_right P hx)
  fits := by
    unfold Fits
    rw [guard.maxDepth, guard.depth]
    exact h.fits
  within := by rwa [steps, guard.maxIterations]
  counted := guard.counted h.counted

/-- What is accounted for from a later state on is accounted for from the earlier one on. -/
theorem Accounted.after {o : Except Failure β × Search Query Findings} (h : Accounted (K ∪ P) Q m w t o)
    (guard : s.guard.Balanced t.guard) (steps : t.guard.iterations = tally K P s) :
    Accounted K (P ∪ Q) (max n m) w s o := by
  have htally : tally (K ∪ P) Q t = tally K (P ∪ Q) s := tally_union steps
  cases h with
  | answered guard' aware' steps' within' =>
    rw [Finset.union_assoc] at aware'
    rw [htally] at steps' within'
    rw [guard.maxIterations] at within'
    exact .answered (guard.trans guard') aware' steps' within'
  | exhausted beyond =>
    rw [htally, guard.maxIterations] at beyond
    rw [guard.maxIterations]
    exact .exhausted beyond
  | tooDeep beyond =>
    rw [guard.maxDepth, guard.depth] at beyond
    rw [guard.maxDepth]
    exact .tooDeep (by omega)

/-- Where all is known that is to be matched, nothing is counted. -/
theorem Poised.answered (hs : Poised K P room s) (hsubset : P ⊆ K) (hguard : t.guard = s.guard)
    (hknown : ∀ x, known t (x, x) = known s (x, x)) : Accounted K P n v s (.ok v, t) := by
  have htally : tally K P s = s.guard.iterations := by
    rw [tally, Finset.sdiff_eq_empty_iff_subset.mpr hsubset, Finset.card_empty, Nat.add_zero,
      Nat.min_eq_left hs.counted]
  refine .answered (hguard.symm ▸ .refl _) ?_ ?_ ?_
  · rw [Finset.union_eq_left.mpr hsubset]
    exact ⟨fun x => (hknown x).trans (hs.aware.known x), hs.aware.closed⟩
  · rw [hguard, htally]
  · rw [htally]
    exact hs.within

namespace Reflects

theorem pure : Reflects K ∅ 0 room v (Pure.pure v) (Pure.pure v) :=
  fun _ hs => ⟨rfl, hs.answered (Finset.empty_subset K) rfl fun _ => rfl⟩

theorem conclude (rule : Rule) (x : TypeRef) (answer : Unification) :
    Reflects K ∅ 0 room answer (UnifyM.conclude rule x x answer) (UnifyM.conclude rule x x answer) :=
  fun _ hs => ⟨rfl, hs.answered (Finset.empty_subset K) rfl fun _ => rfl⟩

theorem bind {x x' : UnifyM α} {f f' : α → UnifyM β} (hx : Reflects K P n room v x x')
    (hf : Reflects (K ∪ P) Q m room w (f v) (f' v)) : Reflects K (P ∪ Q) (max n m) room w (x >>= f) (x' >>= f') := by
  intro s hs
  obtain ⟨heq, hout⟩ := hx s hs.left
  rcases hxs : x s with ⟨r, t⟩
  rw [hxs] at heq hout
  cases hout with
  | answered guard aware steps within =>
    rw [Attempt.bind_of_ok hxs, Attempt.bind_of_ok heq]
    obtain ⟨heq', hout'⟩ := hf t (hs.next guard aware steps within)
    exact ⟨heq', hout'.after guard steps⟩
  | exhausted beyond =>
    rw [Attempt.bind_of_error hxs, Attempt.bind_of_error heq]
    exact ⟨rfl, .exhausted (Nat.lt_of_lt_of_le beyond (tally_le_union K P Q s))⟩
  | tooDeep beyond =>
    rw [Attempt.bind_of_error hxs, Attempt.bind_of_error heq]
    exact ⟨rfl, .tooDeep (by omega)⟩

/-- Nothing more is to be done after the references of `P`. -/
theorem last {x x' : UnifyM α} {f f' : α → UnifyM β} (hx : Reflects K P n room v x x')
    (hf : Reflects (K ∪ P) ∅ 0 room w (f v) (f' v)) : Reflects K P n room w (x >>= f) (x' >>= f') := by
  have h := hx.bind hf
  rwa [Finset.union_empty, Nat.max_zero] at h

end Reflects

/-! ### The rules -/

variable {σ τ : Type} [TypeSource σ] [TypeSource τ] {src : σ} {src' : τ} {p : Profile}
  {recur recur' : TypeRef → TypeRef → UnifyM Unification}

section Rules

variable (hrec : ∀ K x, Reflects K x.references.toFinset x.nesting room .matched (recur x x) (recur' x x))

include hrec

theorem argMatches_reflects (a : TypeArg) :
    Reflects K a.references.toFinset a.nesting room true (argMatches recur a a) (argMatches recur' a a) := by
  cases a with
  | param p =>
    simp only [argMatches, decide_true]
    exact .pure
  | type c as => exact (hrec K ⟨c, as⟩).last .pure

theorem argsMatch_reflects (as : List TypeArg) :
    Reflects K (TypeArg.referencesAll as).toFinset (TypeArg.nestingAll as) room true (argsMatch recur as as)
      (argsMatch recur' as as) := by
  induction as generalizing K with
  | nil => exact .pure
  | cons a as ih =>
    rw [TypeArg.referencesAll, List.toFinset_append, TypeArg.nestingAll]
    refine .bind (argMatches_reflects hrec a) ?_
    -- What the first argument has made known is not counted again.
    exact ih

/-- The arguments match, so the search does not come to the supertypes. -/
theorem tryRules_reflects (src : σ) (src' : τ) (p : Profile) (x : TypeRef) :
    Reflects K (TypeArg.referencesAll x.args).toFinset (TypeArg.nestingAll x.args) room .matched
      (tryRules src p recur x x) (tryRules src' p recur' x x) := by
  unfold tryRules
  by_cases hopen : x.IsOpen
  · have hnone : TypeArg.referencesAll x.args = [] := by
      refine List.eq_nil_iff_forall_not_mem.mpr fun y hy => ?_
      obtain ⟨a, ha, hy⟩ := TypeArg.mem_referencesAll.mp hy
      obtain ⟨q, rfl⟩ := hopen.param_of_mem ha
      cases hy
    have hzero : TypeArg.nestingAll x.args = 0 := by
      refine TypeArg.nestingAll_eq_zero fun a ha => ?_
      obtain ⟨q, rfl⟩ := hopen.param_of_mem ha
      rfl
    simp only [hopen, and_true, if_true, hnone, hzero]
    exact .conclude _ x _
  · simp only [hopen, and_false, if_false, true_and, if_true]
    exact (argsMatch_reflects hrec x.args).last (.conclude _ x _)

end Rules

/-! ### One query -/

theorem toFinset_references (x : TypeRef) :
    x.references.toFinset = insert x (TypeArg.referencesAll x.args).toFinset := List.toFinset_cons

theorem not_mem_referencesAll (x : TypeRef) : x ∉ TypeArg.referencesAll x.args := by
  intro hx
  obtain ⟨a, ha, hx⟩ := TypeArg.mem_referencesAll.mp hx
  exact Nat.lt_irrefl _ (Nat.lt_of_le_of_lt (TypeArg.nesting_le_of_mem_references hx) (TypeRef.nesting_lt_of_mem ha))

variable {x : TypeRef}

theorem card_references_sdiff (hx : x ∉ K) :
    (x.references.toFinset \ K).card = ((TypeArg.referencesAll x.args).toFinset \ K).card + 1 := by
  have hnot : x ∉ (TypeArg.referencesAll x.args).toFinset \ K := by simp [not_mem_referencesAll]
  rw [toFinset_references, Finset.insert_sdiff_of_notMem _ hx, Finset.card_insert_of_notMem hnot]

theorem tally_entered (hs : s.guard.iterations ≤ Profile.ceiling) (hx : x ∉ K) :
    tally K (TypeArg.referencesAll x.args).toFinset { s with guard := s.guard.entered (x, x) } =
      tally K x.references.toFinset s := by
  have hup : Guard.countUp s.guard.iterations = min (s.guard.iterations + 1) Profile.ceiling := by
    rw [← Guard.countUp_min, Nat.min_eq_left hs]
  unfold tally
  show min (Guard.countUp s.guard.iterations + _) _ = _
  rw [hup, card_references_sdiff hx]
  omega

theorem countUp_le_tally (hs : s.guard.iterations ≤ Profile.ceiling) (hx : x ∉ K) :
    Guard.countUp s.guard.iterations ≤ tally K x.references.toFinset s := by
  rw [← tally_entered hs hx, tally]
  exact Nat.le_min.mpr ⟨Nat.le_add_right _ _, Guard.countUp_le hs⟩

theorem Poised.entered {k : Nat} (hs : Poised K x.references.toFinset room s)
    (hi : Guard.countUp s.guard.iterations ≤ s.guard.maxIterations)
    (hfits : Fits k { s with guard := s.guard.entered (x, x) }) :
    Poised K (TypeArg.referencesAll x.args).toFinset k { s with guard := s.guard.entered (x, x) } where
  aware := ⟨hs.aware.known, hs.aware.closed⟩
  idle y hy hactive := by
    rcases List.mem_cons.mp hactive with heq | hactive
    · -- A reference is not among those inside it, which nest less deep.
      cases heq
      exact not_mem_referencesAll x (List.mem_toFinset.mp hy)
    · refine hs.idle y ?_ hactive
      rw [toFinset_references]
      exact Finset.mem_insert_of_mem hy
  fits := hfits
  within := hi
  counted := Guard.countUp_le hs.counted

theorem Aware.settled (h : Aware (K ∪ (TypeArg.referencesAll x.args).toFinset) t) (before : Nat) (guard : Guard Query) :
    Aware (K ∪ x.references.toFinset) (remember before x x .matched { t with guard }) where
  known y := by
    rw [known_remember, toFinset_references]
    by_cases hy : y = x
    · simp [hy, Unification.isMatch]
    · rw [if_neg fun heq => hy (Prod.mk.inj heq.1).1]
      simp [h.known y, hy]
  closed y hy z hz := by
    have hsubset : K ∪ (TypeArg.referencesAll x.args).toFinset ⊆ K ∪ x.references.toFinset := by
      rw [toFinset_references]
      exact Finset.union_subset_union_right (Finset.subset_insert _ _)
    rcases Finset.mem_union.mp hy with hy | hy
    · exact hsubset (h.closed y (Finset.mem_union_left _ hy) z hz)
    · refine Finset.mem_union_right K (List.mem_toFinset.mpr ?_)
      exact TypeArg.references_trans (List.mem_toFinset.mp hy) hz

/-- What comes of the rules, under the guard that has let the query in, becomes what comes of the query. -/
theorem Accounted.settle {o : Except Failure Unification × Search Query Findings}
    (hs : s.guard.iterations ≤ Profile.ceiling) (hx : x ∉ K) (before : Nat)
    (h : Accounted K (TypeArg.referencesAll x.args).toFinset (TypeArg.nestingAll x.args) .matched
      { s with guard := s.guard.entered (x, x) } o) :
    Accounted K x.references.toFinset x.nesting .matched s (settle before x x o) := by
  have htally := tally_entered (s := s) hs hx
  cases h with
  | @answered t guard aware steps within =>
    rw [htally] at steps within
    refine .answered guard.release (aware.settled before _) ?_ within
    show (t.guard.release (x, x)).iterations = _
    rw [Guard.release_of_active guard.active]
    exact steps
  | exhausted beyond =>
    rw [htally] at beyond
    exact .exhausted beyond
  | tooDeep beyond =>
    refine .tooDeep ?_
    rw [TypeRef.nesting, TypeRef.toArg, TypeArg.nesting, ← Nat.add_assoc]
    exact beyond

/-- A reference that is not known yet is counted, and those inside it before it is left. -/
theorem visit_reflects (hrec : ∀ k, room = k + 1 → ∀ K x,
      Reflects K x.references.toFinset x.nesting k .matched (recur x x) (recur' x x))
    (K : Finset TypeRef) (x : TypeRef) :
    Reflects K x.references.toFinset x.nesting room .matched (visit src p recur x x) (visit src' p recur' x x) := by
  intro s hs
  by_cases hx : x ∈ K
  · have hknown : known s (x, x) = some .matched := (hs.aware.known x).trans (if_pos hx)
    rw [visit_of_known hknown, visit_of_known hknown]
    exact ⟨rfl, hs.answered (fun y hy => hs.aware.closed x hx y (List.mem_toFinset.mp hy)) rfl fun _ => rfl⟩
  have hknown : known s (x, x) = none := (hs.aware.known x).trans (if_neg hx)
  -- The guard looks at the number of attempts before it looks at the depth.
  rcases Nat.lt_or_ge s.guard.maxIterations (Guard.countUp s.guard.iterations) with hi | hi
  · rw [visit_of_exhausted hknown hi, visit_of_exhausted hknown hi]
    exact ⟨rfl, .exhausted (Nat.lt_of_lt_of_le hi (countUp_le_tally hs.counted hx))⟩
  rcases Nat.lt_or_ge s.guard.depth s.guard.maxDepth with hd | hd
  · have hidle : (x, x) ∉ s.guard.active := hs.idle x (by simp [toFinset_references])
    rw [visit_of_entered hknown hi hd hidle, visit_of_entered hknown hi hd hidle]
    obtain ⟨k, hk, hfits⟩ := hs.fits.entered hd (x, x)
    obtain ⟨heq, hout⟩ := tryRules_reflects (hrec k hk) src src' p x _ (hs.entered hi hfits)
    rw [heq]
    exact ⟨rfl, hout.settle hs.counted hx _⟩
  · rw [visit_of_tooDeep hknown hi hd, visit_of_tooDeep hknown hi hd]
    have hone := x.one_le_nesting
    exact ⟨rfl, .tooDeep (by omega)⟩

theorem solve_reflects (src : σ) (src' : τ) (p : Profile) (room : Nat) (K : Finset TypeRef) (x : TypeRef) :
    Reflects K x.references.toFinset x.nesting room .matched (solve src p room x x) (solve src' p room x x) := by
  induction room generalizing K x with
  | zero => exact visit_reflects (fun _ hk => by cases hk) K x
  | succ room ih =>
    refine visit_reflects (fun k hk => ?_) K x
    cases hk
    exact ih

end UnifyM

/-! ### Fresh unifiers -/

namespace Unifier

open TypeSource UnifyM

variable {σ τ : Type} [TypeSource σ] [TypeSource τ] {src : σ} {src' : τ} {u : Unifier} {x : TypeRef}

theorem poised_start (p : Profile) (P : Finset TypeRef) : Poised ∅ P p.maxDepth (ofProfile p).start where
  aware := by
    refine ⟨fun x => ?_, fun x hx => absurd hx (Finset.notMem_empty x)⟩
    rw [if_neg (Finset.notMem_empty x)]
    exact Std.HashMap.getElem?_empty
  idle _ _ := List.not_mem_nil
  fits := Nat.le_add_left _ _
  within := Nat.zero_le _
  counted := Nat.zero_le _

theorem unify_of_check (hx : check src x = .ok ()) :
    (u.unify src x x).result = (u.search src x x).1 ∧ (u.unify src x x).unifier.guard = (u.search src x x).2.guard := by
  simp only [Unifier.unify, hx, and_self]

/-- The three things that can come of a query that asks for what is on hand. -/
theorem unify_self_cases (p : Profile) (hx : check src x = .ok ()) :
    (((ofProfile p).unify src x x).result = .ok .matched ∧
      ((ofProfile p).unify src x x).unifier.guard.iterations = min x.references.toFinset.card Profile.ceiling ∧
      min x.references.toFinset.card Profile.ceiling ≤ p.maxIterations) ∨
    (((ofProfile p).unify src x x).result = .error (.exhausted p.maxIterations) ∧
      p.maxIterations < min x.references.toFinset.card Profile.ceiling) ∨
    (((ofProfile p).unify src x x).result = .error (.tooDeep p.maxDepth) ∧ p.maxDepth < x.nesting) := by
  have htally : tally ∅ x.references.toFinset (ofProfile p).start = min x.references.toFinset.card Profile.ceiling := by
    rw [tally, Finset.sdiff_empty]
    exact congrArg (min · Profile.ceiling) (Nat.zero_add _)
  have hout : Accounted ∅ x.references.toFinset x.nesting .matched (ofProfile p).start ((ofProfile p).search src x x) :=
    (solve_reflects src src p.closure p.maxDepth ∅ x _ (poised_start p _)).2
  obtain ⟨hresult, hguard⟩ := unify_of_check (u := .ofProfile p) hx
  rw [hresult, hguard, ← htally]
  generalize (ofProfile p).search src x x = o at hout
  cases hout with
  | answered guard aware steps within => exact .inl ⟨rfl, steps, within⟩
  | exhausted beyond => exact .inr (.inl ⟨rfl, beyond⟩)
  | tooDeep beyond => exact .inr (.inr ⟨rfl, Nat.zero_add x.nesting ▸ beyond⟩)

end Unifier

end Nominal
