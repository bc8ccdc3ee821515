import Nominal.Proofs.Renaming
import Nominal.Proofs.Visit

/-! Two searches side by side. A pairing says which states of the two may face each other, and how either may fail
    without the other. Searches are tied if each pair of facing states leads to such a pair again, with related answers.
    If two ways of answering are tied on all the queries that a query may ask in turn, the rules tie them on the query
    itself (`UnifyM.tryRules_tied`); the symbols on the right may be other ones, as long as different symbols stay
    different. -/

namespace Nominal

/-- How two searches are compared: over which stretch of the left one, which states may face each other, which failures
    answer each other, and which need no counterpart. -/
structure Pairing extends Stretch where
  Link : Search Query Findings → Search Query Findings → Prop
  /-- Failures that answer each other. -/
  Alike : Failure → Failure → Prop
  /-- Failures of the left search that need no counterpart. -/
  Excused : Failure → Search Query Findings → Prop
  /-- Failures of the right search that need no counterpart. -/
  Waived : Failure → Search Query Findings → Prop
  starts : ∀ {s s'}, Link s s' → Starts s
  telling : ∀ {s s'} events events', Link s s' →
    Link { s with gathered := { s.gathered with events } }
      { s' with gathered := { s'.gathered with events := events' } }

namespace Pairing

variable {α β γ δ : Type} {P : Pairing} {V : α → β → Prop} {W : γ → δ → Prop} {x : UnifyM α} {y : UnifyM β}
  {f : α → UnifyM γ} {g : β → UnifyM δ} {s s' t : Search Query Findings}

/-- The ends of two searches: both answer, with related answers, or both fail alike, and their states face each other;
    or one fails as it may. -/
inductive Outcome (P : Pairing) (V : α → β → Prop) :
    Except Failure α × Search Query Findings → Except Failure β × Search Query Findings → Prop where
  | answered {v v' t t'} (related : V v v') (link : P.Link t t') : Outcome P V (.ok v, t) (.ok v', t')
  | failed {e e' t t'} (alike : P.Alike e e') (link : P.Link t t') : Outcome P V (.error e, t) (.error e', t')
  | excused {e t o} (h : P.Excused e t) : Outcome P V (.error e, t) o
  | waived {e t o} (h : P.Waived e t) : Outcome P V o (.error e, t)

/-- From states that face each other, two searches end together. -/
def Tied (P : Pairing) (V : α → β → Prop) (x : UnifyM α) (y : UnifyM β) : Prop :=
  ∀ s s', P.Link s s' → P.Ends (x s).2 → P.Outcome V (x s) (y s')

theorem Outcome.imp {V' : α → β → Prop} {o o'} (h : P.Outcome V o o') (hv : ∀ v v', V v v' → V' v v') :
    P.Outcome V' o o' := by
  cases h with
  | answered related link => exact .answered (hv _ _ related) link
  | failed alike link => exact .failed alike link
  | excused h => exact .excused h
  | waived h => exact .waived h

theorem Tied.imp {V' : α → β → Prop} (h : P.Tied V x y) (hv : ∀ v v', V v v' → V' v v') : P.Tied V' x y :=
  fun s s' hl he => (h s s' hl he).imp hv

theorem Tied.pure {v : α} {v' : β} (h : V v v') : P.Tied V (Pure.pure v) (Pure.pure v') :=
  fun _ _ hl _ => .answered h hl

theorem Tied.fail {e e' : Failure} (h : P.Alike e e') :
    P.Tied V (Attempt.ofExcept (.error e)) (Attempt.ofExcept (.error e')) :=
  fun _ _ hl _ => .failed h hl

theorem Tied.bind (hx : P.Tied V x y) (hkx : Attempt.Keeps P.Keeps x) (hkf : ∀ a, Attempt.Keeps P.Keeps (f a))
    (hf : ∀ a b, V a b → P.Tied W (f a) (g b)) : P.Tied W (x >>= f) (y >>= g) := by
  intro s s' hl he
  have hsx := hx s s' hl
  rcases hxs : x s with ⟨e | v, t⟩ <;> rw [hxs] at hsx
  · rw [Attempt.bind_of_error hxs] at he ⊢
    rcases hys : y s' with ⟨e' | v', t'⟩ <;> rw [hys] at hsx
    · rw [Attempt.bind_of_error hys]
      cases hsx he with
      | failed alike link => exact .failed alike link
      | excused h => exact .excused h
      | waived h => exact .waived h
    · cases hsx he with
      | excused h => exact .excused h
  · rw [Attempt.bind_of_ok hxs] at he ⊢
    -- What is known of the end is known of the state in between.
    have het : P.Ends t := P.back (hkf v t) (P.forth (hkx.of_eq hxs) (P.starts hl)) he
    rcases hys : y s' with ⟨e' | v', t'⟩ <;> rw [hys] at hsx
    · rw [Attempt.bind_of_error hys]
      cases hsx het with
      | waived h => exact .waived h
    · rw [Attempt.bind_of_ok hys]
      cases hsx het with
      | answered related link => exact hf v v' related t t' link he

/-- What happened in between does not matter. -/
theorem Tied.tellAll_bind {es es' : List Event} (h : P.Tied V x y) (hk : Attempt.Keeps P.Keeps x) :
    P.Tied V (UnifyM.tellAll es >>= fun _ => x) (UnifyM.tellAll es' >>= fun _ => y) := by
  refine .bind (V := fun _ _ => True) (fun s s' hl _ => ?_) (fun s => P.steady.telling s _) (fun _ => hk) fun _ _ _ => h
  exact .answered trivial (P.telling _ _ hl)

end Pairing

namespace UnifyM

variable {σ σ' : Type} [TypeSource σ] [TypeSource σ'] {src : σ} {src' : σ'} {p p' : Profile}
  {recur recur' : TypeRef → TypeRef → UnifyM Unification} {P : Pairing} {f : Symbol → Symbol} {a b : TypeRef}

/-- The answer on the right is the one on the left under other symbols. -/
abbrev Renamed (f : Symbol → Symbol) (v v' : Unification) : Prop := v' = v.rename f

theorem conclude_tied {rule rule' : Rule} {a b a' b' : TypeRef} {v v' : Unification} (h : Renamed f v v') :
    P.Tied (Renamed f) (conclude rule a b v) (conclude rule' a' b' v') := by
  intro s s' hl _
  exact .answered h (P.telling _ _ hl)

/-- Each walk to the supertypes ends as the one on the other side. -/
structure Climbs (P : Pairing) (f : Symbol → Symbol) (src : σ) (src' : σ') (p p' : Profile) (b : TypeRef) : Prop where
  symbol : P.Tied (fun l l' => supertypes src b.symbol p = .ok l ∧ l' = l.map (TypeRef.rename f))
    (climbSymbol src p b.symbol) (climbSymbol src' p' (f b.symbol))
  ref : P.Tied (fun l l' => supertypesOf src b p = .ok l ∧ l' = l.map (TypeRef.rename f))
    (climb (.ofRef src p b)) (climb (.ofRef src' p' (b.rename f)))

section Traversal

variable (hk : ∀ x y, Attempt.Keeps P.Keeps (recur x y))

include hk

theorem argMatches_tied (hf : f.Injective) {x y : TypeArg}
    (hrec : ∀ u v : TypeRef, u.toArg = x → v.toArg = y →
      P.Tied (Renamed f) (recur u v) (recur' (u.rename f) (v.rename f))) :
    P.Tied Eq (argMatches recur x y) (argMatches recur' (x.rename f) (y.rename f)) := by
  match x, y with
  | .param x, .param y =>
    exact .pure (decide_eq_decide.mpr (Param.rename_injective hf).eq_iff.symm)
  | .type c as, .type d bs =>
    refine .bind (hrec ⟨c, as⟩ ⟨d, bs⟩ rfl rfl) (hk _ _) (fun _ => .pure P.steady.refl _) fun v v' hv => .pure ?_
    rw [hv, Unification.isMatch_rename]
  | .param _, .type _ _ => exact .pure rfl
  | .type _ _, .param _ => exact .pure rfl

theorem argsMatch_tied (hf : f.Injective) {as bs : List TypeArg}
    (hrec : ∀ u v : TypeRef, u.toArg ∈ as → v.toArg ∈ bs →
      P.Tied (Renamed f) (recur u v) (recur' (u.rename f) (v.rename f))) :
    P.Tied Eq (argsMatch recur as bs) (argsMatch recur' (TypeArg.renameAll f as) (TypeArg.renameAll f bs)) := by
  induction as generalizing bs with
  | nil => exact .pure rfl
  | cons x as ih =>
    cases bs with
    | nil => exact .pure rfl
    | cons y bs =>
      refine .bind (argMatches_tied hk hf fun u v hu hv => hrec u v (hu ▸ List.mem_cons_self) (hv ▸ List.mem_cons_self))
        (argMatches_keeps P.steady hk x y) (fun related => ?_) fun related _ same => ?_
      · cases related with
        | true => exact argsMatch_keeps P.steady hk as bs
        | false => exact .pure P.steady.refl false
      · obtain rfl := same
        cases related with
        | true => exact ih fun u v hu hv => hrec u v (List.mem_cons_of_mem x hu) (List.mem_cons_of_mem y hv)
        | false => exact .pure rfl

theorem firstMatch?_tied {a : TypeRef} {bs : List TypeRef}
    (hrec : ∀ q ∈ bs, P.Tied (Renamed f) (recur a q) (recur' (a.rename f) (q.rename f))) :
    P.Tied (fun via via' => via' = via.map (TypeRef.rename f)) (firstMatch? recur a bs)
      (firstMatch? recur' (a.rename f) (bs.map (TypeRef.rename f))) := by
  induction bs with
  | nil => exact .pure rfl
  | cons b bs ih =>
    have hrest := ih fun q hq => hrec q (List.mem_cons_of_mem b hq)
    refine .bind (hrec b List.mem_cons_self) (hk a b) (fun v => ?_) fun v v' hv => ?_
    · split
      · exact .pure P.steady.refl _
      · exact firstMatch?_keeps P.steady hk a bs
    · rw [hv, Unification.isMatch_rename]
      split
      · exact .pure rfl
      · exact hrest

variable (hclimb : Climbs P f src src' p p' b)
  (hrec : ∀ x y, Asks src p a b x y → P.Tied (Renamed f) (recur x y) (recur' (x.rename f) (y.rename f)))

include hclimb hrec

theorem throughReference_tied :
    P.Tied (Renamed f) (throughReference src p recur a b)
      (throughReference src' p' recur' (a.rename f) (b.rename f)) := by
  have hlast (via : Option TypeRef) : Attempt.Keeps P.Keeps
      (via.elim (pure .noMatch) fun via => conclude (.supertype via) a b .matched) := by
    cases via with
    | some via => exact conclude_keeps P.steady _ a b _
    | none => exact .pure P.steady.refl _
  refine .bind hclimb.ref (climb_keeps P.steady _)
    (fun l => .bind P.steady.trans (firstMatch?_keeps P.steady hk a l) hlast) fun l l' ⟨walk, hl⟩ => ?_
  rw [hl]
  refine .bind (firstMatch?_tied hk fun q hq => hrec _ _ (.supertype walk hq)) (firstMatch?_keeps P.steady hk a l) hlast
    fun via via' hvia => ?_
  rw [hvia]
  cases via with
  | some via => exact conclude_tied rfl
  | none => exact .pure rfl

theorem throughSupertypes_tied :
    P.Tied (Renamed f) (throughSupertypes src p recur a b)
      (throughSupertypes src' p' recur' (a.rename f) (b.rename f)) := by
  have hthen (via : Option TypeRef) : Attempt.Keeps P.Keeps
      (via.elim (throughReference src p recur a b) fun via => conclude (.openSupertype via) a b .matched) := by
    cases via with
    | some via => exact conclude_keeps P.steady _ a b _
    | none => exact throughReference_keeps P.steady hk a b
  rw [throughSupertypes_unfold, throughSupertypes_unfold]
  refine .bind hclimb.symbol (climbSymbol_keeps P.steady src p b.symbol)
    (fun l => .bind P.steady.trans (firstMatch?_keeps P.steady hk a.definition l) hthen) fun l l' ⟨walk, hl⟩ => ?_
  rw [hl, ← TypeRef.rename_definition]
  refine .bind (firstMatch?_tied hk fun q hq => hrec _ _ (.definition walk hq))
    (firstMatch?_keeps P.steady hk a.definition l) hthen fun via via' hvia => ?_
  rw [hvia]
  cases via with
  | some via => exact conclude_tied rfl
  | none => exact throughReference_tied hk hclimb hrec

/-- The rules tie two ways of answering on a query if they are tied on everything that it asks in turn. -/
theorem tryRules_tied (hf : f.Injective) :
    P.Tied (Renamed f) (tryRules src p recur a b) (tryRules src' p' recur' (a.rename f) (b.rename f)) := by
  have hsame : (a.rename f).symbol = (b.rename f).symbol ↔ a.symbol = b.symbol := hf.eq_iff
  have hthrough := throughSupertypes_tied hk hclimb hrec
  unfold tryRules
  simp only [hsame, TypeRef.isOpen_rename hf, TypeRef.arity_rename]
  split
  · split
    · exact conclude_tied rfl
    · exact conclude_tied rfl
  · split
    · refine .bind (argsMatch_tied hk hf fun u v hu hv => hrec u v (.argument hu hv))
        (argsMatch_keeps P.steady hk a.args b.args) (fun related => ?_) fun related _ same => ?_
      · cases related with
        | true => exact conclude_keeps P.steady _ a b _
        | false => exact throughSupertypes_keeps P.steady hk a b
      · obtain rfl := same
        cases related with
        | true => exact conclude_tied rfl
        | false => exact hthrough
    · exact hthrough

end Traversal

/-- With the same symbols on both sides the answers are the same. -/
theorem tryRules_tied_id (hclimb : Climbs P id src src' p p' b) (hk : ∀ x y, Attempt.Keeps P.Keeps (recur x y))
    (hrec : ∀ x y, Asks src p a b x y → P.Tied Eq (recur x y) (recur' x y)) :
    P.Tied Eq (tryRules src p recur a b) (tryRules src' p' recur' a b) := by
  have hrec' : ∀ x y, Asks src p a b x y → P.Tied (Renamed id) (recur x y) (recur' (x.rename id) (y.rename id)) := by
    intro x y hxy
    rw [TypeRef.rename_id, TypeRef.rename_id]
    exact (hrec x y hxy).imp fun v v' hv => by rw [Renamed, Unification.rename_id, hv]
  have h := tryRules_tied hk hclimb hrec' Function.injective_id
  rw [TypeRef.rename_id, TypeRef.rename_id] at h
  exact h.imp fun v v' hv => by rw [hv, Unification.rename_id]

/-! ### One source -/

/-- A list that is found on the left is found on the right. How a failure on the left is met is up to the pairing. -/
theorem climb_tied_id {above above' : Ancestry} (hok : ∀ l, above.supertypes = .ok l → above'.supertypes = .ok l)
    (hfail : ∀ e, above.supertypes = .error e →
      P.Tied (fun _ _ : List TypeRef => False) (Attempt.ofExcept (.error e)) (Attempt.ofExcept above'.supertypes)) :
    P.Tied (fun l l' => above.supertypes = .ok l ∧ l' = l.map (TypeRef.rename id)) (climb above) (climb above') := by
  refine .tellAll_bind ?_ (.ofExcept P.steady.refl _)
  cases hl : above.supertypes with
  | error e => exact (hfail e hl).imp fun _ _ h => h.elim
  | ok l =>
    rw [hok l hl]
    refine fun s s' hlink _ => .answered ⟨rfl, ?_⟩ hlink
    rw [List.map_congr_left fun t _ => TypeRef.rename_id t, List.map_id']

theorem climbs_id (hok : ∀ r l, supertypesOf src r p = .ok l → supertypesOf src r p' = .ok l)
    (hfail : ∀ r e, supertypesOf src r p = .error e →
      P.Tied (fun _ _ : List TypeRef => False) (Attempt.ofExcept (.error e)) (Attempt.ofExcept (supertypesOf src r p')))
    (b : TypeRef) : Climbs P id src src p p' b where
  symbol := by
    simp only [climbSymbol, supertypes, id]
    cases hd : TypeSource.definition? src b.symbol with
    | none => exact .pure ⟨rfl, rfl⟩
    | some d => exact climb_tied_id (hok d) (hfail d)
  ref := by
    rw [TypeRef.rename_id]
    exact climb_tied_id (hok b) (hfail b)

/-- With one source and the same limits the walks to the supertypes end alike. -/
theorem tryRules_tied_self (halike : ∀ e, P.Alike e e) (hk : ∀ x y, Attempt.Keeps P.Keeps (recur x y))
    (hrec : ∀ x y, Asks src p a b x y → P.Tied Eq (recur x y) (recur' x y)) :
    P.Tied Eq (tryRules src p recur a b) (tryRules src p recur' a b) := by
  have hclimb : Climbs P id src src p p b := by
    refine climbs_id (fun _ _ => id) (fun r e he => ?_) b
    rw [he]
    exact .fail (halike e)
  exact tryRules_tied_id hclimb hk hrec

end UnifyM

/-! ### One query on both sides -/

/-- Two guards at the same depth within the same limits, of which the second one has counted no more attempts. -/
structure Guard.Trails (g g' : Guard Query) : Prop where
  depth : g'.depth = g.depth
  maxDepth : g'.maxDepth = g.maxDepth
  maxIterations : g'.maxIterations = g.maxIterations
  iterations : g'.iterations ≤ g.iterations

namespace Guard

variable {g g' : Guard Query} {q q' : Query} {l l' : List Query}

theorem countUp_mono {m n : Nat} (h : m ≤ n) : countUp m ≤ countUp n := by
  unfold countUp
  split <;> split <;> omega

theorem Trails.tried (h : Trails g g') : Trails g.tried g'.tried :=
  ⟨h.depth, h.maxDepth, h.maxIterations, countUp_mono h.iterations⟩

theorem Trails.refused (h : Trails g g') : Trails g.refused g'.refused :=
  ⟨h.depth, h.maxDepth, h.maxIterations, countUp_mono h.iterations⟩

theorem Trails.entered (h : Trails g g') (q q' : Query) : Trails (g.entered q) (g'.entered q') :=
  ⟨congrArg (· + 1) h.depth, h.maxDepth, h.maxIterations, countUp_mono h.iterations⟩

theorem Trails.release (h : Trails g g') (hl : g.active = q :: l) (hl' : g'.active = q' :: l') :
    Trails (g.release q) (g'.release q') := by
  rw [release_of_active hl, release_of_active hl']
  exact ⟨congrArg (· - 1) h.depth, h.maxDepth, h.maxIterations, h.iterations⟩

end Guard

namespace UnifyM

/-- Two queries that are both not remembered: the left one runs out of attempts, or the guards decide alike. -/
theorem visit_pair {σ σ' : Type} [TypeSource σ] [TypeSource σ'] (src : σ) (src' : σ') (p p' : Profile)
    (recur recur' : TypeRef → TypeRef → UnifyM Unification) {a b a' b' : TypeRef} {s s' : Search Query Findings}
    (hm : known s (a, b) = none) (hm' : known s' (a', b') = none) (hg : s.guard.Trails s'.guard)
    (ha : (a', b') ∈ s'.guard.active ↔ (a, b) ∈ s.guard.active) :
    (s.guard.maxIterations < Guard.countUp s.guard.iterations ∧
      visit src p recur a b s = (.error (.exhausted s.guard.maxIterations), { s with guard := s.guard.refused })) ∨
    (visit src p recur a b s = (.error (.tooDeep s.guard.maxDepth), { s with guard := s.guard.refused }) ∧
      visit src' p' recur' a' b' s' = (.error (.tooDeep s.guard.maxDepth), { s' with guard := s'.guard.refused })) ∨
    ((a, b) ∈ s.guard.active ∧ visit src p recur a b s = (.ok .noMatch, (cut a b { s with guard := s.guard.tried }).2) ∧
      visit src' p' recur' a' b' s' = (.ok .noMatch, (cut a' b' { s' with guard := s'.guard.tried }).2)) ∨
    ((a, b) ∉ s.guard.active ∧ s.guard.depth < s.guard.maxDepth ∧
      visit src p recur a b s =
        settle s.gathered.cycles a b (tryRules src p recur a b { s with guard := s.guard.entered (a, b) }) ∧
      visit src' p' recur' a' b' s' =
        settle s'.gathered.cycles a' b'
          (tryRules src' p' recur' a' b' { s' with guard := s'.guard.entered (a', b') })) := by
  rcases Nat.lt_or_ge s.guard.maxIterations (Guard.countUp s.guard.iterations) with hi | hi
  · exact Or.inl ⟨hi, visit_of_exhausted hm hi⟩
  · have hi' : Guard.countUp s'.guard.iterations ≤ s'.guard.maxIterations := by
      rw [hg.maxIterations]
      exact Nat.le_trans (Guard.countUp_mono hg.iterations) hi
    rcases Nat.lt_or_ge s.guard.depth s.guard.maxDepth with hd | hd
    · have hd' : s'.guard.depth < s'.guard.maxDepth := by
        rw [hg.depth, hg.maxDepth]
        exact hd
      by_cases hmem : (a, b) ∈ s.guard.active
      · exact Or.inr (Or.inr (Or.inl
          ⟨hmem, visit_of_active hm hi hd hmem, visit_of_active hm' hi' hd' (ha.mpr hmem)⟩))
      · have hmem' : (a', b') ∉ s'.guard.active := fun h => hmem (ha.mp h)
        exact Or.inr (Or.inr (Or.inr
          ⟨hmem, hd, visit_of_entered hm hi hd hmem, visit_of_entered hm' hi' hd' hmem'⟩))
    · have hd' : s'.guard.maxDepth ≤ s'.guard.depth := by
        rw [hg.depth, hg.maxDepth]
        exact hd
      exact Or.inr (Or.inl ⟨visit_of_tooDeep hm hi hd, hg.maxDepth ▸ visit_of_tooDeep hm' hi' hd'⟩)

end UnifyM

end Nominal
