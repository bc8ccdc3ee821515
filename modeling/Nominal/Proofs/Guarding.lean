import Nominal.Proofs.Answers
import Nominal.Table.Flatten

/-! What a guard is worth. A search under a guard leaves every key that it entered, and only such keys, whether it
    succeeds or fails. It never gets deeper than the limit, so that nothing is asked beyond that many levels: whatever
    stood there instead of the end of the search would not be noticed. And once it has tried too often, it does not try
    again. -/

namespace Nominal

/-! ### What a search does to its guard -/

namespace Guard

variable {κ α : Type} {g g' g'' : Guard κ}

theorem countUp_eq {n limit : Nat} (hlimit : limit < Profile.ceiling) (h : countUp n ≤ limit) : countUp n = n + 1 := by
  unfold countUp at h ⊢
  split at h
  · rw [if_pos ‹_›]
  · omega

/-- The limit on attempts is one that the counter can exceed, and it has not been exceeded yet. -/
structure Limited (g : Guard κ) : Prop where
  limit : g.maxIterations < Profile.ceiling
  iterations : g.iterations ≤ g.maxIterations

/-- How the guard is left by a search with the result `r`. While a search succeeds, no attempt is turned down, and the
    counter has counted all of them; a search that fails may have made one attempt too many. -/
structure Spent (g : Guard κ) (r : Except Failure α) (g' : Guard κ) : Prop where
  balanced : g.Balanced g'
  deepest : g.deepest ≤ g.maxDepth → g'.deepest ≤ g'.maxDepth
  counted : ∀ a, r = .ok a → g.Limited →
    g'.iterations ≤ g'.maxIterations ∧ g'.attempts + g.iterations = g.attempts + g'.iterations
  attempts : g.Limited → g'.attempts + g.iterations ≤ g.attempts + g.maxIterations + 1

theorem Spent.refl (g : Guard κ) (r : Except Failure α) : Spent g r g where
  balanced := .refl g
  deepest := id
  counted _ _ h := ⟨h.iterations, rfl⟩
  attempts h := by
    have hiterations := h.iterations
    omega

/-- A failure is passed on. -/
theorem Spent.error {β : Type} {e : Failure} (h : Spent g (.error e : Except Failure α) g') :
    Spent g (.error e : Except Failure β) g' :=
  ⟨h.balanced, h.deepest, nofun, h.attempts⟩

theorem Spent.trans {β : Type} {a : α} {r : Except Failure β} (h : Spent g (.ok a) g') (h' : Spent g' r g'') :
    Spent g r g'' := by
  have hlimits := h.balanced.maxIterations
  have hnext : g.Limited → g'.Limited := fun hg => ⟨hlimits ▸ hg.limit, (h.counted a rfl hg).1⟩
  refine ⟨h.balanced.trans h'.balanced, h'.deepest ∘ h.deepest, fun b hb hg => ?_, fun hg => ?_⟩
  · obtain ⟨hle, hsum⟩ := h'.counted b hb (hnext hg)
    have hfirst := (h.counted a rfl hg).2
    exact ⟨hle, by omega⟩
  · have hfirst := (h.counted a rfl hg).2
    have hsecond := h'.attempts (hnext hg)
    omega

theorem Spent.refused (g : Guard κ) (e : Failure) : Spent g (.error e : Except Failure α) g.refused where
  balanced := .refused g
  deepest := id
  counted := nofun
  attempts h := by
    have hiterations := h.iterations
    show g.attempts + 1 + g.iterations ≤ _
    omega

/-- An attempt that is not turned down is counted. -/
theorem Spent.tried (hcount : countUp g.iterations ≤ g.maxIterations) (a : α) : Spent g (.ok a) g.tried where
  balanced := .tried g
  deepest := id
  counted _ _ h := by
    have hone := countUp_eq h.limit hcount
    refine ⟨hcount, ?_⟩
    show g.attempts + 1 + g.iterations = g.attempts + countUp g.iterations
    omega
  attempts h := by
    have hiterations := h.iterations
    show g.attempts + 1 + g.iterations ≤ _
    omega

variable [DecidableEq κ] {k : κ}

theorem countUp_le_of_enter {e : Entry} (he : g.enter k = (g', e)) (hne : e ≠ .exhausted) :
    countUp g.iterations ≤ g.maxIterations := by
  by_contra hcount
  simp only [enter, if_pos (Nat.not_le.mp hcount)] at he
  cases he
  exact hne rfl

/-- A key is entered, worked on and left. -/
theorem Spent.release {r : Except Failure α} (hcount : countUp g.iterations ≤ g.maxIterations)
    (hdepth : g.depth < g.maxDepth) (h : Spent (g.entered k) r g') : Spent g r (g'.release k) := by
  have hbalanced := h.balanced.release
  rw [release_of_active h.balanced.active] at hbalanced ⊢
  have hlimits : g'.maxIterations = g.maxIterations := hbalanced.maxIterations
  have hentered : g.Limited → (g.entered k).Limited := fun hg => ⟨hg.limit, hcount⟩
  refine ⟨hbalanced, fun hdeepest => h.deepest ?_, fun a ha hg => ?_, fun hg => ?_⟩
  · exact Nat.max_le.mpr ⟨hdeepest, hdepth⟩
  · obtain ⟨hle, hsum⟩ := h.counted a ha (hentered hg)
    have hone := countUp_eq hg.limit hcount
    have hsum : g'.attempts + countUp g.iterations = g.attempts + 1 + g'.iterations := hsum
    exact ⟨hle, by show g'.attempts + g.iterations = g.attempts + g'.iterations; omega⟩
  · have hone := countUp_eq hg.limit hcount
    have hsum : g'.attempts + countUp g.iterations ≤ g.attempts + 1 + g.maxIterations + 1 := h.attempts (hentered hg)
    show g'.attempts + g.iterations ≤ g.attempts + g.maxIterations + 1
    omega

end Guard

/-! ### Searches under a guard -/

namespace SearchM

variable {κ ρ α β : Type} {n : Nat} {x y : SearchM κ ρ α} {f f' : α → SearchM κ ρ β}

/-- The search spends what a guard allows, and with no more than `n` levels left to enter, the other one does the
    same. -/
structure Watched (n : Nat) (x y : SearchM κ ρ α) : Prop where
  spent : ∀ s, Guard.Spent s.guard (x s).1 (x s).2.guard
  same : ∀ s, s.guard.maxDepth ≤ s.guard.depth + n → y s = x s

/-- What leaves the guard alone. -/
theorem Watched.still (h : ∀ s, (x s).2.guard = s.guard) : Watched n x x where
  spent s := by
    rw [h]
    exact .refl _ _
  same _ _ := rfl

theorem Watched.pure (a : α) : Watched n (Pure.pure a : SearchM κ ρ α) (Pure.pure a) := .still fun _ => rfl

theorem Watched.bind (hx : Watched n x y) (hf : ∀ a, Watched n (f a) (f' a)) : Watched n (x >>= f) (y >>= f') := by
  refine ⟨fun s => ?_, fun s hs => ?_⟩
  · have hspent := hx.spent s
    rcases hxs : x s with ⟨e | a, t⟩ <;> rw [hxs] at hspent
    · rw [Attempt.bind_of_error hxs]
      exact hspent.error
    · rw [Attempt.bind_of_ok hxs]
      exact hspent.trans ((hf a).spent t)
  · have hbalanced := (hx.spent s).balanced
    rcases hxs : x s with ⟨e | a, t⟩ <;> rw [hxs] at hbalanced
    · rw [Attempt.bind_of_error hxs, Attempt.bind_of_error ((hx.same s hs).trans hxs)]
    · rw [Attempt.bind_of_ok hxs, Attempt.bind_of_ok ((hx.same s hs).trans hxs)]
      refine (hf a).same t ?_
      rw [hbalanced.maxDepth, hbalanced.depth]
      exact hs

variable [DecidableEq κ] {key : κ} {onCycle work work' : SearchM κ ρ α}

/-- Working on a key spends what the work spends and one attempt. It is the same as other work if both do the same once
    the key is let in. -/
theorem within_watched (hcycle : ∀ s, ∃ a, (onCycle s).1 = .ok a ∧ (onCycle s).2.guard = s.guard)
    (hwork : ∀ s, Guard.Spent s.guard (work s).1 (work s).2.guard)
    (hsame : ∀ s : Search κ ρ, s.guard.depth < s.guard.maxDepth → s.guard.maxDepth ≤ s.guard.depth + n →
      work' { s with guard := s.guard.entered key } = work { s with guard := s.guard.entered key }) :
    Watched n (within key onCycle work) (within key onCycle work') := by
  refine ⟨fun s => ?_, fun s hs => ?_⟩
  · rcases s.guard.enter_cases key with ⟨-, he⟩ | ⟨-, he⟩ | ⟨-, -, he⟩ | ⟨hdepth, -, he⟩
    · rw [within, he]
      exact .refused _ _
    · rw [within, he]
      exact .refused _ _
    · have hcount := Guard.countUp_le_of_enter he (by decide)
      rw [within, he]
      obtain ⟨a, ha, hguard⟩ := hcycle { s with guard := s.guard.tried }
      simp only [ha, hguard]
      exact .tried hcount a
    · have hcount := Guard.countUp_le_of_enter he (by decide)
      rw [within, he]
      exact .release hcount hdepth (hwork { s with guard := s.guard.entered key })
  · rcases s.guard.enter_cases key with ⟨-, he⟩ | ⟨-, he⟩ | ⟨-, -, he⟩ | ⟨hdepth, -, he⟩ <;> simp only [within, he]
    rw [hsame s hdepth hs]

/-- Where no level is left to enter, it does not matter what the work is. -/
theorem within_watched_zero (hcycle : ∀ s, ∃ a, (onCycle s).1 = .ok a ∧ (onCycle s).2.guard = s.guard)
    (hwork : ∀ s, Guard.Spent s.guard (work s).1 (work s).2.guard) :
    Watched 0 (within key onCycle work) (within key onCycle work') :=
  within_watched hcycle hwork fun _ hdepth hroom => absurd hdepth (Nat.not_lt.mpr hroom)

/-- The work has one level less to enter. -/
theorem within_watched_succ (hcycle : ∀ s, ∃ a, (onCycle s).1 = .ok a ∧ (onCycle s).2.guard = s.guard)
    (hwork : Watched n work work') : Watched (n + 1) (within key onCycle work) (within key onCycle work') := by
  refine within_watched hcycle hwork.spent fun s _ hroom => hwork.same _ ?_
  show s.guard.maxDepth ≤ s.guard.depth + 1 + n
  omega

end SearchM

/-! ### Queries -/

namespace UnifyM

open SearchM

variable {σ : Type} [TypeSource σ] {src : σ} {p : Profile} {recur recur' : TypeRef → TypeRef → UnifyM Unification}
  {n : Nat}
  {a b : TypeRef}

theorem conclude_watched (rule : Rule) (a b : TypeRef) (answer : Unification) :
    Watched n (conclude rule a b answer) (conclude rule a b answer) :=
  .still fun _ => rfl

theorem climb_watched (above : Ancestry) : Watched n (climb above) (climb above) := by
  exact .bind (.still fun _ => rfl) fun _ => .still fun _ => rfl

theorem climbSymbol_watched (s : Symbol) : Watched n (climbSymbol src p s) (climbSymbol src p s) := by
  unfold climbSymbol
  split
  · exact .pure []
  · exact climb_watched _

section Traversal

variable (hrec : ∀ a b, Watched n (recur a b) (recur' a b))

include hrec

theorem argMatches_watched : ∀ x y : TypeArg, Watched n (argMatches recur x y) (argMatches recur' x y)
  | .param _, .param _ => .pure _
  | .type s as, .type t bs => .bind (hrec ⟨s, as⟩ ⟨t, bs⟩) fun _ => .pure _
  | .param _, .type _ _ => .pure _
  | .type _ _, .param _ => .pure _

theorem argsMatch_watched : ∀ as bs : List TypeArg, Watched n (argsMatch recur as bs) (argsMatch recur' as bs)
  | x :: as, y :: bs => .bind (argMatches_watched hrec x y) fun
    | true => argsMatch_watched as bs
    | false => .pure false
  | [], _ => .pure true
  | _ :: _, [] => .pure true

theorem firstMatch?_watched (a : TypeRef) :
    ∀ bs : List TypeRef, Watched n (firstMatch? recur a bs) (firstMatch? recur' a bs)
  | [] => .pure none
  | b :: bs => .bind (hrec a b) fun answer => by
    split
    · exact .pure _
    · exact firstMatch?_watched a bs

theorem throughReference_watched (a b : TypeRef) :
    Watched n (throughReference src p recur a b) (throughReference src p recur' a b) := by
  refine .bind (climb_watched _) fun above => .bind (firstMatch?_watched hrec a above) fun via => ?_
  cases via with
  | some via => exact conclude_watched _ a b _
  | none => exact .pure _

theorem throughSupertypes_watched (a b : TypeRef) :
    Watched n (throughSupertypes src p recur a b) (throughSupertypes src p recur' a b) := by
  rw [throughSupertypes_unfold, throughSupertypes_unfold]
  refine .bind (climbSymbol_watched b.symbol) fun above => ?_
  refine .bind (firstMatch?_watched hrec a.definition above) fun via => ?_
  cases via with
  | some via => exact conclude_watched _ a b _
  | none => exact throughReference_watched hrec a b

theorem tryRules_watched (a b : TypeRef) : Watched n (tryRules src p recur a b) (tryRules src p recur' a b) := by
  unfold tryRules
  split
  · split
    · exact conclude_watched _ a b _
    · exact conclude_watched _ a b _
  · split
    · refine .bind (argsMatch_watched hrec a.args b.args) fun
        | true => conclude_watched _ a b _
        | false => throughSupertypes_watched hrec a b
    · exact throughSupertypes_watched hrec a b

end Traversal

/-- A query is watched if the work on it is. -/
theorem visit_watched
    (h : Watched n (within (a, b) (cut a b) (tryRules src p recur a b))
      (within (a, b) (cut a b) (tryRules src p recur' a b))) :
    Watched n (visit src p recur a b) (visit src p recur' a b) := by
  refine .bind (.still fun _ => rfl) fun known => ?_
  cases known with
  | some known => exact .pure known
  | none =>
    refine .bind (.still fun _ => rfl) fun before => .bind h fun answer => ?_
    exact .bind (.still fun _ => rfl) fun _ => .pure answer

/-- Answers a query as `solve` does, but with `below` in place of the end of the room. -/
def solveVia (src : σ) (p : Profile) (below : TypeRef → TypeRef → UnifyM Unification) :
    Nat → TypeRef → TypeRef → UnifyM Unification
  | 0 => visit src p below
  | room + 1 => visit src p (solveVia src p below room)

theorem solve_watched (src : σ) (p : Profile) (below : TypeRef → TypeRef → UnifyM Unification) :
    ∀ (room : Nat) (a b : TypeRef), Watched room (solve src p room a b) (solveVia src p below room a b)
  | 0, a, b => by
    have hrules : Watched 0 (tryRules src p (fun _ _ => pure .noMatch) a b)
      (tryRules src p (fun _ _ => pure .noMatch) a b) :=
      tryRules_watched (fun _ _ => .pure .noMatch) a b
    exact visit_watched (within_watched_zero (fun _ => ⟨.noMatch, rfl, rfl⟩) hrules.spent)
  | room + 1, a, b => by
    refine visit_watched (within_watched_succ (fun _ => ⟨.noMatch, rfl, rfl⟩) ?_)
    exact tryRules_watched (solve_watched src p below room) a b

end UnifyM

/-! ### Interfaces -/

namespace FlattenM

open SearchM

variable {table : Table} {recur recur' : TypeRef → FlattenM Unit} {n : Nat}

theorem visit_watched {t : TypeRef} (h : ∀ d, Watched n (within t.symbol (pure ()) (expand recur t d))
    (within t.symbol (pure ()) (expand recur' t d))) : Watched n (visit table recur t) (visit table recur' t) := by
  unfold visit
  split
  · exact .pure ()
  · exact h _

end FlattenM

/-! ### Guards between searches -/

namespace Guard

variable {κ α : Type} {p : Profile} {g g' : Guard κ}

/-- Nothing is in work, no rule was ever broken, and the search never got deeper than the profile allows. -/
structure AtRest (p : Profile) (g : Guard κ) : Prop where
  active : g.active = []
  depth : g.depth = 0
  maxDepth : g.maxDepth = p.maxDepth
  maxIterations : g.maxIterations = p.maxIterations
  misuse : g.misuse = none
  deepest : g.deepest ≤ p.maxDepth

/-- One search later: the guard is at rest again, may be used again or given up, and was tried no more often than the
    profile allows, but for the one attempt that was turned down. -/
structure Served (p : Profile) (g g' : Guard κ) : Prop extends AtRest p g' where
  resets : ∃ g'', g'.reset = .ok g''
  drops : g'.drop = .ok ()
  attempts : p.maxIterations < Profile.ceiling → g'.attempts ≤ g.attempts + p.maxIterations + 1

theorem AtRest.ofProfile (p : Profile) : AtRest p (ofProfile p : Guard κ) := ⟨rfl, rfl, rfl, rfl, rfl, Nat.zero_le _⟩

theorem AtRest.restart (h : AtRest p g) : AtRest p g.restart := by
  rw [restart_of_inactive h.active]
  exact ⟨h.active, rfl, h.maxDepth, h.maxIterations, h.misuse, h.deepest⟩

theorem AtRest.served (h : AtRest p g')
    (hattempts : p.maxIterations < Profile.ceiling → g'.attempts ≤ g.attempts + p.maxIterations + 1) :
    Served p g g' := by
  refine ⟨h, ⟨{ g' with depth := 0, iterations := 0, exceeded := false }, ?_⟩, ?_, hattempts⟩
  · simp [reset, h.active]
  · simp [drop, h.active]

/-- A search that begins with cleared counters. -/
theorem AtRest.spent {r : Except Failure α} (h : AtRest p g) (hspent : Spent g.restart r g') : Served p g g' := by
  have hrestart := h.restart
  have hcleared : g.restart.iterations = 0 ∧ g.restart.attempts = g.attempts := by
    rw [restart_of_inactive h.active]
    exact ⟨rfl, rfl⟩
  have hbalanced := hspent.balanced
  refine AtRest.served ⟨?_, ?_, ?_, ?_, ?_, ?_⟩ fun hlimit => ?_
  · exact hbalanced.active.trans hrestart.active
  · exact hbalanced.depth.trans hrestart.depth
  · exact hbalanced.maxDepth.trans hrestart.maxDepth
  · exact hbalanced.maxIterations.trans hrestart.maxIterations
  · exact hbalanced.misuse.trans hrestart.misuse
  · have hdeepest : g.restart.deepest ≤ g.restart.maxDepth := hrestart.maxDepth ▸ hrestart.deepest
    rw [← hrestart.maxDepth, ← hbalanced.maxDepth]
    exact hspent.deepest hdeepest
  · have hlimited : g.restart.Limited := by
      refine ⟨hrestart.maxIterations ▸ hlimit, ?_⟩
      rw [hcleared.1]
      exact Nat.zero_le _
    have hattempts := hspent.attempts hlimited
    rw [hcleared.1, hcleared.2, hrestart.maxIterations] at hattempts
    exact hattempts

end Guard

namespace Unifier

variable {σ : Type} [TypeSource σ] {src : σ} {p : Profile} {u : Unifier}

/-- Between queries a unifier keeps its guard at rest and its limits. -/
structure Idle (p : Profile) (u : Unifier) : Prop where
  atRest : u.guard.AtRest p
  closure : u.closure = p.closure

theorem Idle.ofProfile (p : Profile) : Idle p (ofProfile p) := ⟨.ofProfile p, rfl⟩

theorem Idle.served (h : Idle p u) (a b : TypeRef) : Guard.Served p u.guard (u.unify src a b).unifier.guard := by
  have hunasked : Guard.Served p u.guard u.guard := by
    refine h.atRest.served fun _ => ?_
    omega
  unfold Unifier.unify
  split
  · exact hunasked
  · exact hunasked
  · have hwatched := UnifyM.solve_watched src u.closure (fun _ _ => pure .noMatch) u.guard.maxDepth a b
    exact h.atRest.spent (hwatched.spent u.start)

theorem Idle.unify (h : Idle p u) (a b : TypeRef) : Idle p (u.unify src a b).unifier := by
  refine ⟨(h.served a b).toAtRest, ?_⟩
  unfold Unifier.unify
  split <;> exact h.closure

theorem Idle.after (h : Idle p u) (history : List Query) : Idle p (u.after src history) := by
  induction history generalizing u with
  | nil => exact h
  | cons q history ih => exact ih (h.unify q.1 q.2)

end Unifier

namespace Table

variable {p : Profile}

end Table

end Nominal
