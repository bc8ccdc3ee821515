import Nominal.Proofs.Visit
import Nominal.Source.Catalogue

/-! A unifier answers as the rules have it. What it remembers is right (`UnifyM.Sound`), and stays right: an answer is
    remembered if it is a match, which is right by the rules, or if no cycle was cut on the way, in which case it does
    not depend on the path. A negative answer that is not remembered is still right for its own path (`UnifyM.Denied`),
    and the path of a whole query is empty. -/

namespace Nominal

variable {σ : Type} [TypeSource σ] {src : σ} {p : Profile}

/-- The answer to a query is right. -/
structure Correct (src : σ) (p : Profile) (a b : TypeRef) (answer : Unification) : Prop where
  isMatch : answer.isMatch = true ↔ Matches src p a b
  binding : answer.instantiation? = binding? a b

theorem Unification.eq_noMatch {answer : Unification} (h : answer.isMatch = false) : answer = .noMatch := by
  cases answer with
  | noMatch => rfl
  | matched => cases h
  | instantiated => cases h

theorem Correct.of_not_matches {a b : TypeRef} (h : ¬Matches src p a b) : Correct src p a b .noMatch := by
  refine ⟨⟨fun hm => ?_, fun hm => absurd hm h⟩, (binding?_eq_none ?_).symm⟩
  · cases hm
  · rintro ⟨same, isOpen⟩
    exact h (.of_rule (.opened same isOpen))

namespace UnifyM

variable {room : Nat} {recur : TypeRef → TypeRef → UnifyM Unification} {s t u : Search Query Findings}
  {a b : TypeRef} {answer : Unification}

/-- Every answer that is remembered is right. -/
def Sound (src : σ) (p : Profile) (s : Search Query Findings) : Prop :=
  ∀ a b answer, s.gathered.memo[(a, b)]? = some answer → Correct src p a b answer

/-- The room is enough for all levels that the guard can still let in. -/
def Fits (room : Nat) (s : Search Query Findings) : Prop := s.guard.maxDepth ≤ s.guard.depth + room

/-- What holds between the states before and after a part of a search that has room for `room` levels. -/
structure Advances (src : σ) (p : Profile) (room : Nat) (s t : Search Query Findings) : Prop where
  kept : Kept s t
  sound : Fits room s → Sound src p s → Sound src p t

theorem Fits.kept (h : Fits room s) (hk : Kept s t) : Fits room t := by
  unfold Fits at h ⊢
  rw [hk.guard.maxDepth, hk.guard.depth]
  exact h

theorem Advances.trans (h : Advances src p room s t) (h' : Advances src p room t u) : Advances src p room s u where
  kept := kept_steady.trans h.kept h'.kept
  sound hf hs := h'.sound (hf.kept h.kept) (h.sound hf hs)

theorem advances_steady (src : σ) (p : Profile) (room : Nat) : Steady (Advances src p room) where
  refl s := ⟨kept_steady.refl s, fun _ hs => hs⟩
  trans := Advances.trans
  telling s events := ⟨kept_steady.telling s events, fun _ hs => hs⟩

/-- A part of a search on the path of `s`, from `s` on, in which `I` stays true and no more than `cycles` cycles are
    cut. -/
def passage {R : Search Query Findings → Search Query Findings → Prop} {I : Search Query Findings → Prop}
    (hR : Steady R) (hkept : ∀ {s t}, R s t → Kept s t) (hI : ∀ {s t}, R s t → Fits room s → I s → I t)
    (s : Search Query Findings) (cycles : Nat) : Stretch where
  Keeps := R
  Starts t := Fits room t ∧ I t ∧ t.guard.active = s.guard.active ∧ s.gathered.cycles ≤ t.gathered.cycles
  Ends t := t.gathered.cycles ≤ cycles
  steady := hR
  forth h := by
    rintro ⟨hf, hs, ha, hc⟩
    exact ⟨hf.kept (hkept h), hI h hf hs, (hkept h).guard.active.trans ha, Nat.le_trans hc (hkept h).gathered⟩
  back h _ hc := Nat.le_trans (hkept h).gathered hc

/-! ### Answers by the rules -/

/-- `P` was found not to hold: not before a query on the path is met, and not at all if no cycle was cut meanwhile. -/
structure Denied (src : σ) (p : Profile) (s t : Search Query Findings) (P : Nat → Prop) : Prop where
  onPath : Barred src p s.guard.active P
  anywhere : t.gathered.cycles = s.gathered.cycles → Barred src p [] P

/-- Answers are right with room for `room` levels: a match is one by the rules, and anything else was denied. -/
structure Reliable (src : σ) (p : Profile) (room : Nat) (recur : TypeRef → TypeRef → UnifyM Unification) : Prop where
  advances : ∀ a b, Attempt.Keeps (Advances src p room) (recur a b)
  found : ∀ {a b s t answer}, Fits room s → Sound src p s → recur a b s = (.ok answer, t) → answer.isMatch = true →
    Correct src p a b answer
  denied : ∀ {a b s t answer}, Fits room s → Sound src p s → recur a b s = (.ok answer, t) → answer.isMatch = false →
    Denied src p s t fun n => MatchesIn src p n a b

section Rules

variable (hrec : Reliable src p room recur) (hf : Fits room s) (hs : Sound src p s)
  (h : tryRules src p recur a b s = (.ok answer, t))

include hrec hf hs h

/-- What the rules answer if a negative answer on the way excludes `N`, as long as no more than `cycles` cycles are
    cut. -/
theorem tryRules_ruled {N : TypeRef → TypeRef → Prop} {cycles : Nat} (hc : t.gathered.cycles ≤ cycles)
    (hN : ∀ {x y s' t'}, Fits room s' → Sound src p s' → s'.guard.active = s.guard.active →
      s.gathered.cycles ≤ s'.gathered.cycles → t'.gathered.cycles ≤ cycles →
      recur x y s' = (.ok .noMatch, t') → ¬N x y) :
    Ruled src p (Matches src p) N a b answer := by
  let C := passage (advances_steady src p room) Advances.kept Advances.sound s cycles
  have hchild : ∀ x y, Asks src p a b x y →
      C.Yields (recur x y) fun w => Tells (Matches src p x y) (N x y) w.isMatch := by
    rintro x y - s' t' w ⟨hf', hs', hpath, hfrom⟩ hw hto
    refine ⟨fun hm => (hrec.found hf' hs' hw hm).isMatch.mp hm, fun hm => ?_⟩
    cases Unification.eq_noMatch hm
    exact hN hf' hs' hpath hfrom hto hw
  exact tryRules_yields hrec.advances hchild s t answer ⟨hf, hs, rfl, Nat.le_refl _⟩ h hc

theorem tryRules_found (hm : answer.isMatch = true) : Correct src p a b answer := by
  have hruled := tryRules_ruled hrec hf hs h (N := fun _ _ => False) (Nat.le_refl _) fun _ _ _ _ _ _ => id
  exact ⟨⟨fun _ => .of_rule (hruled.found hm), fun _ => hm⟩, hruled.binding⟩

theorem tryRules_denied (hm : answer.isMatch = false) :
    Denied src p s t fun n => ByRule src p (MatchesIn src p n) a b := by
  refine ⟨fun n hn => ?_, fun hc n hn => ?_⟩
  · by_contra hfree
    refine (tryRules_ruled hrec hf hs h (N := MatchesIn src p n) (Nat.le_refl _) ?_).denied hm hn
    intro x y s' t' hf' hs' hpath _ _ hw hxy
    have hbarred := (hrec.denied hf' hs' hw rfl).onPath n hxy
    rw [hpath] at hbarred
    exact hfree hbarred
  · -- No cycle is cut on the way, so what is denied there is denied on every path.
    refine absurd hn ((tryRules_ruled hrec hf hs h (Nat.le_of_eq hc) ?_).denied hm)
    intro x y s' t' hf' hs' _ hfrom hto hw hxy
    have hcut : t'.gathered.cycles = s'.gathered.cycles :=
      Nat.le_antisymm (Nat.le_trans hto hfrom) ((hrec.advances x y).of_eq hw).kept.gathered
    obtain ⟨q, hq, -⟩ := (hrec.denied hf' hs' hw rfl).anywhere hcut n hxy
    cases hq

end Rules

/-! ### Every level -/

section Levels

/-- What is remembered after an answer stays right if the answer is right whenever it is remembered. -/
theorem Sound.remember {before : Nat} (hs : Sound src p s)
    (h : answer.isMatch = true ∨ s.gathered.cycles = before → Correct src p a b answer) :
    Sound src p (remember before a b answer s) := by
  intro c d found hfound
  change known _ (c, d) = some found at hfound
  rw [known_remember] at hfound
  split at hfound
  · rename_i hnew
    cases hnew.1
    cases hfound
    exact h hnew.2
  · exact hs c d found hfound

/-- A query that the guard lets in finds room for the level below it. -/
theorem Fits.entered (hf : Fits room s) (hd : s.guard.depth < s.guard.maxDepth) (q : Query) :
    ∃ k, room = k + 1 ∧ Fits k { s with guard := s.guard.entered q } := by
  unfold Fits at hf
  refine ⟨room - 1, by omega, ?_⟩
  show s.guard.maxDepth ≤ s.guard.depth + 1 + (room - 1)
  omega

variable (hrec : ∀ k, room = k + 1 → Reliable src p k recur) (hf : Fits room s) (hs : Sound src p s)

include hrec hf hs

theorem visit_found (h : visit src p recur a b s = (.ok answer, t)) (hm : answer.isMatch = true) :
    Correct src p a b answer := by
  rcases visit_eq_ok h with ⟨hmemo, -⟩ | ⟨-, rfl, -⟩ | ⟨u, -, -, hd, hrun, -⟩
  · exact hs a b answer hmemo
  · cases hm
  · obtain ⟨k, hk, hf'⟩ := hf.entered hd (a, b)
    exact tryRules_found (hrec k hk) hf' hs hrun hm

theorem visit_denied (h : visit src p recur a b s = (.ok answer, t)) (hm : answer.isMatch = false) :
    Denied src p s t fun n => MatchesIn src p n a b := by
  rcases visit_eq_ok h with ⟨hmemo, -⟩ | ⟨ha, -, rfl⟩ | ⟨u, -, -, hd, hrun, rfl⟩
  · have hno : ¬Matches src p a b := fun hab => by
      rw [(hs a b answer hmemo).isMatch.mpr hab] at hm
      cases hm
    exact ⟨.of_not_matches hno, fun _ => .of_not_matches hno⟩
  · -- The query is on the path already. The cut is counted, so nothing is claimed for other paths.
    exact ⟨.of_mem ha, fun hc => absurd hc (Nat.succ_ne_self _)⟩
  · obtain ⟨k, hk, hf'⟩ := hf.entered hd (a, b)
    have hdenied := tryRules_denied (hrec k hk) hf' hs hrun hm
    refine ⟨.of_rules hdenied.onPath, fun hc => .of_rules_nil (hdenied.anywhere ?_)⟩
    rw [remember_cycles] at hc
    exact hc

theorem visit_sound : Sound src p (visit src p recur a b s).2 := by
  rcases visit_cases src p recur a b s with ⟨_, -, hv⟩ | ⟨-, hv⟩ | ⟨-, hv⟩ | ⟨-, -, hv⟩ | ⟨-, -, hd, hv⟩
  · rw [hv]
    exact hs
  · rw [hv]
    exact hs
  · rw [hv]
    exact hs
  · rw [hv]
    exact hs
  · obtain ⟨k, hk, hf'⟩ := hf.entered hd (a, b)
    have hkeeps : Attempt.Keeps (Advances src p k) (tryRules src p recur a b) :=
      tryRules_keeps (advances_steady src p k) (hrec k hk).advances a b
    rcases hrun : tryRules src p recur a b { s with guard := s.guard.entered (a, b) } with ⟨e | answer, u⟩ <;>
      rw [hrun] at hv
    · rw [hv]
      exact (hkeeps.of_eq hrun).sound hf' hs
    · have hleft : Sound src p { u with guard := u.guard.release (a, b) } := (hkeeps.of_eq hrun).sound hf' hs
      rw [hv]
      refine hleft.remember fun hr => ?_
      cases hm : answer.isMatch with
      | true => exact visit_found hrec hf hs hv hm
      | false =>
        -- No cycle was cut on the way, so the answer holds on every path.
        have hc : u.gathered.cycles = s.gathered.cycles := hr.resolve_left (by simp [hm])
        have hdenied := (visit_denied hrec hf hs hv hm).anywhere ((remember_cycles _ a b answer _).trans hc)
        obtain rfl := Unification.eq_noMatch hm
        exact .of_not_matches hdenied.not_matches

end Levels

theorem visit_reliable (hk : ∀ a b, Attempt.Keeps Kept (recur a b))
    (hrec : ∀ k, room = k + 1 → Reliable src p k recur) :
    Reliable src p room (visit src p recur) where
  advances a b s := ⟨visit_kept hk a b s, fun hf hs => visit_sound hrec hf hs⟩
  found := visit_found hrec
  denied := visit_denied hrec

theorem solve_reliable (src : σ) (p : Profile) : ∀ room, Reliable src p room (solve src p room)
  | 0 => visit_reliable (fun _ _ => .pure kept_steady.refl _) nofun
  | room + 1 => visit_reliable (solve_kept src p room) fun k hk => by
    cases hk
    exact solve_reliable src p room

end UnifyM

/-! ### Unifiers over time -/

namespace Unifier

variable {u : Unifier} {a b : TypeRef}

/-- The unifier after it was asked some queries, whatever came of them. -/
def after (src : σ) (u : Unifier) (history : List Query) : Unifier :=
  history.foldl (fun u q => (u.unify src q.1 q.2).unifier) u

/-- Between queries nothing is in work, the limits for supertypes are those of the profile, and what is remembered is
    right. -/
structure Ready (src : σ) (p : Profile) (u : Unifier) : Prop where
  idle : u.guard.active = []
  closure : u.closure = p.closure
  sound : ∀ a b answer, u.memo[(a, b)]? = some answer → Correct src p.closure a b answer

/-- The state in which the search for an answer begins. -/
def start (u : Unifier) : Search Query Findings :=
  { guard := u.guard.restart, gathered := { memo := u.memo, cycles := u.cycles } }

/-- A fresh unifier remembers nothing. -/
theorem known_ofProfile (p : Profile) (q : Query) : UnifyM.known (Unifier.ofProfile p).start q = none :=
  Std.HashMap.getElem?_empty

theorem Ready.ofProfile (src : σ) (p : Profile) : Ready src p (.ofProfile p) where
  idle := rfl
  closure := rfl
  sound a b answer h := by cases (known_ofProfile p (a, b)).symm.trans h

theorem Ready.start_fits (h : Ready src p u) : UnifyM.Fits u.guard.maxDepth u.start := by
  unfold UnifyM.Fits start
  rw [Guard.restart_of_inactive h.idle]
  exact Nat.le_add_left _ _

theorem start_active (h : u.guard.active = []) : u.start.guard.active = [] := by
  unfold start
  rw [Guard.restart_of_inactive h]
  exact h

theorem Ready.unify (h : Ready src p u) (a b : TypeRef) : Ready src p (u.unify src a b).unifier := by
  unfold Unifier.unify
  split
  · exact h
  · exact h
  · have hadv := (UnifyM.solve_reliable src p.closure u.guard.maxDepth).advances a b u.start
    refine ⟨?_, h.closure, ?_⟩
    · show (UnifyM.solve src u.closure u.guard.maxDepth a b u.start).2.guard.active = []
      rw [h.closure, hadv.kept.guard.active]
      exact start_active h.idle
    · show UnifyM.Sound src p.closure (UnifyM.solve src u.closure u.guard.maxDepth a b u.start).2
      rw [h.closure]
      exact hadv.sound h.start_fits h.sound

theorem Ready.after (h : Ready src p u) (history : List Query) : Ready src p (u.after src history) := by
  induction history generalizing u with
  | nil => exact h
  | cons q history ih => exact ih (h.unify q.1 q.2)

theorem Ready.correct (h : Ready src p u) {answer : Unification} (hr : (u.unify src a b).result = .ok answer) :
    Correct src p.closure a b answer := by
  unfold Unifier.unify at hr
  split at hr
  · cases hr
  · cases hr
  · have hrun : UnifyM.solve src p.closure u.guard.maxDepth a b u.start =
        (.ok answer, (UnifyM.solve src p.closure u.guard.maxDepth a b u.start).2) := by
      rw [← h.closure]
      exact Prod.ext hr rfl
    have hsolve := UnifyM.solve_reliable src p.closure u.guard.maxDepth
    cases hm : answer.isMatch with
    | true => exact hsolve.found h.start_fits h.sound hrun hm
    | false =>
      have hbarred := (hsolve.denied h.start_fits h.sound hrun hm).onPath
      rw [start_active h.idle] at hbarred
      obtain rfl := Unification.eq_noMatch hm
      exact .of_not_matches hbarred.not_matches

end Unifier

/-- Whatever a unifier was asked before, and however that ended: if it answers, there is a match exactly if the rules
    allow one, and parameters are bound exactly if a closed reference meets the open definition of its own symbol. -/
theorem unify_ok_correct (src : σ) (p : Profile) (history : List Query) {a b : TypeRef} {answer : Unification}
    (h : (((Unifier.ofProfile p).after src history).unify src a b).result = .ok answer) :
    (answer.isMatch = true ↔ Matches src p.closure a b) ∧
    answer.instantiation? = if a.symbol = b.symbol ∧ b.IsOpen ∧ ¬a.IsOpen then some a.args else none :=
  have hc := ((Unifier.Ready.ofProfile src p).after history).correct h
  ⟨hc.isMatch, hc.binding⟩

/-- Two declarations that are each an interface of the other one, and a third one that stands alone. -/
def mutualPair : Catalogue where
  entries :=
    [{ symbol := ⟨1⟩, arity := 0, interfaces := [⟨⟨2⟩, []⟩] }, { symbol := ⟨2⟩, arity := 0, interfaces := [⟨⟨1⟩, []⟩] },
     { symbol := ⟨3⟩, arity := 0 }]

/-- A query for which cycles were cut does not spoil the next one. -/
theorem unify_ok_correct_after_cut :
    (((Unifier.ofProfile (.custom 3 100)).after mutualPair [(⟨⟨3⟩, []⟩, ⟨⟨1⟩, []⟩)]).unify mutualPair
      ⟨⟨2⟩, []⟩ ⟨⟨1⟩, []⟩).result = .ok .matched ∧
    Matches mutualPair (.custom 3 100) ⟨⟨2⟩, []⟩ ⟨⟨1⟩, []⟩ := by
  have h : (((Unifier.ofProfile (.custom 3 100)).after mutualPair [(⟨⟨3⟩, []⟩, ⟨⟨1⟩, []⟩)]).unify mutualPair
      ⟨⟨2⟩, []⟩ ⟨⟨1⟩, []⟩).result = .ok .matched := by
    simp only [Unifier.after, List.foldl_cons, List.foldl_nil]
    cbv
  exact ⟨h, (unify_ok_correct mutualPair _ _ h).1.mp rfl⟩

end Nominal
