import Nominal.Proofs.Ancestry
import Nominal.Proofs.Paths

/-! What a negative answer says elsewhere. An answer that there is no match was found after the supertypes were listed,
    of the type on hand and of each type in turn. So it refutes not only the matches over the source that was asked, but
    those over any source, within any limits, whose supertypes are all among the listed ones (`Outlists`). -/

namespace Nominal

variable {σ σ' : Type} [TypeSource σ] [TypeSource σ'] {src : σ} {src' : σ'} {p p' : Profile}
  {S N : TypeRef → TypeRef → Prop} {a b : TypeRef}

/-! ### Longer lists -/

theorem BaseChain.next?_symbol {r r' : TypeRef} (h : r'.symbol = r.symbol) :
    (next? src r').map TypeRef.symbol = (next? src r).map TypeRef.symbol := by
  unfold next?
  rw [h]
  cases TypeSource.base? src r.symbol with
  | none => rfl
  | some x => cases hx : TypeSource.isRoot src x.symbol <;> simp [hx, TypeRef.instantiate, TypeRef.substitute]

/-- Whether a climb ends by itself depends on the symbol it starts from, not on the arguments. -/
theorem BaseChain.failure?_of_symbol {limit room : Nat} {passed : List Symbol} {r r' : TypeRef}
    (h : r'.symbol = r.symbol) (hr : (climb src limit room passed r).failure? = none) :
    (climb src limit room passed r').failure? = none := by
  induction room generalizing passed r r' with
  | zero =>
    obtain ⟨hend, -⟩ | ⟨_, _, _, _, h0, -⟩ := climb_cases hr
    · rw [climb_of_end (Option.map_eq_none_iff.mp ((next?_symbol h).trans (Option.map_eq_none_iff.mpr hend)))]
    · cases h0
  | succ room ih =>
    obtain ⟨hend, -⟩ | ⟨b, rest, hb, hfresh, hrest, hok, -⟩ := climb_cases hr
    · rw [climb_of_end (Option.map_eq_none_iff.mp ((next?_symbol h).trans (Option.map_eq_none_iff.mpr hend)))]
    · cases hrest
      obtain ⟨b', hb', hs⟩ := Option.map_eq_some_iff.mp
        ((next?_symbol h).trans (congrArg (Option.map TypeRef.symbol) hb))
      rw [climb_of_below hb' (hs ▸ hfresh), hs]
      exact ih hs hok

/-- Where the supertypes of a reference are listed, so are those of its declaration. -/
theorem exists_supertypes_of_supertypesOf {l : List TypeRef} (h : supertypesOf src b p = .ok l) :
    ∃ l', supertypes src b.symbol p = .ok l' := by
  obtain ⟨found, hfound, hchain, -⟩ := supertypesOf_eq_ok h
  unfold supertypes
  cases hd : TypeSource.definition? src b.symbol with
  | none => exact ⟨[], rfl⟩
  | some d =>
    obtain ⟨n, -, rfl⟩ := Option.map_eq_some_iff.mp hd
    have hchain' : (BaseChain.above src p.maxDepth (.opened b.symbol n)).failure? = none :=
      BaseChain.failure?_of_symbol (r := b) rfl hchain
    have hfound' : TypeSource.interfacesWithin src (TypeRef.opened b.symbol n).symbol p = .ok found := hfound
    simp [supertypesOf, Ancestry.supertypes, Ancestry.ofRef, hfound', hchain', Except.map]

/-- Where `src` lists supertypes, it lists all those that `src'` does and that `S` allows for some type that is asked
    for. -/
structure Outlists (src : σ) (p : Profile) (src' : σ') (p' : Profile) (S : TypeRef → TypeRef → Prop) : Prop where
  symbol : ∀ {c l l'}, supertypes src c p = .ok l → supertypes src' c p' = .ok l' → ∀ x, ∀ q ∈ l', S x q → q ∈ l
  ref : ∀ {r l l'}, supertypesOf src r p = .ok l → supertypesOf src' r p' = .ok l' → ∀ x, ∀ q ∈ l', S x q → q ∈ l

/-- A rule over the other source is one over the source that lists more. -/
theorem Outlists.byRule (h : Outlists src p src' p' S) (hN : ∀ x y, N x y → S x y) {l : List TypeRef}
    (hl : supertypesOf src b p = .ok l) (hab : ByRule src' p' N a b) : ByRule src p N a b := by
  cases hab with
  | opened same isOpen => exact .opened same isOpen
  | arguments same pairs => exact .arguments same pairs
  | definition walk mem premise =>
    obtain ⟨l', hl'⟩ := exists_supertypes_of_supertypesOf hl
    exact .definition hl' (h.symbol hl' walk _ _ mem (hN _ _ premise)) premise
  | supertype walk mem premise => exact .supertype hl (h.ref hl walk _ _ mem (hN _ _ premise)) premise

/-- What `S` allows off a path. -/
def Beside (S : TypeRef → TypeRef → Prop) (path : List Query) (x y : TypeRef) : Prop := S x y ∧ (x, y) ∉ path

/-- A match off a path has a last rule with premises off the path that the match itself lengthens. -/
theorem MatchesWithin.entered {path : List Query} (h : MatchesWithin src p (Beside S path) a b) :
    ByRule src p (MatchesWithin src p (Beside S ((a, b) :: path))) a b := by
  refine h.once.mono fun x y => .mono ?_
  rintro x y ⟨⟨hs, hoff⟩, hne⟩
  refine ⟨hs, fun hmem => ?_⟩
  rcases List.mem_cons.mp hmem with same | hmem
  · exact hne same
  · exact hoff hmem

namespace UnifyM

variable {room k : Nat} {recur : TypeRef → TypeRef → UnifyM Unification} {s t u : Search Query Findings}
  {answer : Unification}

/-- Each negative answer that is remembered refutes a match over the other source. -/
def Refuted (src' : σ') (p' : Profile) (S : TypeRef → TypeRef → Prop) (s : Search Query Findings) : Prop :=
  ∀ a b, known s (a, b) = some .noMatch → ¬MatchesWithin src' p' S a b

/-- What holds between the states before and after a part of a search that has room for `room` levels. -/
structure Refines (src' : σ') (p' : Profile) (S : TypeRef → TypeRef → Prop) (room : Nat) (s t : Search Query Findings) :
    Prop where
  kept : Kept s t
  refuted : Fits room s → Refuted src' p' S s → Refuted src' p' S t

theorem refines_steady (src' : σ') (p' : Profile) (S : TypeRef → TypeRef → Prop) (room : Nat) :
    Steady (Refines src' p' S room) where
  refl s := ⟨kept_steady.refl s, fun _ => id⟩
  trans h h' := ⟨kept_steady.trans h.kept h'.kept, fun hf hs => h'.refuted (hf.kept h.kept) (h.refuted hf hs)⟩
  telling s events := ⟨kept_steady.telling s events, fun _ => id⟩

/-- A negative answer refutes a match off the path, and, if no cycle was cut, a match on any path. -/
structure Refutes (src' : σ') (p' : Profile) (S : TypeRef → TypeRef → Prop) (room : Nat)
    (recur : TypeRef → TypeRef → UnifyM Unification) : Prop where
  keeps : ∀ a b, Attempt.Keeps (Refines src' p' S room) (recur a b)
  onPath : ∀ {a b s t answer}, Fits room s → Refuted src' p' S s → recur a b s = (.ok answer, t) →
    answer.isMatch = false → ¬MatchesWithin src' p' (Beside S s.guard.active) a b
  anywhere : ∀ {a b s t answer}, Fits room s → Refuted src' p' S s → recur a b s = (.ok answer, t) →
    answer.isMatch = false → t.gathered.cycles = s.gathered.cycles → ¬MatchesWithin src' p' S a b

/-- If the queries that a query asks in turn refute `N`, then no rule over the other source concludes it from `N`. -/
theorem not_byRule_of_tryRules {C : Stretch} (h : Outlists src p src' p' S) (hN : ∀ x y, N x y → S x y)
    (hk : ∀ x y, Attempt.Keeps C.Keeps (recur x y))
    (hrec : ∀ x y, C.Yields (recur x y) fun w => w.isMatch = false → ¬N x y) (hs : C.Starts s)
    (hrun : tryRules src p recur a b s = (.ok answer, t)) (ht : C.Ends t) (hno : answer.isMatch = false) :
    ¬ByRule src' p' N a b := by
  have hchild : ∀ x y, Asks src p a b x y → C.Yields (recur x y) fun w => Tells True (N x y) w.isMatch :=
    fun x y _ s t w hs hw ht => ⟨fun _ => trivial, hrec x y s t w hs hw ht⟩
  have hruled := tryRules_yields (M := fun _ _ => True) hk hchild s t answer hs hrun ht
  obtain ⟨above, hl⟩ := hruled.listed hno
  exact fun hab => hruled.denied hno (h.byRule hN hl hab)

section Rules

variable (h : Outlists src p src' p' S) (hrec : Refutes src' p' S k recur) (hf : Fits k s) (hs : Refuted src' p' S s)
  (hrun : tryRules src p recur a b s = (.ok answer, t)) (hno : answer.isMatch = false)

include h hrec hf hs hrun hno

theorem tryRules_refutes : ¬ByRule src' p' (MatchesWithin src' p' (Beside S s.guard.active)) a b := by
  let C := passage (refines_steady src' p' S k) Refines.kept Refines.refuted s t.gathered.cycles
  refine not_byRule_of_tryRules (C := C) h (fun x y hxy => hxy.inv.1.1) hrec.keeps ?_ ⟨hf, hs, rfl, Nat.le_refl _⟩ hrun
    (Nat.le_refl _) hno
  rintro x y s' t' w ⟨hf', hs', hpath, -⟩ hw - hw'
  have hchild := hrec.onPath hf' hs' hw hw'
  rw [hpath] at hchild
  exact hchild

theorem tryRules_refutes_anywhere (hc : t.gathered.cycles = s.gathered.cycles) :
    ¬ByRule src' p' (MatchesWithin src' p' S) a b := by
  let C := passage (refines_steady src' p' S k) Refines.kept Refines.refuted s s.gathered.cycles
  refine not_byRule_of_tryRules (C := C) h (fun x y hxy => hxy.inv.1) hrec.keeps ?_ ⟨hf, hs, rfl, Nat.le_refl _⟩ hrun
    (Nat.le_of_eq hc) hno
  rintro x y s' t' w ⟨hf', hs', -, hstart⟩ hw hend hw'
  -- No cycle was cut before this query, nor is one until the end, so none is in between.
  have hgrown := ((hrec.keeps x y).of_eq hw).kept.gathered
  exact hrec.anywhere hf' hs' hw hw' (Nat.le_antisymm (Nat.le_trans hend hstart) hgrown)

end Rules

section Levels

variable (h : Outlists src p src' p' S) (hrec : ∀ k, room = k + 1 → Refutes src' p' S k recur)

include h hrec

theorem visit_onPath (hf : Fits room s) (hs : Refuted src' p' S s) (hrun : visit src p recur a b s = (.ok answer, t))
    (hno : answer.isMatch = false) : ¬MatchesWithin src' p' (Beside S s.guard.active) a b := by
  rcases visit_eq_ok hrun with ⟨hm, -⟩ | ⟨ha, -⟩ | ⟨u, -, -, hd, hr, -⟩
  · rw [Unification.eq_noMatch hno] at hm
    exact fun hab => hs a b hm (hab.mono fun _ _ => And.left)
  · exact fun hab => hab.inv.1.2 ha
  · obtain ⟨k, hk, hf'⟩ := hf.entered hd (a, b)
    exact fun hab => tryRules_refutes h (hrec k hk) hf' hs hr hno hab.entered

theorem visit_anywhere (hf : Fits room s) (hs : Refuted src' p' S s) (hrun : visit src p recur a b s = (.ok answer, t))
    (hno : answer.isMatch = false) (hc : t.gathered.cycles = s.gathered.cycles) : ¬MatchesWithin src' p' S a b := by
  rcases visit_eq_ok hrun with ⟨hm, -⟩ | ⟨-, -, rfl⟩ | ⟨u, -, -, hd, hr, rfl⟩
  · rw [Unification.eq_noMatch hno] at hm
    exact hs a b hm
  · exact absurd hc (Nat.succ_ne_self _)
  · obtain ⟨k, hk, hf'⟩ := hf.entered hd (a, b)
    rw [remember_cycles] at hc
    exact fun hab => tryRules_refutes_anywhere h (hrec k hk) hf' hs hr hno hc hab.inv.2

theorem visit_refuted (hf : Fits room s) (hs : Refuted src' p' S s) :
    Refuted src' p' S (visit src p recur a b s).2 := by
  rcases visit_cases src p recur a b s with
    ⟨found, -, hv⟩ | ⟨-, hv⟩ | ⟨-, hv⟩ | ⟨-, -, hv⟩ | ⟨hm, ha, hd, hv⟩
  · rw [hv]
    exact hs
  · rw [hv]
    exact hs
  · rw [hv]
    exact hs
  · rw [hv]
    exact hs
  · obtain ⟨k, hk, hf'⟩ := hf.entered hd (a, b)
    have hkeeps : Attempt.Keeps (Refines src' p' S k) (tryRules src p recur a b) :=
      tryRules_keeps (refines_steady src' p' S k) (hrec k hk).keeps a b
    rcases hr : tryRules src p recur a b { s with guard := s.guard.entered (a, b) } with ⟨e | found, u⟩ <;>
      rw [hr] at hv
    · rw [hv]
      exact (hkeeps.of_eq hr).refuted hf' hs
    · have hleft := (hkeeps.of_eq hr).refuted hf' hs
      intro c d hcd
      rw [hv, settle, known_remember] at hcd
      split at hcd
      · rename_i hnew
        cases hnew.1
        cases hcd
        -- A negative answer is remembered only if no cycle was cut.
        exact visit_anywhere h hrec hf hs hv rfl ((remember_cycles _ a b _ _).trans (hnew.2.resolve_left nofun))
      · exact hleft c d hcd

theorem visit_refutes (hk : ∀ a b, Attempt.Keeps Kept (recur a b)) : Refutes src' p' S room (visit src p recur) where
  keeps a b s := ⟨visit_kept hk a b s, fun hf hs => visit_refuted h hrec hf hs⟩
  onPath := visit_onPath h hrec
  anywhere := visit_anywhere h hrec

end Levels

theorem solve_refutes (h : Outlists src p src' p' S) : ∀ room, Refutes src' p' S room (solve src p room)
  | 0 => visit_refutes h nofun fun _ _ => .pure kept_steady.refl _
  | room + 1 => visit_refutes h (fun k hk => by cases hk; exact solve_refutes h room) (solve_kept src p room)

end UnifyM

/-! ### Unifiers over time -/

namespace Unifier

variable {u : Unifier}

theorem Settled.refuted_after (h : Outlists src p.closure src' p' S) (hu : Settled src p u)
    (hs : UnifyM.Refuted src' p' S u.start) (history : List Query) :
    UnifyM.Refuted src' p' S (u.after src history).start := by
  induction history generalizing u with
  | nil => exact hs
  | cons q history ih =>
    refine ih (hu.unify q.1 q.2) ?_
    show UnifyM.Refuted src' p' S (u.unify src q.1 q.2).unifier.start
    rcases unify_cases src p q.1 q.2 with ⟨e, herror⟩ | hsearch
    · rw [herror]
      exact hs
    · obtain ⟨r, z, hz, -, hnext⟩ := hsearch u hu
      rw [hnext]
      exact (((UnifyM.solve_refutes h p.maxDepth).keeps q.1 q.2).of_eq hz).refuted (hu.starts z).1 hs

/-- A negative answer, whatever was asked before, refutes a match over every source whose supertypes are among those
    that are listed. -/
theorem not_matchesWithin_of_unify (h : Outlists src p.closure src' p' S) {history : List Query} {answer : Unification}
    (hr : (((Unifier.ofProfile p).after src history).unify src a b).result = .ok answer)
    (hno : answer.isMatch = false) :
    ¬MatchesWithin src' p' S a b := by
  have hu := (Settled.ofProfile src p).after history
  have hfresh : UnifyM.Refuted src' p' S (Unifier.ofProfile p).start := by
    intro x y hxy
    cases (known_ofProfile p (x, y)).symm.trans hxy
  have hs := (Settled.ofProfile src p).refuted_after h hfresh history
  rcases unify_cases src p a b with ⟨e, herror⟩ | hsearch
  · rw [herror] at hr
    cases hr
  · obtain ⟨r, z, hz, hr', -⟩ := hsearch _ hu
    cases hr'.symm.trans hr
    intro hab
    refine (UnifyM.solve_refutes h p.maxDepth).onPath (hu.starts z).1 hs hz hno (hab.mono fun x y hxy => ⟨hxy, ?_⟩)
    rw [start_active hu.ready.idle]
    exact List.not_mem_nil

end Unifier

end Nominal
