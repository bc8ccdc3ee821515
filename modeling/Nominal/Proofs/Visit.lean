import Nominal.Proofs.Unification

/-! What one query does. It is answered from memory, or turned down by the guard at a limit, or cut, or let in and
    settled by the rules (`UnifyM.visit_cases`; `UnifyM.visit_eq_ok` says where an answer comes from). What the rules
    find follows from what the queries find that they ask in turn (`UnifyM.tryRules_yields`), seen over a stretch of a
    search: the end of the search may be known in advance. -/

namespace Nominal

/-- A stretch of a search: what holds across every part of it, what holds at its start and then all along, and what is
    known of its states from the end of the search. -/
structure Stretch where
  Keeps : Search Query Findings → Search Query Findings → Prop
  Starts : Search Query Findings → Prop
  Ends : Search Query Findings → Prop
  steady : UnifyM.Steady Keeps
  forth : ∀ {s t}, Keeps s t → Starts s → Starts t
  back : ∀ {s t}, Keeps s t → Starts s → Ends t → Ends s

namespace Stretch

variable {α β : Type} {C : Stretch} {x : UnifyM α} {f : α → UnifyM β} {Q : α → Prop} {Q' : β → Prop}

/-- If the computation answers within the stretch, its answer is one of `Q`. -/
def Yields (C : Stretch) (x : UnifyM α) (Q : α → Prop) : Prop :=
  ∀ s t v, C.Starts s → x s = (.ok v, t) → C.Ends t → Q v

theorem Yields.pure {v : α} (h : Q v) : C.Yields (Pure.pure v) Q := by
  intro s t v' _ hv _
  cases hv
  exact h

theorem Yields.bind (hx : C.Yields x Q) (hkx : Attempt.Keeps C.Keeps x) (hkf : ∀ v, Attempt.Keeps C.Keeps (f v))
    (hf : ∀ v, Q v → C.Yields (f v) Q') : C.Yields (x >>= f) Q' := by
  intro s t w hs h ht
  obtain ⟨v, u, hxs, hfu⟩ := Attempt.bind_eq_ok.mp h
  have hu : C.Starts u := C.forth (hkx.of_eq hxs) hs
  exact hf v (hx s u v hs hxs (C.back ((hkf v).of_eq hfu) hu ht)) u t w hu hfu ht

/-- The stretch of which nothing is known. -/
def free : Stretch where
  Keeps _ _ := True
  Starts _ := True
  Ends _ := True
  steady := ⟨fun _ => trivial, fun _ _ => trivial, fun _ _ => trivial⟩
  forth _ _ := trivial
  back _ _ _ := trivial

end Stretch

/-- What a match binds the parameters of an open definition to: the arguments of a closed reference of the same
    symbol. -/
def binding? (a b : TypeRef) : Option (List TypeArg) :=
  if a.symbol = b.symbol ∧ b.IsOpen ∧ ¬a.IsOpen then some a.args else none

theorem binding?_eq_none {a b : TypeRef} (h : ¬(a.symbol = b.symbol ∧ b.IsOpen)) : binding? a b = none := by
  unfold binding?
  rw [if_neg]
  rintro ⟨same, isOpen, -⟩
  exact h ⟨same, isOpen⟩

namespace UnifyM

variable {σ : Type} [TypeSource σ] {src : σ} {p : Profile} {recur : TypeRef → TypeRef → UnifyM Unification}
  {a b : TypeRef} {s : Search Query Findings}

/-! ### One query -/

/-- What is remembered of a query. -/
abbrev known (s : Search Query Findings) (q : Query) : Option Unification := s.gathered.memo[q]?

/-- The end of a query that was let in: the query is left, and an answer is remembered. -/
def settle (before : Nat) (a b : TypeRef) (o : Except Failure Unification × Search Query Findings) :
    Except Failure Unification × Search Query Findings :=
  match o.1 with
  | .ok answer => (.ok answer, remember before a b answer { o.2 with guard := o.2.guard.release (a, b) })
  | .error e => (.error e, { o.2 with guard := o.2.guard.release (a, b) })

theorem known_remember (before : Nat) (a b : TypeRef) (answer : Unification) (s : Search Query Findings) (q : Query) :
    known (remember before a b answer s) q =
      if q = (a, b) ∧ (answer.isMatch = true ∨ s.gathered.cycles = before) then some answer else known s q := by
  by_cases hr : answer.isMatch = true ∨ s.gathered.cycles = before
  · have hmemo : (remember before a b answer s).gathered.memo = s.gathered.memo.insert (a, b) answer := by
      rw [remember, if_pos hr]
    rw [known, hmemo, Std.HashMap.getElem?_insert]
    by_cases hq : q = (a, b)
    · rw [if_pos (beq_iff_eq.mpr hq.symm), if_pos ⟨hq, hr⟩]
    · rw [if_neg fun h => hq (beq_iff_eq.mp h).symm, if_neg fun h => hq h.1]
  · rw [if_neg fun h => hr h.2, known, remember, if_neg hr]

theorem visit_of_exhausted (hm : known s (a, b) = none)
    (hi : s.guard.maxIterations < Guard.countUp s.guard.iterations) :
    visit src p recur a b s = (.error (.exhausted s.guard.maxIterations), { s with guard := s.guard.refused }) := by
  refine visit_of_error hm ?_
  have he : s.guard.enter (a, b) = (s.guard.refused, .exhausted) := by
    simp [Guard.enter, hi, Guard.refused, Guard.tried]
  rw [SearchM.within, he]
  rfl

section Counted

variable (hm : known s (a, b) = none) (hi : Guard.countUp s.guard.iterations ≤ s.guard.maxIterations)

include hm hi

theorem visit_of_tooDeep (hd : s.guard.maxDepth ≤ s.guard.depth) :
    visit src p recur a b s = (.error (.tooDeep s.guard.maxDepth), { s with guard := s.guard.refused }) := by
  refine visit_of_error hm ?_
  have he : s.guard.enter (a, b) = (s.guard.refused, .tooDeep) := by
    simp [Guard.enter, Nat.not_lt.mpr hi, hd, Guard.refused, Guard.tried]
  rw [SearchM.within, he]
  rfl

theorem visit_of_active (hd : s.guard.depth < s.guard.maxDepth) (ha : (a, b) ∈ s.guard.active) :
    visit src p recur a b s = (.ok .noMatch, (cut a b { s with guard := s.guard.tried }).2) := by
  have he : s.guard.enter (a, b) = (s.guard.tried, .cycle) := by
    simp [Guard.enter, Nat.not_lt.mpr hi, Nat.not_le.mpr hd, Guard.isActive_iff.mpr ha, Guard.tried]
  have hw : SearchM.within (a, b) (cut a b) (tryRules src p recur a b) s =
      (.ok .noMatch, (cut a b { s with guard := s.guard.tried }).2) := by
    rw [SearchM.within, he]
    rfl
  rw [visit_of_ok hm hw]
  -- The cut has been counted, so the answer is not remembered.
  have hc : ¬(Unification.noMatch.isMatch = true ∨
      (cut a b { s with guard := s.guard.tried }).2.gathered.cycles = s.gathered.cycles) := by
    rintro (h | h)
    · cases h
    · exact Nat.succ_ne_self _ h
  rw [remember, if_neg hc]

theorem visit_of_entered (hd : s.guard.depth < s.guard.maxDepth) (ha : (a, b) ∉ s.guard.active) :
    visit src p recur a b s =
      settle s.gathered.cycles a b (tryRules src p recur a b { s with guard := s.guard.entered (a, b) }) := by
  have hna : s.guard.isActive (a, b) = false := by
    rw [Bool.eq_false_iff, Ne, Guard.isActive_iff]
    exact ha
  have he : s.guard.enter (a, b) = (s.guard.entered (a, b), .entered) := by
    simp [Guard.enter, Nat.not_lt.mpr hi, Nat.not_le.mpr hd, hna, Guard.entered, Guard.tried]
  rcases hr : tryRules src p recur a b { s with guard := s.guard.entered (a, b) } with ⟨e | answer, u⟩
  · refine visit_of_error hm ?_
    rw [SearchM.within, he]
    simp only [hr]
  · refine visit_of_ok hm ?_
    rw [SearchM.within, he]
    simp only [hr]

end Counted

/-- The five things that can come of a query. -/
theorem visit_cases (src : σ) (p : Profile) (recur : TypeRef → TypeRef → UnifyM Unification) (a b : TypeRef)
    (s : Search Query Findings) :
    (∃ answer, known s (a, b) = some answer ∧ visit src p recur a b s = (.ok answer, s)) ∨
    (known s (a, b) = none ∧
      visit src p recur a b s = (.error (.exhausted s.guard.maxIterations), { s with guard := s.guard.refused })) ∨
    (known s (a, b) = none ∧
      visit src p recur a b s = (.error (.tooDeep s.guard.maxDepth), { s with guard := s.guard.refused })) ∨
    (known s (a, b) = none ∧ (a, b) ∈ s.guard.active ∧
      visit src p recur a b s = (.ok .noMatch, (cut a b { s with guard := s.guard.tried }).2)) ∨
    (known s (a, b) = none ∧ (a, b) ∉ s.guard.active ∧ s.guard.depth < s.guard.maxDepth ∧
      visit src p recur a b s =
        settle s.gathered.cycles a b (tryRules src p recur a b { s with guard := s.guard.entered (a, b) })) := by
  cases hm : known s (a, b) with
  | some answer => exact Or.inl ⟨answer, rfl, visit_of_known hm⟩
  | none =>
    refine Or.inr ?_
    rcases Nat.lt_or_ge s.guard.maxIterations (Guard.countUp s.guard.iterations) with hi | hi
    · exact Or.inl ⟨rfl, visit_of_exhausted hm hi⟩
    · rcases Nat.lt_or_ge s.guard.depth s.guard.maxDepth with hd | hd
      · by_cases ha : (a, b) ∈ s.guard.active
        · exact Or.inr (Or.inr (Or.inl ⟨rfl, ha, visit_of_active hm hi hd ha⟩))
        · exact Or.inr (Or.inr (Or.inr ⟨rfl, ha, hd, visit_of_entered hm hi hd ha⟩))
      · exact Or.inr (Or.inl ⟨rfl, visit_of_tooDeep hm hi hd⟩)

/-- A query that is answered is answered from memory, or cut, or let in, and then it is the rules that answer. -/
theorem visit_eq_ok {answer : Unification} {t : Search Query Findings} (h : visit src p recur a b s = (.ok answer, t)) :
    (known s (a, b) = some answer ∧ t = s) ∨
    ((a, b) ∈ s.guard.active ∧ answer = .noMatch ∧ t = (cut a b { s with guard := s.guard.tried }).2) ∨
    ∃ u, known s (a, b) = none ∧ (a, b) ∉ s.guard.active ∧ s.guard.depth < s.guard.maxDepth ∧
      tryRules src p recur a b { s with guard := s.guard.entered (a, b) } = (.ok answer, u) ∧
      t = remember s.gathered.cycles a b answer { u with guard := u.guard.release (a, b) } := by
  rcases visit_cases src p recur a b s with
    ⟨found, hm, hv⟩ | ⟨-, hv⟩ | ⟨-, hv⟩ | ⟨-, ha, hv⟩ | ⟨hm, ha, hd, hv⟩ <;> rw [hv] at h
  · cases h
    exact Or.inl ⟨hm, rfl⟩
  · cases h
  · cases h
  · cases h
    exact Or.inr (Or.inl ⟨ha, rfl, rfl⟩)
  · rcases hr : tryRules src p recur a b { s with guard := s.guard.entered (a, b) } with ⟨e | found, u⟩ <;> rw [hr] at h
    · cases h
    · cases h
      exact Or.inr (Or.inr ⟨u, hm, ha, hd, rfl, rfl⟩)

/-! ### The rules -/

/-- The queries that the rules ask in turn to answer whether `b` can be used where `a` is asked for. -/
inductive Asks (src : σ) (p : Profile) (a b : TypeRef) : TypeRef → TypeRef → Prop where
  | argument {x y : TypeRef} (left : x.toArg ∈ a.args) (right : y.toArg ∈ b.args) : Asks src p a b x y
  | definition {above : List TypeRef} {q : TypeRef} (walk : supertypes src b.symbol p = .ok above) (mem : q ∈ above) :
      Asks src p a b a.definition q
  | supertype {above : List TypeRef} {q : TypeRef} (walk : supertypesOf src b p = .ok above) (mem : q ∈ above) :
      Asks src p a b a q

/-- A yes means `M`, and a no means that there is no `N`. -/
def Tells (M N : Prop) (yes : Bool) : Prop := (yes = true → M) ∧ (yes = false → ¬N)

/-- What the rules answer, given what was answered on the way: a match is one by a rule with premises in `M`. If there
    is no match, no rule has all its premises in `N`, and the supertypes have been listed. -/
structure Ruled (src : σ) (p : Profile) (M N : TypeRef → TypeRef → Prop) (a b : TypeRef)
    (answer : Unification) : Prop where
  found : answer.isMatch = true → ByRule src p M a b
  denied : answer.isMatch = false → ¬ByRule src p N a b
  listed : answer.isMatch = false → ∃ above, supertypesOf src b p = .ok above
  binding : answer.instantiation? = binding? a b

theorem climb_yields {C : Stretch} (above : Ancestry) : C.Yields (climb above) fun l => above.supertypes = .ok l := by
  intro s t l _ h _
  obtain ⟨_, _, -, h⟩ := Attempt.bind_eq_ok.mp h
  exact (Prod.mk.inj h).1

theorem climbSymbol_yields {C : Stretch} (src : σ) (p : Profile) (c : Symbol) :
    C.Yields (climbSymbol src p c) fun l => supertypes src c p = .ok l := by
  unfold climbSymbol supertypes
  cases TypeSource.definition? src c with
  | none => exact .pure rfl
  | some d => exact climb_yields _

theorem conclude_yields {C : Stretch} {Q : Unification → Prop} {rule : Rule} {answer : Unification} (h : Q answer) :
    C.Yields (conclude rule a b answer) Q := by
  intro s t v _ hv _
  cases hv
  exact h

section Yields

variable {C : Stretch} {M N : TypeRef → TypeRef → Prop} (hk : ∀ x y, Attempt.Keeps C.Keeps (recur x y))

include hk

theorem argMatches_yields {x y : TypeArg}
    (hrec : ∀ u v : TypeRef, u.toArg = x → v.toArg = y →
      C.Yields (recur u v) fun w => Tells (M u v) (N u v) w.isMatch) :
    C.Yields (argMatches recur x y) (Tells (ArgRelated M x y) (ArgRelated N x y)) := by
  match x, y with
  | .param x, .param y => exact .pure ⟨of_decide_eq_true, of_decide_eq_false⟩
  | .type c as, .type d bs =>
    exact .bind (hrec ⟨c, as⟩ ⟨d, bs⟩ rfl rfl) (hk _ _) (fun _ => .pure C.steady.refl _) fun _ => .pure
  | .param _, .type _ _ => exact .pure ⟨nofun, fun _ => id⟩
  | .type _ _, .param _ => exact .pure ⟨nofun, fun _ => id⟩

theorem argsMatch_yields {as bs : List TypeArg} (hl : as.length = bs.length)
    (hrec : ∀ u v : TypeRef, u.toArg ∈ as → v.toArg ∈ bs →
      C.Yields (recur u v) fun w => Tells (M u v) (N u v) w.isMatch) :
    C.Yields (argsMatch recur as bs)
      (Tells (List.Forall₂ (ArgRelated M) as bs) (List.Forall₂ (ArgRelated N) as bs)) := by
  induction as generalizing bs with
  | nil =>
    obtain rfl := List.length_eq_zero_iff.mp hl.symm
    exact .pure ⟨fun _ => .nil, nofun⟩
  | cons x as ih =>
    cases bs with
    | nil => cases hl
    | cons y bs =>
      refine .bind (argMatches_yields hk fun u v hu hv => hrec u v (hu ▸ List.mem_cons_self) (hv ▸ List.mem_cons_self))
        (argMatches_keeps C.steady hk x y) (fun related => ?_) fun related first => ?_
      · cases related with
        | true => exact argsMatch_keeps C.steady hk as bs
        | false => exact .pure C.steady.refl false
      · cases related with
        | false => exact .pure ⟨nofun, fun _ h => first.2 rfl (List.forall₂_cons.mp h).1⟩
        | true =>
          have rest := ih (Nat.succ.inj hl) fun u v hu hv =>
            hrec u v (List.mem_cons_of_mem x hu) (List.mem_cons_of_mem y hv)
          intro s t r hs h ht
          obtain ⟨yes, no⟩ := rest s t r hs h ht
          exact ⟨fun hr => .cons (first.1 rfl) (yes hr), fun hr hxy => no hr (List.forall₂_cons.mp hxy).2⟩

theorem firstMatch?_yields {a : TypeRef} {bs : List TypeRef}
    (hrec : ∀ q ∈ bs, C.Yields (recur a q) fun w => Tells (M a q) (N a q) w.isMatch) :
    C.Yields (firstMatch? recur a bs) fun via => Tells (∃ q ∈ bs, M a q) (∃ q ∈ bs, N a q) via.isSome := by
  induction bs with
  | nil => exact .pure ⟨nofun, fun _ ⟨_, hq, _⟩ => by cases hq⟩
  | cons b bs ih =>
    have keeps : ∀ v : Unification, Attempt.Keeps C.Keeps
        (if v.isMatch = true then pure (some b) else firstMatch? recur a bs) := fun v => by
      split
      · exact .pure C.steady.refl _
      · exact firstMatch?_keeps C.steady hk a bs
    refine .bind (hrec b List.mem_cons_self) (hk a b) keeps fun v first => ?_
    split
    · rename_i hv
      exact .pure ⟨fun _ => ⟨b, List.mem_cons_self, first.1 hv⟩, nofun⟩
    · rename_i hv
      intro s t via hs h ht
      obtain ⟨yes, no⟩ := ih (fun q hq => hrec q (List.mem_cons_of_mem b hq)) s t via hs h ht
      refine ⟨fun hvia => ?_, fun hvia ⟨q, hq, hn⟩ => ?_⟩
      · obtain ⟨q, hq, hm⟩ := yes hvia
        exact ⟨q, List.mem_cons_of_mem b hq, hm⟩
      · rcases List.mem_cons.mp hq with rfl | hq
        · exact first.2 (Bool.eq_false_iff.mpr hv) hn
        · exact no hvia ⟨q, hq, hn⟩

variable (hrec : ∀ x y, Asks src p a b x y → C.Yields (recur x y) fun w => Tells (M x y) (N x y) w.isMatch)

include hrec

theorem throughReference_yields :
    C.Yields (throughReference src p recur a b) fun w =>
      w.instantiation? = none ∧ (w.isMatch = true → ByRule src p M a b) ∧
      (w.isMatch = false → ∃ above, supertypesOf src b p = .ok above ∧ ¬∃ q ∈ above, N a q) := by
  have hlast (via : Option TypeRef) : Attempt.Keeps C.Keeps
      (via.elim (pure .noMatch) fun via => conclude (.supertype via) a b .matched) := by
    cases via with
    | some via => exact conclude_keeps C.steady _ a b _
    | none => exact .pure C.steady.refl _
  refine .bind (climb_yields _) (climb_keeps C.steady _)
    (fun l => .bind C.steady.trans (firstMatch?_keeps C.steady hk a l) hlast) fun l walk => ?_
  refine .bind (firstMatch?_yields hk fun q hq => hrec _ _ (.supertype walk hq))
    (firstMatch?_keeps C.steady hk a l) hlast fun via hvia => ?_
  cases via with
  | some via =>
    obtain ⟨q, hq, hm⟩ := hvia.1 rfl
    exact conclude_yields ⟨rfl, fun _ => .supertype walk hq hm, nofun⟩
  | none => exact .pure ⟨rfl, nofun, fun _ => ⟨l, walk, hvia.2 rfl⟩⟩

/-- If neither the supertypes of the declaration nor those of the reference give a match, both have been listed. -/
theorem throughSupertypes_yields :
    C.Yields (throughSupertypes src p recur a b) fun w =>
      w.instantiation? = none ∧ (w.isMatch = true → ByRule src p M a b) ∧
      (w.isMatch = false → ∃ above above', supertypes src b.symbol p = .ok above ∧ supertypesOf src b p = .ok above' ∧
        (¬∃ q ∈ above, N a.definition q) ∧ ¬∃ q ∈ above', N a q) := by
  have hthen (via : Option TypeRef) : Attempt.Keeps C.Keeps
      (via.elim (throughReference src p recur a b) fun via => conclude (.openSupertype via) a b .matched) := by
    cases via with
    | some via => exact conclude_keeps C.steady _ a b _
    | none => exact throughReference_keeps C.steady hk a b
  rw [throughSupertypes_unfold]
  refine .bind (climbSymbol_yields src p b.symbol) (climbSymbol_keeps C.steady src p b.symbol)
    (fun l => .bind C.steady.trans (firstMatch?_keeps C.steady hk a.definition l) hthen) fun l walk => ?_
  refine .bind (firstMatch?_yields hk fun q hq => hrec _ _ (.definition walk hq))
    (firstMatch?_keeps C.steady hk a.definition l) hthen fun via hvia => ?_
  cases via with
  | some via =>
    obtain ⟨q, hq, hm⟩ := hvia.1 rfl
    exact conclude_yields ⟨rfl, fun _ => .definition walk hq hm, nofun⟩
  | none =>
    intro s t w hs h ht
    obtain ⟨free, yes, no⟩ := throughReference_yields hk hrec s t w hs h ht
    refine ⟨free, yes, fun hw => ?_⟩
    obtain ⟨l', walk', hnone⟩ := no hw
    exact ⟨l, l', walk, walk', hvia.2 rfl, hnone⟩

theorem tryRules_yields : C.Yields (tryRules src p recur a b) (Ruled src p M N a b) := by
  have hthrough := throughSupertypes_yields hk hrec
  unfold tryRules
  split
  · rename_i hopen
    have hrule : ByRule src p M a b := .opened hopen.1 hopen.2
    split
    · rename_i ha
      exact conclude_yields ⟨fun _ => hrule, nofun, nofun, by simp [Unification.instantiation?, binding?, ha]⟩
    · rename_i ha
      exact conclude_yields ⟨fun _ => hrule, nofun, nofun, by simp [Unification.instantiation?, binding?, ha, hopen]⟩
  · rename_i hopen
    have free : none = binding? a b := (binding?_eq_none hopen).symm
    -- The supertypes come last, after the arguments were compared, or could not be.
    have last : (a.symbol = b.symbol → ¬List.Forall₂ (ArgRelated N) a.args b.args) →
        C.Yields (throughSupertypes src p recur a b) (Ruled src p M N a b) := by
      intro hargs s t w hs h ht
      obtain ⟨hw, yes, no⟩ := hthrough s t w hs h ht
      refine ⟨yes, fun hno hn => ?_, fun hno => ?_, hw.trans free⟩
      · obtain ⟨above, above', walk, walk', noDefinition, noSupertype⟩ := no hno
        cases hn with
        | opened same isOpen => exact hopen ⟨same, isOpen⟩
        | arguments same pairs => exact hargs same pairs
        | definition walk₁ mem premise =>
          cases walk.symm.trans walk₁
          exact noDefinition ⟨_, mem, premise⟩
        | supertype walk₁ mem premise =>
          cases walk'.symm.trans walk₁
          exact noSupertype ⟨_, mem, premise⟩
      · obtain ⟨-, above', -, walk', -⟩ := no hno
        exact ⟨above', walk'⟩
    split
    · rename_i hargs
      refine .bind (argsMatch_yields hk hargs.2 fun u v hu hv => hrec u v (.argument hu hv))
        (argsMatch_keeps C.steady hk a.args b.args) (fun related => ?_) fun related hrel => ?_
      · cases related with
        | true => exact conclude_keeps C.steady _ a b _
        | false => exact throughSupertypes_keeps C.steady hk a b
      · cases related with
        | true => exact conclude_yields ⟨fun _ => .arguments hargs.1 (hrel.1 rfl), nofun, nofun, free⟩
        | false => exact last fun _ => hrel.2 rfl
    · rename_i hargs
      exact last fun same pairs => hargs ⟨same, pairs.length_eq⟩

end Yields

end UnifyM

end Nominal
