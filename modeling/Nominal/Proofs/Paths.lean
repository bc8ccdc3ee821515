import Nominal.Proofs.Answers
import Nominal.Proofs.Lockstep

/-! What an answer says about the path it was found on. A query is answered with yes exactly if the rules give a match
    without coming back to a query that is in work (`UnifyM.Exact`). This does not depend on what is remembered, as long
    as the memory is in order (`UnifyM.Orderly`): no query in work is remembered, what is remembered as a match rests on
    other remembered matches, and a negative answer can be found again from memory alone. -/

namespace Nominal

variable {σ : Type} [TypeSource σ] {src : σ} {p : Profile}

/-! ### Matches by some conclusions only -/

/-- `b` can be used where `a` is asked for by rules that conclude nothing but what `S` allows. -/
def MatchesWithin (src : σ) (p : Profile) (S : TypeRef → TypeRef → Prop) (a b : TypeRef) : Prop :=
  ∀ R : TypeRef → TypeRef → Prop, (∀ x y, S x y → ByRule src p R x y → R x y) → R a b

namespace MatchesWithin

variable {S S' : TypeRef → TypeRef → Prop} {a b : TypeRef}

theorem of_rule (hs : S a b) (h : ByRule src p (MatchesWithin src p S) a b) : MatchesWithin src p S a b :=
  fun R hR => hR a b hs (h.mono fun _ _ hxy => hxy R hR)

theorem mono (hS : ∀ x y, S x y → S' x y) (h : MatchesWithin src p S a b) : MatchesWithin src p S' a b :=
  fun R hR => h R fun x y hs => hR x y (hS x y hs)

theorem toMatches (h : MatchesWithin src p S a b) : Matches src p a b := fun R hR => h R fun x y _ => hR x y

theorem inv (h : MatchesWithin src p S a b) : S a b ∧ ByRule src p (MatchesWithin src p S) a b := by
  refine h (fun x y => S x y ∧ ByRule src p (MatchesWithin src p S) x y) fun x y hs hxy => ⟨hs, ?_⟩
  exact hxy.mono fun _ _ h => .of_rule h.1 h.2

/-- The last rule of a match has premises that do not need the match itself. -/
theorem once (h : MatchesWithin src p S a b) :
    ByRule src p (MatchesWithin src p fun x y => S x y ∧ (x, y) ≠ (a, b)) a b := by
  by_contra hno
  -- If it had not, the matches without `a` and `b` would be closed under the rules that `S` allows.
  have hab := h (MatchesWithin src p fun x y => S x y ∧ (x, y) ≠ (a, b)) fun x y hs hxy => by
    refine .of_rule ⟨hs, fun same => ?_⟩ hxy
    cases same
    exact hno hxy
  exact hab.inv.1.2 rfl

end MatchesWithin

/-- The queries that are not on a path. -/
def Off (path : List Query) (a b : TypeRef) : Prop := (a, b) ∉ path

theorem matchesWithin_off_iff {path : List Query} {a b : TypeRef} (h : (a, b) ∉ path) :
    MatchesWithin src p (Off path) a b ↔ ByRule src p (MatchesWithin src p (Off ((a, b) :: path))) a b := by
  constructor
  · intro hab
    refine hab.once.mono fun x y => .mono ?_
    rintro x y ⟨hoff, hne⟩ hmem
    rcases List.mem_cons.mp hmem with same | hmem
    · exact hne same
    · exact hoff hmem
  · intro hab
    refine .of_rule h (hab.mono fun x y => .mono ?_)
    exact fun x y hoff hmem => hoff (List.mem_cons_of_mem _ hmem)

namespace UnifyM

variable {room k before : Nat} {recur : TypeRef → TypeRef → UnifyM Unification} {s t u : Search Query Findings}
  {a b : TypeRef} {answer : Unification}

/-! ### Memory -/

/-- `memo'` knows all that `memo` knows. -/
def Covers (memo memo' : Query → Option Unification) : Prop := ∀ q answer, memo q = some answer → memo' q = some answer

theorem Covers.trans {m m' m'' : Query → Option Unification} (h : Covers m m') (h' : Covers m' m'') : Covers m m'' :=
  fun q answer hq => h' q answer (h q answer hq)

/-- Nothing is forgotten when an answer is remembered for the first time. -/
theorem covers_remember (hm : known s (a, b) = none) : Covers (known s) (known (remember before a b answer s)) := by
  intro q found hq
  rw [known_remember, if_neg]
  · exact hq
  · rintro ⟨rfl, -⟩
    cases hm.symm.trans hq

/-- Answers from memory, and fails if nothing is remembered. -/
def fromMemory (memo : Query → Option Unification) (a b : TypeRef) : UnifyM Unification :=
  match memo (a, b) with
  | some answer => pure answer
  | none => Attempt.fail (.exhausted 0)

theorem fromMemory_of_some {memo : Query → Option Unification} (h : memo (a, b) = some answer)
    (s : Search Query Findings) : fromMemory memo a b s = (.ok answer, s) := by
  rw [fromMemory, h]
  rfl

/-- Whoever knows all of `memo` finds the answer by the rules from memory alone. -/
def Explained (src : σ) (p : Profile) (memo : Query → Option Unification) (a b : TypeRef)
    (answer : Unification) : Prop :=
  ∀ memo', Covers memo memo' → ∀ s, ∃ t, tryRules src p (fromMemory memo') a b s = (.ok answer, t)

theorem Explained.mono {m m' : Query → Option Unification} (hm : Covers m m') (h : Explained src p m a b answer) :
    Explained src p m' a b answer := fun memo hmemo => h memo (hm.trans hmemo)

/-- A match is remembered. -/
def Met (memo : Query → Option Unification) (a b : TypeRef) : Prop :=
  ∃ answer, memo (a, b) = some answer ∧ answer.isMatch = true

theorem Met.mono {m m' : Query → Option Unification} (hm : Covers m m') (h : Met m a b) : Met m' a b := by
  obtain ⟨answer, hq, hmatch⟩ := h
  exact ⟨answer, hm _ _ hq, hmatch⟩

/-- The memory is in order. A match need not be explained if it was found on a path on which a cycle was cut. -/
structure Orderly (src : σ) (p : Profile) (s : Search Query Findings) : Prop where
  sound : Sound src p s
  tidy : ∀ q ∈ s.guard.active, known s q = none
  supported : ∀ {a b}, Met (known s) a b → MatchesWithin src p (Met (known s)) a b
  explained : ∀ {a b answer}, known s (a, b) = some answer → answer = .noMatch ∨ s.gathered.cycles = 0 →
    Explained src p (known s) a b answer

/-- What holds across a part of a search with room for `room` levels. -/
structure Orders (src : σ) (p : Profile) (room : Nat) (s t : Search Query Findings) : Prop where
  advances : Advances src p room s t
  counted : Fits room s → s.guard.iterations ≤ t.guard.iterations
  orderly : Fits room s → Orderly src p s → Orderly src p t ∧ Covers (known s) (known t)

theorem orders_steady (src : σ) (p : Profile) (room : Nat) : Steady (Orders src p room) where
  refl s := ⟨(advances_steady src p room).refl s, fun _ => Nat.le_refl _, fun _ hs => ⟨hs, fun _ _ => id⟩⟩
  trans h h' := by
    refine ⟨h.advances.trans h'.advances,
      fun hf => Nat.le_trans (h.counted hf) (h'.counted (hf.kept h.advances.kept)), fun hf hs => ?_⟩
    obtain ⟨ht, hst⟩ := h.orderly hf hs
    obtain ⟨hu, htu⟩ := h'.orderly (hf.kept h.advances.kept) ht
    exact ⟨hu, hst.trans htu⟩
  telling s events :=
    ⟨(advances_steady src p room).telling s events, fun _ => Nat.le_refl _, fun _ hs =>
      ⟨⟨hs.sound, hs.tidy, hs.supported, hs.explained⟩, fun _ _ => id⟩⟩

/-- A guard that trails another one still does after a part of the other search. -/
theorem Orders.trails {g : Guard Query} (h : Orders src p room s t) (hf : Fits room s) (hg : s.guard.Trails g) :
    t.guard.Trails g where
  depth := hg.depth.trans h.advances.kept.guard.depth.symm
  maxDepth := hg.maxDepth.trans h.advances.kept.guard.maxDepth.symm
  maxIterations := hg.maxIterations.trans h.advances.kept.guard.maxIterations.symm
  iterations := Nat.le_trans hg.iterations (h.counted hf)

namespace Orderly

/-- The guard matters only for what is in work, and the events do not matter. -/
theorem congr (h : Orderly src p s) {g : Guard Query} {events : Array Event} (hg : ∀ q ∈ g.active, known s q = none) :
    Orderly src p { guard := g, gathered := { s.gathered with events } } :=
  ⟨h.sound, hg, h.supported, h.explained⟩

theorem entered (h : Orderly src p s) (hm : known s (a, b) = none) :
    Orderly src p { s with guard := s.guard.entered (a, b) } := by
  refine h.congr fun q hq => ?_
  rcases List.mem_cons.mp hq with rfl | hq
  · exact hm
  · exact h.tidy q hq

theorem cut (h : Orderly src p s) (a b : TypeRef) : Orderly src p (UnifyM.cut a b s).2 :=
  ⟨h.sound, h.tidy, h.supported, fun hq hor => h.explained hq (hor.imp_right nofun)⟩

theorem remember (h : Orderly src p s) (hm : known s (a, b) = none) (ha : (a, b) ∉ s.guard.active)
    (hbefore : before ≤ s.gathered.cycles)
    (hsound : Sound src p (UnifyM.remember before a b answer s))
    (hrule : answer.isMatch = true → ByRule src p (Met (known s)) a b)
    (hexplained : s.gathered.cycles = before → Explained src p (known s) a b answer) :
    Orderly src p (UnifyM.remember before a b answer s) ∧
      Covers (known s) (known (UnifyM.remember before a b answer s)) := by
  have hcovers : Covers (known s) (known (UnifyM.remember before a b answer s)) := covers_remember hm
  refine ⟨⟨hsound, ?_, ?_, ?_⟩, hcovers⟩
  · intro q hq
    rw [known_remember, if_neg]
    · exact h.tidy q hq
    · rintro ⟨rfl, -⟩
      exact ha hq
  · intro c d hcd
    obtain ⟨found, hfound, hmatch⟩ := hcd
    rw [known_remember] at hfound
    have hold : ∀ x y, Met (known s) x y →
        MatchesWithin src p (Met (known (UnifyM.remember before a b answer s))) x y := fun x y hxy =>
      (h.supported hxy).mono fun _ _ => Met.mono hcovers
    split at hfound
    · rename_i hnew
      cases hnew.1
      cases hfound
      refine .of_rule ⟨answer, ?_, hmatch⟩ ((hrule hmatch).mono hold)
      rw [known_remember, if_pos hnew]
    · exact hold c d ⟨found, hfound, hmatch⟩
  · intro c d found hfound hor
    rw [remember_cycles] at hor
    rw [known_remember] at hfound
    split at hfound
    · rename_i hnew
      cases hnew.1
      cases hfound
      -- A negative answer is remembered only if no cycle was cut; and if none was ever cut, none was cut here.
      have hc : s.gathered.cycles = before := by
        rcases hor with rfl | hzero
        · exact hnew.2.resolve_left nofun
        · omega
      exact (hexplained hc).mono hcovers
    · exact (h.explained hfound hor).mono hcovers

end Orderly

/-! ### A stretch with a known end -/

/-- The part of a search between the entry of a query and its end `z`, with room for `k` levels. -/
def course (src : σ) (p : Profile) (k : Nat) (path : List Query) (z : Search Query Findings) : Stretch where
  Keeps := Orders src p k
  Starts s := Fits k s ∧ Orderly src p s ∧ s.guard.active = path
  Ends t := Covers (known t) (known z) ∧ t.gathered.cycles ≤ z.gathered.cycles
  steady := orders_steady src p k
  forth h := by
    rintro ⟨hf, hs, ha⟩
    exact ⟨hf.kept h.advances.kept, (h.orderly hf hs).1, h.advances.kept.guard.active.trans ha⟩
  back h := by
    rintro ⟨hf, hs, -⟩ ⟨hc, hn⟩
    exact ⟨(h.orderly hf hs).2.trans hc, Nat.le_trans h.advances.kept.gathered hn⟩

theorem course_entered {path : List Query} {z : Search Query Findings} (h : (course src p room path z).Starts s)
    (hm : known s (a, b) = none) (hd : s.guard.depth < s.guard.maxDepth) :
    ∃ k, room = k + 1 ∧ (course src p k ((a, b) :: path) z).Starts { s with guard := s.guard.entered (a, b) } := by
  obtain ⟨hf, hs, hpath⟩ := h
  obtain ⟨k, hk, hf'⟩ := hf.entered hd (a, b)
  exact ⟨k, hk, hf', hs.entered hm, congrArg ((a, b) :: ·) hpath⟩

/-- Two searches in step enter a query together. -/
theorem course_entered_both {s' : Search Query Findings} {path : List Query} {z : Search Query Findings}
    (hs : (course src p room path z).Starts s) (hs' : (course src p room path z).Starts s') (hm : known s (a, b) = none)
    (hm' : known s' (a, b) = none) (hg : s.guard.Trails s'.guard) (hd : s.guard.depth < s.guard.maxDepth) :
    ∃ k, room = k + 1 ∧ (course src p k ((a, b) :: path) z).Starts { s with guard := s.guard.entered (a, b) } ∧
      (course src p k ((a, b) :: path) z).Starts { s' with guard := s'.guard.entered (a, b) } := by
  obtain ⟨k, hk, hin⟩ := course_entered hs hm hd
  obtain ⟨k', hk', hin'⟩ := course_entered hs' hm' (hg.depth ▸ hg.maxDepth ▸ hd)
  cases hk.symm.trans hk'
  exact ⟨k, hk, hin, hin'⟩

theorem course_settled {path path' : List Query} {z : Search Query Findings} {r : Except Failure Unification}
    (hm : known u (a, b) = none) (h : (course src p room path z).Ends (settle before a b (r, u)).2) :
    (course src p k path' z).Ends u := by
  cases r with
  | error e => exact h
  | ok answer =>
    refine ⟨(covers_remember hm).trans h.1, Nat.le_trans (Nat.le_of_eq ?_) h.2⟩
    exact (remember_cycles before a b answer _).symm

theorem course_ends (src : σ) (p : Profile) (k : Nat) (path : List Query) (z : Search Query Findings) :
    (course src p k path z).Ends z := ⟨fun _ _ => id, Nat.le_refl _⟩

/-- Answers are exact for their path with room for `room` levels, and remembered unless they hold for that path only. -/
structure Exact (src : σ) (p : Profile) (room : Nat) (recur : TypeRef → TypeRef → UnifyM Unification) : Prop where
  reliable : Reliable src p room recur
  keeps : ∀ a b, Attempt.Keeps (Orders src p room) (recur a b)
  exact : ∀ {a b s t answer}, Fits room s → Orderly src p s → recur a b s = (.ok answer, t) →
    (answer.isMatch = true ↔ MatchesWithin src p (Off s.guard.active) a b)
  recalled : ∀ {a b s t answer}, recur a b s = (.ok answer, t) →
    answer.isMatch = true ∨ t.gathered.cycles = s.gathered.cycles → known t (a, b) = some answer

section Rules

variable (hrec : Exact src p k recur) (hf : Fits k s) (hs : Orderly src p s)

include hrec hf hs

theorem tryRules_exact (h : tryRules src p recur a b s = (.ok answer, t)) :
    answer.isMatch = true ↔ ByRule src p (MatchesWithin src p (Off s.guard.active)) a b := by
  have hchild : ∀ x y, Asks src p a b x y → (course src p k s.guard.active t).Yields (recur x y) fun w =>
      Tells (MatchesWithin src p (Off s.guard.active) x y)
        (MatchesWithin src p (Off s.guard.active) x y) w.isMatch := by
    rintro x y - s' t' w ⟨hf', hs', hpath⟩ hw -
    have hexact := hrec.exact hf' hs' hw
    rw [hpath] at hexact
    refine ⟨hexact.mp, fun hno hyes => ?_⟩
    rw [hexact.mpr hyes] at hno
    cases hno
  have hruled := tryRules_yields hrec.keeps hchild s t answer ⟨hf, hs, rfl⟩ h (course_ends src p k _ t)
  constructor
  · exact hruled.found
  · intro hyes
    by_contra hno
    exact hruled.denied (Bool.eq_false_iff.mpr hno) hyes

/-- A match rests on matches that are remembered in the end. -/
theorem tryRules_met (h : tryRules src p recur a b s = (.ok answer, t)) (hm : answer.isMatch = true) :
    ByRule src p (Met (known t)) a b := by
  have hchild : ∀ x y, Asks src p a b x y → (course src p k s.guard.active t).Yields (recur x y) fun w =>
      Tells (Met (known t) x y) False w.isMatch := by
    rintro x y - s' t' w - hw ⟨hcovers, -⟩
    exact ⟨fun hyes => ⟨w, hcovers _ _ (hrec.recalled hw (Or.inl hyes)), hyes⟩, fun _ => id⟩
  exact (tryRules_yields hrec.keeps hchild s t answer ⟨hf, hs, rfl⟩ h (course_ends src p k _ t)).found hm

/-- If no cycle was cut, every answer on the way is remembered, so the rules find their way again from memory. -/
theorem tryRules_explained (h : tryRules src p recur a b s = (.ok answer, t))
    (hc : t.gathered.cycles = s.gathered.cycles) : Explained src p (known t) a b answer := by
  intro memo hmemo s'
  let P : Pairing := {
    toStretch := course src p k s.guard.active t
    Link := fun u _ => (course src p k s.guard.active t).Starts u ∧ s.gathered.cycles ≤ u.gathered.cycles
    Alike := Eq
    Excused := fun _ _ => True
    Waived := fun _ _ => False
    starts := And.left
    telling := fun events _ hu => ⟨(course src p k _ t).forth ((orders_steady src p k).telling _ events) hu.1, hu.2⟩ }
  have htied : P.Tied Eq (tryRules src p recur a b) (tryRules src p (fromMemory memo) a b) := by
    refine tryRules_tied_self (fun _ => rfl) hrec.keeps fun x y _ u u' hu he => ?_
    have hk := hrec.keeps x y u
    rcases hxy : recur x y u with ⟨e | w, v⟩ <;> rw [hxy] at he hk
    · exact .excused trivial
    · have hcut : v.gathered.cycles = u.gathered.cycles := by
        have hle : u.gathered.cycles ≤ v.gathered.cycles := hk.advances.kept.gathered
        have hend : v.gathered.cycles ≤ t.gathered.cycles := he.2
        have hstart := hu.2
        omega
      rw [fromMemory_of_some (hmemo _ _ (he.1 _ _ (hrec.recalled hxy (Or.inr hcut))))]
      exact .answered rfl ⟨(course src p k _ t).forth hk hu.1, Nat.le_trans hu.2 hk.advances.kept.gathered⟩
  have ho := htied s s' ⟨⟨hf, hs, rfl⟩, Nat.le_refl _⟩ (by rw [h]; exact course_ends src p k _ t)
  rcases hr : tryRules src p (fromMemory memo) a b s' with ⟨e | w, t'⟩ <;> rw [h, hr] at ho
  · cases ho with
    | waived h => exact h.elim
  · cases ho with
    | answered same _ =>
      cases same
      exact ⟨t', rfl⟩

end Rules

/-! ### Every level -/

/-- What holds when the rules have come to an end for a query that was let in: the query is still not remembered, and
    once it is left, the memory is in order and the path is what it was. -/
theorem tryRules_leaves (hrec : Exact src p k recur) (hf : Fits k { s with guard := s.guard.entered (a, b) })
    (hs : Orderly src p s) (hm : known s (a, b) = none) {r : Except Failure Unification}
    (hr : tryRules src p recur a b { s with guard := s.guard.entered (a, b) } = (r, u)) :
    known u (a, b) = none ∧ Orderly src p { u with guard := u.guard.release (a, b) } ∧ Covers (known s) (known u) ∧
      (u.guard.release (a, b)).active = s.guard.active := by
  have hu := (tryRules_keeps (orders_steady src p k) hrec.keeps a b).of_eq hr
  obtain ⟨hou, hcovers⟩ := hu.orderly hf (hs.entered hm)
  have hactive : u.guard.active = (a, b) :: s.guard.active := hu.advances.kept.guard.active
  have hleft : (u.guard.release (a, b)).active = s.guard.active := by
    rw [Guard.release_of_active hactive]
  refine ⟨hou.tidy _ (hactive ▸ List.mem_cons_self), hou.congr fun q hq => ?_, hcovers, hleft⟩
  rw [hleft] at hq
  exact hou.tidy q (hactive ▸ List.mem_cons_of_mem _ hq)

section Levels

variable (hrec : ∀ k, room = k + 1 → Exact src p k recur) (hrel : Reliable src p room (visit src p recur))

include hrec hrel

theorem visit_orders (a b : TypeRef) : Attempt.Keeps (Orders src p room) (visit src p recur a b) := by
  intro s
  have hadv := hrel.advances a b s
  have hrefused : Orderly src p s → Orderly src p { s with guard := s.guard.refused } := fun hs => hs.congr hs.tidy
  rcases visit_cases src p recur a b s with
    ⟨answer, -, h⟩ | ⟨-, h⟩ | ⟨-, h⟩ | ⟨-, -, h⟩ | ⟨hm, ha, hd, h⟩ <;> rw [h] at hadv ⊢
  · exact (orders_steady src p room).refl s
  · exact ⟨hadv, fun _ => Guard.le_countUp _, fun _ hs => ⟨hrefused hs, fun _ _ => id⟩⟩
  · exact ⟨hadv, fun _ => Guard.le_countUp _, fun _ hs => ⟨hrefused hs, fun _ _ => id⟩⟩
  · refine ⟨hadv, fun _ => Guard.le_countUp _, fun _ hs => ⟨?_, fun _ _ => id⟩⟩
    have htried : Orderly src p { s with guard := s.guard.tried } := hs.congr hs.tidy
    exact htried.cut a b
  · rcases hr : tryRules src p recur a b { s with guard := s.guard.entered (a, b) } with ⟨r, u⟩
    have hcounted : Fits room s → s.guard.iterations ≤ (u.guard.release (a, b)).iterations := by
      intro hf
      obtain ⟨k, hk, hf'⟩ := hf.entered hd (a, b)
      have hu := (tryRules_keeps (orders_steady src p k) (hrec k hk).keeps a b).of_eq hr
      rw [Guard.release_of_active hu.advances.kept.guard.active]
      exact Nat.le_trans (Guard.le_countUp _) (hu.counted hf')
    rw [hr] at hadv
    cases r with
    | error e =>
      refine ⟨hadv, hcounted, fun hf hs => ?_⟩
      obtain ⟨k, hk, hf'⟩ := hf.entered hd (a, b)
      obtain ⟨-, hleft, hcovers, -⟩ := tryRules_leaves (hrec k hk) hf' hs hm hr
      exact ⟨hleft, hcovers⟩
    | ok answer =>
      refine ⟨hadv, hcounted, fun hf hs => ?_⟩
      obtain ⟨k, hk, hf'⟩ := hf.entered hd (a, b)
      obtain ⟨hfresh, hleft, hcovers, hpath⟩ := tryRules_leaves (hrec k hk) hf' hs hm hr
      have hs' := hs.entered hm
      have hu := (tryRules_keeps (orders_steady src p k) (hrec k hk).keeps a b).of_eq hr
      have hmet : answer.isMatch = true → ByRule src p (Met (known u)) a b := tryRules_met (hrec k hk) hf' hs' hr
      have hexplained : u.gathered.cycles = s.gathered.cycles → Explained src p (known u) a b answer :=
        fun hc => tryRules_explained (hrec k hk) hf' hs' hr hc
      obtain ⟨hafter, hgrown⟩ := hleft.remember hfresh (hpath ▸ ha) hu.advances.kept.gathered (hadv.sound hf hs.sound)
        hmet hexplained
      exact ⟨hafter, hcovers.trans hgrown⟩

omit hrel in
theorem visit_isMatch_iff {answer : Unification} (hf : Fits room s) (hs : Orderly src p s)
    (h : visit src p recur a b s = (.ok answer, t)) :
    answer.isMatch = true ↔ MatchesWithin src p (Off s.guard.active) a b := by
  rcases visit_eq_ok h with ⟨hm, -⟩ | ⟨ha, rfl, -⟩ | ⟨u, hm, ha, hd, hr, -⟩
  · constructor
    · intro hmatch
      refine (hs.supported ⟨answer, hm, hmatch⟩).mono ?_
      rintro x y ⟨w, hw, -⟩ hactive
      rw [hs.tidy _ hactive] at hw
      cases hw
    · exact fun hmatch => (hs.sound a b answer hm).isMatch.mpr hmatch.toMatches
  · exact ⟨nofun, fun hmatch => absurd ha hmatch.inv.1⟩
  · obtain ⟨k, hk, hf'⟩ := hf.entered hd (a, b)
    rw [matchesWithin_off_iff ha]
    exact tryRules_exact (hrec k hk) hf' (hs.entered hm) hr

end Levels

theorem visit_recalled {answer : Unification} (h : visit src p recur a b s = (.ok answer, t))
    (hr : answer.isMatch = true ∨ t.gathered.cycles = s.gathered.cycles) : known t (a, b) = some answer := by
  rcases visit_eq_ok h with ⟨hm, rfl⟩ | ⟨-, rfl, rfl⟩ | ⟨u, -, -, -, -, rfl⟩
  · exact hm
  · exact absurd (hr.resolve_left nofun) (Nat.succ_ne_self _)
  · rw [remember_cycles] at hr
    rw [known_remember, if_pos ⟨rfl, hr⟩]

theorem visit_exact (hrec : ∀ k, room = k + 1 → Exact src p k recur) (hrel : Reliable src p room (visit src p recur)) :
    Exact src p room (visit src p recur) where
  reliable := hrel
  keeps := visit_orders hrec hrel
  exact := visit_isMatch_iff hrec
  recalled := visit_recalled

theorem solve_exact (src : σ) (p : Profile) : ∀ room, Exact src p room (solve src p room)
  | 0 => visit_exact nofun (solve_reliable src p 0)
  | room + 1 => visit_exact (fun k hk => by cases hk; exact solve_exact src p room) (solve_reliable src p (room + 1))

end UnifyM

/-! ### Unifiers over time -/

namespace Unifier

variable {u : Unifier} {a b : TypeRef}

/-- Between queries nothing is in work, the limits are those of the profile, and the memory is in order. -/
structure Settled (src : σ) (p : Profile) (u : Unifier) : Prop where
  ready : Ready src p u
  maxDepth : u.guard.maxDepth = p.maxDepth
  maxIterations : u.guard.maxIterations = p.maxIterations
  orderly : UnifyM.Orderly src p.closure u.start

/-- The unifier after a search that ended in the state `z`. -/
def ended (u : Unifier) (z : Search Query Findings) : Unifier :=
  { u with guard := z.guard, memo := z.gathered.memo, cycles := z.gathered.cycles }

theorem Settled.ofProfile (src : σ) (p : Profile) : Settled src p (.ofProfile p) where
  ready := .ofProfile src p
  maxDepth := rfl
  maxIterations := rfl
  orderly := by
    refine ⟨(Ready.ofProfile src p).sound, fun q _ => known_ofProfile p q, ?_, ?_⟩
    · rintro a b ⟨answer, h, -⟩
      rw [known_ofProfile] at h
      cases h
    · intro a b answer h
      rw [known_ofProfile] at h
      cases h

/-- A query is a search from the start, unless a reference is ill-formed. -/
theorem unify_cases (src : σ) (p : Profile) (a b : TypeRef) :
    (∃ e, ∀ u : Unifier, u.unify src a b = ⟨.error e, u, []⟩) ∨
    ∀ u : Unifier, Settled src p u → ∃ r z, UnifyM.solve src p.closure p.maxDepth a b u.start = (r, z) ∧
      (u.unify src a b).result = r ∧ (u.unify src a b).unifier = u.ended z := by
  unfold Unifier.unify
  cases TypeSource.check src a with
  | error e => exact Or.inl ⟨e, fun _ => rfl⟩
  | ok =>
    cases TypeSource.check src b with
    | error e => exact Or.inl ⟨e, fun _ => rfl⟩
    | ok =>
      refine Or.inr fun u h => ⟨_, _, rfl, ?_, ?_⟩
      · rw [← h.ready.closure, ← h.maxDepth]
        rfl
      · rw [← h.ready.closure, ← h.maxDepth]
        rfl

theorem Settled.starts (h : Settled src p u) (z : Search Query Findings) :
    (UnifyM.course src p.closure p.maxDepth [] z).Starts u.start :=
  ⟨h.maxDepth ▸ h.ready.start_fits, h.orderly, start_active h.ready.idle⟩

theorem Settled.trails {u' : Unifier} (h : Settled src p u) (h' : Settled src p u') :
    u.start.guard.Trails u'.start.guard := by
  unfold start
  rw [Guard.restart_of_inactive h.ready.idle, Guard.restart_of_inactive h'.ready.idle]
  exact ⟨rfl, h'.maxDepth.trans h.maxDepth.symm, h'.maxIterations.trans h.maxIterations.symm, Nat.le_refl _⟩

theorem Settled.unify (h : Settled src p u) (a b : TypeRef) : Settled src p (u.unify src a b).unifier := by
  have hready := h.ready.unify a b
  rcases unify_cases src p a b with ⟨e, herror⟩ | hsearch
  · rw [herror]
    exact h
  · obtain ⟨r, z, hz, -, hu⟩ := hsearch u h
    have hkeeps := ((UnifyM.solve_exact src p.closure p.maxDepth).keeps a b).of_eq hz
    obtain ⟨-, hend, -⟩ := (UnifyM.course src p.closure p.maxDepth [] z).forth hkeeps (h.starts z)
    rw [hu] at hready ⊢
    have hlimits := hkeeps.advances.kept.guard
    have hrestart := Guard.restart_of_inactive h.ready.idle
    refine ⟨hready, hlimits.maxDepth.trans ?_, hlimits.maxIterations.trans ?_, hend.congr fun q hq => ?_⟩
    · rw [start, hrestart]
      exact h.maxDepth
    · rw [start, hrestart]
      exact h.maxIterations
    · have hnone : (u.ended z).guard.restart.active = [] := start_active hready.idle
      rw [hnone] at hq
      cases hq

theorem Settled.after (h : Settled src p u) (history : List Query) : Settled src p (u.after src history) := by
  induction history generalizing u with
  | nil => exact h
  | cons q history ih => exact ih (h.unify q.1 q.2)

end Unifier

end Nominal
