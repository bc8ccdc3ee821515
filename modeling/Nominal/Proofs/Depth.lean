import Nominal.Proofs.Ancestry
import Nominal.Proofs.Answers
import Nominal.Proofs.References
import Nominal.Proofs.WellFormed

/-! How deep unification goes in a table where nothing is above itself. Each question that comes up on the way to
    another costs less: the type asked for nests less deep, or it nests no deeper and the type on hand has fewer
    declarations above it. So no question comes up while it is being answered, and the levels that the first one costs
    are enough. -/

namespace Nominal

/-- Nothing is above itself, whatever is above a declaration is declared, and there is a declaration. -/
structure Table.Layered (t : Table) : Prop where
  acyclic : t.Acyclic
  closed : t.Closed
  nonempty : 1 ≤ t.size

namespace UnifyM

variable {t : Table} {p : Profile} {a b : TypeRef} {k m : Nat} {α β : Type}

/-! ### The cost of a question -/

/-- How many levels a question takes at most. -/
noncomputable def cost (t : Table) (a b : TypeRef) : Nat := t.size * (a.nesting - 1) + t.rank b.symbol

theorem cost_le (hsize : 1 ≤ t.size) : cost t a b ≤ t.size * a.nesting := by
  have hpos := a.one_le_nesting
  have hrank : t.rank b.symbol ≤ t.size := Table.rank_le_size hsize
  calc cost t a b ≤ t.size * (a.nesting - 1) + t.size := Nat.add_le_add_left hrank _
    _ = t.size * (a.nesting - 1 + 1) := (Nat.mul_succ _ _).symm
    _ = t.size * a.nesting := by rw [Nat.sub_add_cancel hpos]

theorem cost_argument_lt (hsize : 1 ≤ t.size) {x y : TypeRef} (hx : x.toArg ∈ a.args) : cost t x y < cost t a b := by
  have hnest : x.nesting ≤ a.nesting - 1 := Nat.le_sub_one_of_lt (TypeRef.nesting_lt_of_mem hx)
  have hpos := t.one_le_rank b.symbol
  calc cost t x y ≤ t.size * x.nesting := cost_le hsize
    _ ≤ t.size * (a.nesting - 1) := Nat.mul_le_mul_left _ hnest
    _ < cost t a b := Nat.lt_add_of_pos_right hpos

theorem cost_definition_lt {q : TypeRef} (hq : t.rank q.symbol < t.rank b.symbol) :
    cost t a.definition q < cost t a b := by
  unfold cost
  rw [a.nesting_definition, Nat.sub_self, Nat.mul_zero, Nat.zero_add]
  exact Nat.lt_of_lt_of_le hq (Nat.le_add_left _ _)

theorem cost_supertype_lt {q : TypeRef} (hq : t.rank q.symbol < t.rank b.symbol) : cost t a q < cost t a b :=
  Nat.add_lt_add_left hq _

/-! ### Searches that run through -/

/-- Whatever is being answered costs more than `k`. -/
def Busy (t : Table) (k : Nat) (s : Search Query Findings) : Prop := ∀ q ∈ s.guard.active, k < cost t q.1 q.2

/-- There are `k` levels left, and attempts do not run out. -/
structure Ample (k : Nat) (s : Search Query Findings) : Prop where
  depth : s.guard.depth + k ≤ s.guard.maxDepth
  attempts : Profile.ceiling ≤ s.guard.maxIterations
  counted : s.guard.iterations ≤ Profile.ceiling

/-- No cycle was cut between two states. -/
structure Calm (s s' : Search Query Findings) : Prop where
  guard : s.guard.Balanced s'.guard
  cycles : s'.gathered.cycles = s.gathered.cycles
  uncut : ∀ a b, Event.cycleCut a b ∈ s'.gathered.events → Event.cycleCut a b ∈ s.gathered.events

section States

variable {s s' s'' : Search Query Findings}

theorem Calm.refl (s : Search Query Findings) : Calm s s := ⟨.refl s.guard, rfl, fun _ _ h => h⟩

theorem Calm.trans (h : Calm s s') (h' : Calm s' s'') : Calm s s'' :=
  ⟨h.guard.trans h'.guard, h'.cycles.trans h.cycles, fun a b hab => h.uncut a b (h'.uncut a b hab)⟩

/-- A query that was let in is left again. -/
theorem Calm.settle {before : Nat} {o : Except Failure Unification × Search Query Findings}
    (h : Calm { s with guard := s.guard.entered (a, b) } o.2) : Calm s (settle before a b o).2 := by
  rcases o with ⟨e | answer, s'⟩
  · exact ⟨h.guard.release, h.cycles, h.uncut⟩
  · refine ⟨h.guard.release, (remember_cycles _ a b answer _).trans h.cycles, fun x y hxy => h.uncut x y ?_⟩
    simp only [UnifyM.settle, remember] at hxy
    split at hxy <;> exact hxy

theorem Busy.mono (h : Busy t m s) (hk : k ≤ m) : Busy t k s := fun q hq => Nat.lt_of_le_of_lt hk (h q hq)

theorem Ample.mono (h : Ample m s) (hk : k ≤ m) : Ample k s :=
  ⟨Nat.le_trans (Nat.add_le_add_left hk _) h.depth, h.attempts, h.counted⟩

theorem Busy.calm (h : Busy t k s) (hc : Calm s s') : Busy t k s' := by
  unfold Busy
  rw [hc.guard.active]
  exact h

theorem Ample.calm (h : Ample k s) (hc : Calm s s') : Ample k s' where
  depth := by
    rw [hc.guard.depth, hc.guard.maxDepth]
    exact h.depth
  attempts := by
    rw [hc.guard.maxIterations]
    exact h.attempts
  counted := hc.guard.counted h.counted

theorem Busy.entered (h : Busy t (k + 1) s) (hk : cost t a b = k + 1) :
    Busy t k { s with guard := s.guard.entered (a, b) } := by
  intro q hq
  rcases List.mem_cons.mp hq with rfl | hq
  · rw [hk]
    exact Nat.lt_succ_self k
  · exact Nat.lt_of_succ_lt (h q hq)

theorem Ample.entered (h : Ample (k + 1) s) (q : Query) : Ample k { s with guard := s.guard.entered q } where
  depth := by
    have hdepth := h.depth
    show s.guard.depth + 1 + k ≤ s.guard.maxDepth
    omega
  attempts := h.attempts
  counted := Guard.countUp_le h.counted

end States

/-- The table and the limits for listing supertypes: nothing is above itself, and every listing succeeds. -/
structure Listed (t : Table) (p : Profile) : Prop extends t.Layered where
  depth : t.size ≤ p.maxDepth
  attempts : Profile.ceiling ≤ p.maxIterations

theorem Listed.supertypesOf (h : Listed t p) (r : TypeRef) : ∃ l, supertypesOf t r p = .ok l :=
  supertypesOf_of_rank h.acyclic h.closed (Nat.le_trans (Table.rank_le_size h.nonempty) h.depth) h.attempts

/-- However the search ends, it cuts no cycle while whatever is being answered costs more than `k`. An answer satisfies
    `Q`, and there is one if every listing succeeds and `k` levels are left. -/
structure Runs (t : Table) (p : Profile) (k : Nat) (Q : α → Prop) (x : UnifyM α) : Prop where
  calm : ∀ s, Busy t k s → Calm s (x s).2
  yields : ∀ {s s' r}, x s = (.ok r, s') → Q r
  answers : Listed t p → ∀ s, Busy t k s → Ample k s → ∃ r, (x s).1 = .ok r

namespace Runs

variable {Q : α → Prop} {Q' : β → Prop} {x : UnifyM α} {f : α → UnifyM β}

theorem mono (h : Runs t p k Q x) (hk : k ≤ m) : Runs t p m Q x where
  calm s hs := h.calm s (hs.mono hk)
  yields := h.yields
  answers hl s hs ha := h.answers hl s (hs.mono hk) (ha.mono hk)

theorem pure {r : α} (h : Q r) : Runs t p k Q (Pure.pure r) where
  calm s _ := .refl s
  yields hr := by
    cases hr
    exact h
  answers _ _ _ _ := ⟨r, rfl⟩

theorem bind (hx : Runs t p k Q x) (hf : ∀ r, Q r → Runs t p k Q' (f r)) : Runs t p k Q' (x >>= f) where
  calm s hs := by
    have hc := hx.calm s hs
    rcases hxs : x s with ⟨e | r, s'⟩ <;> rw [hxs] at hc
    · rw [Attempt.bind_of_error hxs]
      exact hc
    · rw [Attempt.bind_of_ok hxs]
      exact hc.trans ((hf r (hx.yields hxs)).calm s' (hs.calm hc))
  yields h := by
    obtain ⟨r, s', hxs, hfs⟩ := Attempt.bind_eq_ok.mp h
    exact (hf r (hx.yields hxs)).yields hfs
  answers hl s hs ha := by
    have hc := hx.calm s hs
    obtain ⟨r, hr⟩ := hx.answers hl s hs ha
    rcases hxs : x s with ⟨_, s'⟩
    rw [hxs] at hr hc
    cases hr
    rw [Attempt.bind_of_ok hxs]
    exact (hf r (hx.yields hxs)).answers hl s' (hs.calm hc) (ha.calm hc)

theorem tell {e : Event} (h : ∀ a b, e ≠ .cycleCut a b) : Runs t p k (fun _ => True) (UnifyM.tell e) where
  calm s _ := by
    refine ⟨.refl s.guard, rfl, fun a b hab => ?_⟩
    rcases Array.mem_push.mp hab with hab | hab
    · exact hab
    · exact absurd hab.symm (h a b)
  yields _ := trivial
  answers _ _ _ _ := ⟨(), rfl⟩

theorem tellAll {es : List Event} (h : ∀ a b, .cycleCut a b ∉ es) : Runs t p k (fun _ => True) (UnifyM.tellAll es) where
  calm s _ := by
    refine ⟨.refl s.guard, rfl, fun a b hab => ?_⟩
    have hab : Event.cycleCut a b ∈ s.gathered.events ++ es := hab
    rw [← Array.mem_toList_iff, Array.toList_appendList, List.mem_append] at hab
    exact Array.mem_toList_iff.mp (hab.resolve_right (h a b))
  yields _ := trivial
  answers _ _ _ _ := ⟨(), rfl⟩

theorem ofExcept {r : Except Failure α} (h : Listed t p → ∃ v, r = .ok v) :
    Runs t p k (fun v => r = .ok v) (Attempt.ofExcept r) where
  calm s _ := .refl s
  yields hr := (Prod.mk.inj hr).1
  answers hl _ _ _ := h hl

end Runs

/-! ### The rules -/

theorem conclude_runs (rule : Rule) (a b : TypeRef) (answer : Unification) :
    Runs t p k (fun _ => True) (conclude rule a b answer) :=
  .bind (.tell nofun) fun _ _ => .pure trivial

theorem climb_runs (r : TypeRef) : Runs t p k (fun l => supertypesOf t r p = .ok l) (climb (.ofRef t p r)) := by
  have hevents (a b : TypeRef) : Event.cycleCut a b ∉ (Ancestry.ofRef t p r).events := by
    unfold Ancestry.events
    split <;> simp
  exact .bind (.tellAll hevents) fun _ _ => .ofExcept fun hl => hl.supertypesOf r

theorem climbSymbol_runs (s : Symbol) : Runs t p k (fun l => supertypes t s p = .ok l) (climbSymbol t p s) := by
  unfold climbSymbol supertypes
  cases TypeSource.definition? t s with
  | none => exact .pure rfl
  | some r => exact climb_runs r

section Parts

variable {recur : TypeRef → TypeRef → UnifyM Unification}

theorem argsMatch_runs {as bs : List TypeArg}
    (hrec : ∀ x y : TypeRef, x.toArg ∈ as → y.toArg ∈ bs → Runs t p k (fun _ => True) (recur x y)) :
    Runs t p k (fun _ => True) (argsMatch recur as bs) := by
  induction as generalizing bs with
  | nil => exact .pure trivial
  | cons x as ih =>
    cases bs with
    | nil => exact .pure trivial
    | cons y bs =>
      have hx : Runs t p k (fun _ => True) (argMatches recur x y) := by
        match x, y with
        | .param _, .param _ => exact .pure trivial
        | .param _, .type _ _ => exact .pure trivial
        | .type _ _, .param _ => exact .pure trivial
        | .type c xs, .type d ys =>
          exact .bind (hrec ⟨c, xs⟩ ⟨d, ys⟩ List.mem_cons_self List.mem_cons_self) fun _ _ => .pure trivial
      refine .bind hx fun related _ => ?_
      cases related with
      | true => exact ih fun x' y' hx' hy' => hrec x' y' (List.mem_cons_of_mem _ hx') (List.mem_cons_of_mem _ hy')
      | false => exact .pure trivial

theorem firstMatch?_runs {a : TypeRef} {bs : List TypeRef} (hrec : ∀ q ∈ bs, Runs t p k (fun _ => True) (recur a q)) :
    Runs t p k (fun _ => True) (firstMatch? recur a bs) := by
  induction bs with
  | nil => exact .pure trivial
  | cons b bs ih =>
    rw [List.forall_mem_cons] at hrec
    refine .bind hrec.1 fun answer _ => ?_
    split
    · exact .pure trivial
    · exact ih hrec.2

variable (hrec : ∀ x y, Asks t p a b x y → Runs t p k (fun _ => True) (recur x y))

include hrec

theorem throughSupertypes_runs : Runs t p k (fun _ => True) (throughSupertypes t p recur a b) := by
  refine .bind (climbSymbol_runs b.symbol) fun above walk => ?_
  refine .bind (firstMatch?_runs fun q hq => hrec _ q (.definition walk hq)) fun via _ => ?_
  cases via with
  | some via => exact conclude_runs _ a b _
  | none =>
    refine .bind (climb_runs b) fun above walk => ?_
    refine .bind (firstMatch?_runs fun q hq => hrec a q (.supertype walk hq)) fun via _ => ?_
    cases via with
    | some via => exact conclude_runs _ a b _
    | none => exact .pure trivial

theorem tryRules_runs : Runs t p k (fun _ => True) (tryRules t p recur a b) := by
  unfold tryRules
  split
  · split
    · exact conclude_runs _ a b _
    · exact conclude_runs _ a b _
  · split
    · refine .bind (argsMatch_runs fun x y hx hy => hrec x y (.argument hx hy)) fun related _ => ?_
      cases related with
      | true => exact conclude_runs _ a b _
      | false => exact throughSupertypes_runs hrec
    · exact throughSupertypes_runs hrec

end Parts

/-! ### Whole questions -/

section Questions

variable {recur : TypeRef → TypeRef → UnifyM Unification} (h : t.Layered)

include h

theorem cost_lt_of_asks {x y : TypeRef} (hxy : Asks t p a b x y) : cost t x y < cost t a b := by
  cases hxy with
  | argument left right => exact cost_argument_lt h.nonempty left
  | definition walk mem =>
    obtain ⟨n, -, hopened⟩ := supertypesOf_of_mem_supertypes walk mem
    exact cost_definition_lt (Table.rank_lt_of_reaches h.acyclic h.closed (reaches_of_mem_supertypesOf hopened mem))
  | supertype walk mem =>
    exact cost_supertype_lt (Table.rank_lt_of_reaches h.acyclic h.closed (reaches_of_mem_supertypesOf walk mem))

/-- The guard does not find the question among those that are being answered, since they cost more. -/
theorem visit_runs (hrec : ∀ x y, cost t x y < cost t a b → Runs t p (cost t x y) (fun _ => True) (recur x y)) :
    Runs t p (cost t a b) (fun _ => True) (visit t p recur a b) := by
  obtain ⟨k, hk⟩ : ∃ k, cost t a b = k + 1 := by
    have hpos : 1 ≤ cost t a b := Nat.le_trans (t.one_le_rank b.symbol) (Nat.le_add_left _ _)
    exact ⟨cost t a b - 1, by omega⟩
  have hrules : Runs t p k (fun _ => True) (tryRules t p recur a b) := tryRules_runs fun x y hxy => by
    have hlt := cost_lt_of_asks h hxy
    exact (hrec x y hlt).mono (by omega)
  have hfresh {s : Search Query Findings} (hs : Busy t (k + 1) s) : (a, b) ∉ s.guard.active := fun hmem =>
    absurd (hs (a, b) hmem) (by simp [hk])
  rw [hk]
  refine ⟨fun s hs => ?_, fun _ => trivial, fun hl s hs ha => ?_⟩
  · rcases visit_cases t p recur a b s with ⟨_, -, hv⟩ | ⟨-, hv⟩ | ⟨-, hv⟩ | ⟨-, hmem, -⟩ | ⟨-, -, -, hv⟩
    · rw [hv]
      exact .refl s
    · rw [hv]
      exact ⟨.refused s.guard, rfl, fun _ _ => id⟩
    · rw [hv]
      exact ⟨.refused s.guard, rfl, fun _ _ => id⟩
    · exact absurd hmem (hfresh hs)
    · rw [hv]
      exact (hrules.calm _ (hs.entered hk)).settle
  · cases hm : known s (a, b) with
    | some found => exact ⟨found, by rw [visit_of_known hm]⟩
    | none =>
      have hdepth := ha.depth
      obtain ⟨answer, hanswer⟩ := hrules.answers hl _ (hs.entered hk) (ha.entered (a, b))
      rw [visit_of_entered hm (Nat.le_trans (Guard.countUp_le ha.counted) ha.attempts) (by omega) (hfresh hs)]
      rcases hrun : tryRules t p recur a b { s with guard := s.guard.entered (a, b) } with ⟨r, u⟩
      rw [hrun] at hanswer
      cases hanswer
      exact ⟨answer, rfl⟩

theorem solve_runs (p : Profile) (room : Nat) (a b : TypeRef) :
    Runs t p (cost t a b) (fun _ => True) (solve t p room a b) := by
  induction room generalizing a b with
  | zero => exact visit_runs h fun _ _ _ => .pure trivial
  | succ room ih => exact visit_runs h fun x y _ => ih x y

/-- Whatever the limits, and however a search ends, it cuts no cycle. -/
theorem solve_calm (p : Profile) (room : Nat) (a b : TypeRef) {s : Search Query Findings} (hs : s.guard.active = []) :
    Calm s (solve t p room a b s).2 := by
  refine (solve_runs h p room a b).calm s fun q hq => ?_
  rw [hs] at hq
  cases hq

end Questions

end UnifyM

/-! ### Unifiers -/

namespace Unifier

variable {t : Table}

theorem unify_uncut (h : t.Layered) {u : Unifier} (hidle : u.guard.active = []) (a b : TypeRef) :
    (u.unify t a b).unifier.cycles = u.cycles ∧ ∀ x y, Event.cycleCut x y ∉ (u.unify t a b).events := by
  have hcalm : UnifyM.Calm u.start (u.search t a b).2 :=
    UnifyM.solve_calm h u.closure u.guard.maxDepth a b (start_active hidle)
  unfold Unifier.unify
  split
  · exact ⟨rfl, fun _ _ => List.not_mem_nil⟩
  · exact ⟨rfl, fun _ _ => List.not_mem_nil⟩
  · rcases hrun : u.search t a b with ⟨result, s⟩
    rw [hrun] at hcalm
    refine ⟨hcalm.cycles, fun x y hxy => ?_⟩
    have hevents : Event.cycleCut x y ∉ s.gathered.events := fun hmem => absurd (hcalm.uncut x y hmem) (by simp [start])
    have hclosing : Event.cycleCut x y ≠ closing result s.guard.iterations := by cases result <;> simp [closing]
    simp [hevents, hclosing] at hxy

/-- As many levels as there are declarations for each level of the type asked for are enough for an answer. -/
theorem exists_unify_ok {d : Nat} {a b : TypeRef} (h : UnifyM.Listed t (.custom d Profile.ceiling))
    (hd : t.size * a.nesting ≤ d) (ha : TypeSource.check t a = .ok ()) (hb : TypeSource.check t b = .ok ()) :
    ∃ answer, ((Unifier.ofProfile (.custom d Profile.ceiling)).unify t a b).result = .ok answer := by
  have hample : UnifyM.Ample (UnifyM.cost t a b) (Unifier.ofProfile (.custom d Profile.ceiling)).start := by
    refine ⟨?_, Nat.le_refl _, Nat.zero_le _⟩
    show 0 + UnifyM.cost t a b ≤ d
    rw [Nat.zero_add]
    exact Nat.le_trans (UnifyM.cost_le h.nonempty) hd
  obtain ⟨answer, hok⟩ := (UnifyM.solve_runs h.toLayered (.custom d Profile.ceiling) d a b).answers h _
    (fun q hq => by cases hq) hample
  refine ⟨answer, ?_⟩
  unfold Unifier.unify
  simp only [ha, hb]
  exact hok

end Unifier

namespace Universe

variable {u : Universe}

theorem Passes.layered (h : u.Passes) : u.linked.Layered where
  acyclic := acyclic_of_clear h.reads h.clear
  closed := u.closed_linked
  nonempty := by
    rw [size_linked]
    exact Nat.le_add_left _ _

/-- A table that was built lists all supertypes if it may go as deep as it has declarations. -/
theorem Passes.listed (h : u.Passes) {d : Nat} (hd : u.linked.size ≤ d) :
    UnifyM.Listed u.linked (.custom d Profile.ceiling) where
  toLayered := h.layered
  depth := hd
  attempts := Nat.le_refl _

end Universe

/-- In a table that was built, a question is answered within as many levels as there are declarations for each level of
    the type asked for. On the way no question comes up again while it is being answered, and every listing of
    supertypes succeeds. -/
theorem unify_ok_of_depth (u : Universe) (t : Table) (hbuild : u.build.value = .ok t) (a b : TypeRef)
    (ha : TypeSource.check t a = .ok ()) (hb : TypeSource.check t b = .ok ()) (d : Nat) (hd : t.size * a.nesting ≤ d) :
    (∃ answer, ((Unifier.ofProfile (.custom d Profile.ceiling)).unify t a b).result = .ok answer) ∧
      ((Unifier.ofProfile (.custom d Profile.ceiling)).unify t a b).unifier.cycles = 0 ∧
      (∀ x y, Event.cycleCut x y ∉ ((Unifier.ofProfile (.custom d Profile.ceiling)).unify t a b).events) ∧
      ∀ r, ∃ l, supertypesOf t r (.custom d Profile.ceiling) = .ok l := by
  obtain ⟨hpass, rfl⟩ := Universe.build_eq_ok hbuild
  have hlisted := hpass.listed (Nat.le_trans (Nat.le_mul_of_pos_right _ a.one_le_nesting) hd)
  obtain ⟨hcycles, huncut⟩ := Unifier.unify_uncut hpass.layered (u := .ofProfile (.custom d Profile.ceiling)) rfl a b
  exact ⟨Unifier.exists_unify_ok hlisted hd ha hb, hcycles, huncut, hlisted.supertypesOf⟩

/-- An interface, a class that implements it, and a container. -/
def boxes : Universe :=
  ⟨[{ name := "IItem", kind := .interface }, { name := "Item", kind := .cls, interfaces := ["IItem"] },
    { name := "Box", kind := .cls, params := ["T"] }]⟩

open Universe in
theorem build_boxes : boxes.build.value = .ok boxes.linked := by
  have hreg : ∀ e ∈ boxes.types, FullName.Regular e.fullName := by decide
  have hread : boxes.declared.parse "IItem" (some ⟨3⟩) = .ok ⟨⟨2⟩, []⟩ :=
    parse_declared_bare hreg (by decide +kernel) (mem_entries boxes 1 rfl) (by decide) (by decide)
  have htexts : ∀ p ∈ boxes.entries, ∀ text ∈ p.1.interfaces, p.2 = ⟨3⟩ ∧ text = "IItem" := by decide
  refine build_of_interfaces (by rw [size_linked]; decide) (by decide +kernel) (by decide) (by decide) (by decide)
    Symbol.id fun e s he text htext => ?_
  obtain ⟨rfl, rfl⟩ := htexts (e, s) he text htext
  exact ⟨_, hread, ⟨_, mem_entries boxes 0 rfl, rfl⟩, by decide⟩

open Universe in
/-- With four declarations, twelve levels are enough to ask for a box of boxes. -/
theorem unify_boxes_ok :
    boxes.linked.size * TypeRef.nesting ⟨⟨4⟩, [.type ⟨4⟩ [.type ⟨2⟩ []]]⟩ = 12 ∧
      ∃ answer, ((Unifier.ofProfile (.custom 12 Profile.ceiling)).unify boxes.linked
        ⟨⟨4⟩, [.type ⟨4⟩ [.type ⟨2⟩ []]]⟩ ⟨⟨4⟩, [.type ⟨4⟩ [.type ⟨3⟩ []]]⟩).result = .ok answer := by
  have hsize : boxes.linked.size = 4 := size_linked
  have hinterface : TypeSource.arity? boxes.linked ⟨2⟩ = some 0 := arity?_linked (mem_entries boxes 0 rfl)
  have hclass : TypeSource.arity? boxes.linked ⟨3⟩ = some 0 := arity?_linked (mem_entries boxes 1 rfl)
  have hbox : TypeSource.arity? boxes.linked ⟨4⟩ = some 1 := arity?_linked (mem_entries boxes 2 rfl)
  have hcheck {s : Symbol} (hs : TypeSource.arity? boxes.linked s = some 0) :
      TypeSource.check boxes.linked ⟨⟨4⟩, [.type ⟨4⟩ [.type s []]]⟩ = .ok () := by
    simp [TypeSource.check, TypeRef.toArg, TypeSource.checkArg_type_iff, hbox, hs]
  have hnesting : boxes.linked.size * TypeRef.nesting ⟨⟨4⟩, [.type ⟨4⟩ [.type ⟨2⟩ []]]⟩ = 12 := by
    rw [hsize]
    decide
  exact ⟨hnesting, (unify_ok_of_depth boxes boxes.linked build_boxes _ _ (hcheck hinterface) (hcheck hclass) 12
    (Nat.le_of_eq hnesting)).1⟩

end Nominal
