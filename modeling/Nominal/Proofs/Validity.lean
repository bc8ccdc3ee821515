import Nominal.Proofs.Binding
import Nominal.Proofs.Climbing
import Nominal.Proofs.Paths
import Nominal.Proofs.Truncation

/-! Where all declarations are well-formed, everything that is reached from well-formed references is. Reading a
    declared reference from a well-formed one keeps it well-formed (`TypeSource.check_instantiate`), so each step up
    does, so do the supertypes, and so does each query that the rules ask in turn. A search that looks at every query as
    it comes up is therefore never alarmed (`UnifyM.solve_quiet`). -/

namespace Nominal

/-! ### Checks -/

namespace TypeSource

variable {σ : Type} [TypeSource σ] {src : σ} {r x : TypeRef} {e : Failure}

theorem check_iff : check src r = .ok () ↔
    arity? src r.symbol = some r.args.length ∧ ∀ a ∈ r.args, checkArg src a = .ok () :=
  checkArg_type_iff

/-- Binding parameters to well-formed arguments keeps an argument well-formed. A parameter that is left over stays as it
    is. -/
theorem checkArg_substitute {o : Symbol} {xs : List TypeArg} {a : TypeArg} (hxs : ∀ y ∈ xs, checkArg src y = .ok ())
    (ha : checkArg src a = .ok ()) : checkArg src (a.substitute o xs) = .ok () := by
  induction a using TypeArg.args_induction with
  | param p =>
    rw [TypeArg.substitute]
    split
    · cases hy : xs[p.index]? with
      | none => exact ha
      | some y => exact hxs y (List.mem_of_getElem? hy)
    · exact ha
  | type s as ih =>
    obtain ⟨harity, has⟩ := checkArg_type_iff.mp ha
    rw [TypeArg.substitute, TypeArg.substituteAll_eq_map]
    refine checkArg_type_iff.mpr ⟨by rw [List.length_map, harity], fun c hc => ?_⟩
    obtain ⟨c', hc', rfl⟩ := List.mem_map.mp hc
    exact ih c' hc' (has c' hc')

theorem check_instantiate (hr : check src r = .ok ()) (hx : check src x = .ok ()) :
    check src (r.instantiate x) = .ok () :=
  checkArg_substitute (check_iff.mp hr).2 hx

/-- The open definition takes its parameters from the arguments of the reference, and these are as many as were
    declared. -/
theorem check_definition (hr : check src r = .ok ()) : check src r.definition = .ok () :=
  checkArg_opened (check_iff.mp hr).1

theorem check_normalized (hr : check src r = .ok ()) : check src r.normalized = .ok () := by
  rw [TypeRef.normalized]
  split
  · exact check_definition hr
  · exact hr

theorem exists_of_checkArgs_error {as : List TypeArg} (h : checkArgs src as = .error e) :
    ∃ a ∈ as, checkArg src a = .error e := by
  induction as with
  | nil => cases h
  | cons a as ih =>
    rw [checkArgs] at h
    cases ha : checkArg src a with
    | error e' =>
      rw [ha] at h
      cases h
      exact ⟨a, List.mem_cons_self, ha⟩
    | ok =>
      rw [ha] at h
      obtain ⟨c, hc, hce⟩ := ih h
      exact ⟨c, List.mem_cons_of_mem a hc, hce⟩

theorem isIllFormed_of_checkArg {a : TypeArg} (h : checkArg src a = .error e) : e.isIllFormed = true := by
  induction a using TypeArg.args_induction with
  | param p =>
    rw [checkArg] at h
    split at h
    · cases h
      rfl
    · split at h <;> cases h
      rfl
  | type s as ih =>
    rw [checkArg] at h
    split at h
    · cases h
      rfl
    · split at h
      · obtain ⟨a, ha, hae⟩ := exists_of_checkArgs_error h
        exact ih a ha hae
      · cases h
        rfl

end TypeSource

open TypeSource

/-! ### Tables -/

namespace Table

variable {t : Table} {r q : TypeRef} {s : Symbol} {p : Profile} {l : List TypeRef}

/-- Every declared base and interface is well-formed. -/
def Checked (t : Table) : Prop := ∀ s d, t.get? s = some d → ∀ x ∈ d.relations, check t x = .ok ()

theorem Checked.step (ht : t.Checked) (h : t.Step r q) (hr : check t r = .ok ()) : check t q = .ok () := by
  obtain ⟨d, hd, x, hx, rfl⟩ := h
  exact check_instantiate hr (ht _ d hd x hx)

theorem Checked.steps (ht : t.Checked) (h : Relation.ReflTransGen t.Step r q) (hr : check t r = .ok ()) :
    check t q = .ok () := by
  induction h with
  | refl => exact hr
  | tail _ hstep ih => exact ht.step hstep ih

theorem Checked.flattened (ht : t.Checked) {i : TypeRef} (hi : i ∈ t.flattened s) : check t i = .ok () := by
  unfold Table.flattened at hi
  cases hd : t.get? s with
  | none =>
    rw [hd] at hi
    cases hi
  | some d =>
    rw [hd] at hi
    -- The listing starts from the open definition, which is well-formed by its making.
    obtain ⟨m, hm, hi⟩ := steps_of_mem_listing ((mem_addNew.mp hi).resolve_left List.not_mem_nil)
    have hopened : check t (.opened s d.arity) = .ok () := checkArg_opened (congrArg (Option.map Declaration.arity) hd)
    exact ht.step hi.step (ht.steps hm hopened)

theorem Checked.supertypesOf (ht : t.Checked) (hr : check t r = .ok ()) (h : supertypesOf t r p = .ok l) (hq : q ∈ l) :
    check t q = .ok () := by
  obtain ⟨m, hm, rfl⟩ := (mem_supertypesOf_iff h).mp hq
  refine check_normalized ?_
  rcases hm with hm | hm
  · obtain ⟨i, hi, rfl⟩ := List.mem_map.mp hm
    exact check_instantiate hr (ht.flattened hi)
  · exact ht.steps (hm.lift id fun _ _ => BaseChain.Below.step).to_reflTransGen hr

theorem Checked.asks (ht : t.Checked) {a b x y : TypeRef} (h : UnifyM.Asks t p a b x y) (ha : check t a = .ok ())
    (hb : check t b = .ok ()) : check t x = .ok () ∧ check t y = .ok () := by
  cases h with
  | argument left right => exact ⟨(check_iff.mp ha).2 _ left, (check_iff.mp hb).2 _ right⟩
  | definition walk mem =>
    obtain ⟨n, hn, habove⟩ := supertypesOf_of_mem_supertypes walk mem
    exact ⟨check_definition ha, ht.supertypesOf (checkArg_opened hn) habove mem⟩
  | supertype walk mem => exact ⟨ha, ht.supertypesOf hb walk mem⟩

theorem isLimit_of_supertypesOf {e : Failure} (h : supertypesOf t r p = .error e) : e.isLimit = true := by
  cases hfound : TypeSource.interfacesWithin t r.symbol p with
  | error e' =>
    simp only [Nominal.supertypesOf, Ancestry.supertypes, Ancestry.ofRef, hfound, Except.map] at h
    cases h
    rcases interfacesWithin_error hfound with rfl | rfl <;> rfl
  | ok found =>
    rcases supertypesOf_cases hfound with ⟨bs, hends⟩ | ⟨bs, b, hreturns⟩ | hdeep
    · cases (supertypesOf_of_ends hfound hends).symm.trans h
    · cases (supertypesOf_of_returns hfound hreturns).symm.trans h
      rfl
    · cases hdeep.symm.trans h
      rfl

end Table

/-! ### Searches that look at every query -/

namespace UnifyM

section Vetting

variable {σ : Type} [TypeSource σ]

/-- Leaves a query to `alarm` if one of the references is ill-formed. -/
def vetted (src : σ) (alarm answer : TypeRef → TypeRef → UnifyM Unification) (a b : TypeRef) : UnifyM Unification :=
  match check src a, check src b with
  | .ok (), .ok () => answer a b
  | _, _ => alarm a b

/-- The search that looks at every query as it comes up. -/
def solveVetted (src : σ) (p : Profile) (alarm : TypeRef → TypeRef → UnifyM Unification) :
    Nat → TypeRef → TypeRef → UnifyM Unification
  | 0 => vetted src alarm (visit src p fun _ _ => pure .noMatch)
  | room + 1 => vetted src alarm (visit src p (solveVetted src p alarm room))

variable {src : σ} {p : Profile} {recur recur' alarm answer : TypeRef → TypeRef → UnifyM Unification} {a b : TypeRef}

theorem vetted_of_check (ha : check src a = .ok ()) (hb : check src b = .ok ()) :
    vetted src alarm answer a b = answer a b := by
  simp only [vetted, ha, hb]

/-- Searches that go on in the same way, as far as what they tell is left aside, and that fail at limits only. -/
def quiet : Pairing where
  toStretch := .free
  Link s s' := ∃ events, s' = { s with gathered := { s.gathered with events } }
  Alike e e' := e' = e ∧ e.isLimit = true
  Excused _ _ := False
  Waived _ _ := False
  starts _ := trivial
  telling := by
    rintro s _ events events' ⟨_, rfl⟩
    exact ⟨events', rfl⟩

theorem quiet_result {o o' : Except Failure Unification × Search Query Findings} (h : quiet.Outcome Eq o o') :
    o'.1 = o.1 ∧ ∀ e, o.1 = .error e → e.isLimit = true := by
  cases h with
  | answered related link => exact ⟨congrArg Except.ok related.symm, fun _ he => by cases he⟩
  | failed alike link =>
    refine ⟨congrArg Except.error alike.1, fun e he => ?_⟩
    cases he
    exact alike.2
  | excused h => exact h.elim
  | waived h => exact h.elim

theorem settle_quiet {o o' : Except Failure Unification × Search Query Findings} (h : quiet.Outcome Eq o o')
    (before : Nat) (a b : TypeRef) : quiet.Outcome Eq (settle before a b o) (settle before a b o') := by
  cases h with
  | answered related link =>
    obtain rfl := related
    obtain ⟨events, rfl⟩ := link
    refine .answered rfl ⟨events, ?_⟩
    unfold remember
    split <;> rfl
  | failed alike link =>
    obtain ⟨events, rfl⟩ := link
    exact .failed alike ⟨events, rfl⟩
  | excused h => exact h.elim
  | waived h => exact h.elim

theorem visit_quiet (hrules : quiet.Tied Eq (tryRules src p recur a b) (tryRules src p recur' a b)) :
    quiet.Tied Eq (visit src p recur a b) (visit src p recur' a b) := by
  rintro s s' hlink -
  obtain ⟨events, hs'⟩ := id hlink
  have hknown : known s' (a, b) = known s (a, b) := by rw [hs']
  cases hm : known s (a, b) with
  | some answer =>
    rw [hm] at hknown
    rw [visit_of_known hm, visit_of_known hknown]
    exact .answered rfl hlink
  | none =>
    rw [hm] at hknown
    subst hs'
    rcases visit_pair src src p p recur recur' hm hknown ⟨rfl, rfl, rfl, Nat.le_refl _⟩ Iff.rfl with
      ⟨hi, hv⟩ | ⟨hv, hv'⟩ | ⟨-, hv, hv'⟩ | ⟨-, -, hv, hv'⟩
    · rw [hv, visit_of_exhausted hknown hi]
      exact .failed ⟨rfl, rfl⟩ ⟨events, rfl⟩
    · rw [hv, hv']
      exact .failed ⟨rfl, rfl⟩ ⟨events, rfl⟩
    · rw [hv, hv']
      exact .answered rfl ⟨_, rfl⟩
    · rw [hv, hv']
      exact settle_quiet (hrules _ _ ⟨events, rfl⟩ trivial) s.gathered.cycles a b

end Vetting

variable {t : Table} {a b : TypeRef}

theorem climbs_quiet (t : Table) (p : Profile) (b : TypeRef) : Climbs quiet id t t p p b := by
  refine climbs_id (fun _ _ => id) (fun r e he => ?_) b
  rw [he]
  exact .fail ⟨rfl, Table.isLimit_of_supertypesOf he⟩

/-- In a table of well-formed declarations, a search for a match of well-formed references goes on in the same way if
    every query is looked at, whatever would be done about an ill-formed one. If it fails, it has met a limit. -/
theorem solve_quiet (ht : t.Checked) (p : Profile) (alarm : TypeRef → TypeRef → UnifyM Unification) (room : Nat)
    (ha : check t a = .ok ()) (hb : check t b = .ok ()) :
    quiet.Tied Eq (solve t p room a b) (solveVetted t p alarm room a b) := by
  -- By induction on the room: the queries below are well-formed again, which is all that the alarm depends on.
  induction room generalizing a b with
  | zero =>
    rw [solve, solveVetted, vetted_of_check ha hb]
    exact visit_quiet (tryRules_tied_id (climbs_quiet t p b) (fun _ _ _ => trivial) fun _ _ _ => .pure rfl)
  | succ room ih =>
    rw [solve, solveVetted, vetted_of_check ha hb]
    refine visit_quiet (tryRules_tied_id (climbs_quiet t p b) (fun _ _ _ => trivial) fun x y hxy => ?_)
    obtain ⟨hx, hy⟩ := ht.asks hxy ha hb
    exact ih hx hy

/-- Over any table, a search that fails has met a limit. -/
theorem isLimit_of_solve {p : Profile} {room : Nat} {s : Search Query Findings} {e : Failure}
    (h : (solve t p room a b s).1 = .error e) : e.isLimit = true := by
  have hself : quiet.Tied Eq (solve t p room a b) (solve t p room a b) := by
    clear h
    induction room generalizing a b with
    | zero => exact visit_quiet (tryRules_tied_id (climbs_quiet t p b) (fun _ _ _ => trivial) fun _ _ _ => .pure rfl)
    | succ room ih => exact visit_quiet (tryRules_tied_id (climbs_quiet t p b) (fun _ _ _ => trivial) fun _ _ _ => ih)
  exact (quiet_result (hself s s ⟨_, rfl⟩ trivial)).2 e h

end UnifyM

namespace Unifier

variable {σ : Type} [TypeSource σ] {src : σ} {u : Unifier} {a b : TypeRef}

theorem result_of_check (ha : check src a = .ok ()) (hb : check src b = .ok ()) :
    (u.unify src a b).result = (UnifyM.solve src u.closure u.guard.maxDepth a b u.start).1 := by
  simp only [Unifier.unify, ha, hb]
  rfl

theorem result_of_not_check (h : ¬(check src a = .ok () ∧ check src b = .ok ())) :
    ∃ e, (u.unify src a b).result = .error e ∧ e.isIllFormed = true := by
  unfold Unifier.unify
  cases ha : check src a with
  | error e => exact ⟨e, rfl, isIllFormed_of_checkArg ha⟩
  | ok =>
    cases hb : check src b with
    | error e => exact ⟨e, rfl, isIllFormed_of_checkArg hb⟩
    | ok => exact absurd ⟨ha, hb⟩ h

end Unifier

/-- Where every declared base and interface is well-formed, so are the supertypes of a well-formed reference. A search
    for a match of well-formed references comes to well-formed references only, so that it makes no difference what
    would be done about others. The references that are asked about are the only ones that can be found to be
    ill-formed. -/
theorem wellFormed_throughout (t : Table) (ht : t.Checked) :
    (∀ (r : TypeRef) (p : Profile) (l : List TypeRef), check t r = .ok () → supertypesOf t r p = .ok l →
      ∀ q ∈ l, check t q = .ok ()) ∧
    ∀ (u : Unifier) (a b : TypeRef),
      (check t a = .ok () → check t b = .ok () → ∀ alarm : TypeRef → TypeRef → UnifyM Unification,
        (UnifyM.solveVetted t u.closure alarm u.guard.maxDepth a b u.start).1 = (u.unify t a b).result) ∧
      ((∃ e, (u.unify t a b).result = .error e ∧ e.isIllFormed = true) ↔
        ¬(check t a = .ok () ∧ check t b = .ok ())) := by
  refine ⟨fun r p l hr hl q hq => ht.supertypesOf hr hl hq, fun u a b => ?_⟩
  have hquiet (alarm : TypeRef → TypeRef → UnifyM Unification) (ha : check t a = .ok ()) (hb : check t b = .ok ()) :=
    UnifyM.quiet_result (UnifyM.solve_quiet ht u.closure alarm u.guard.maxDepth ha hb u.start u.start ⟨_, rfl⟩ trivial)
  refine ⟨fun ha hb alarm => ?_, ?_, Unifier.result_of_not_check⟩
  · rw [Unifier.result_of_check ha hb]
    exact (hquiet alarm ha hb).1
  · rintro ⟨e, he, hill⟩ ⟨ha, hb⟩
    rw [Unifier.result_of_check ha hb] at he
    have hlimit := (hquiet (fun _ _ => pure .noMatch) ha hb).2 e he
    simp [Failure.isIllFormed, hlimit] at hill

theorem Table.checked_pairs : Table.pairs.Checked := by
  intro s d hd x hx
  rcases Table.get?_pairs hd with ⟨-, -, hrel⟩ | ⟨-, -, hrel⟩ <;> rw [hrel] at hx
  · cases List.mem_singleton.mp hx
    decide
  · rcases List.mem_pair.mp hx with rfl | rfl <;> decide

/-- A well-formed reference to the second declaration has four well-formed supertypes, and no query about it is cause
    for alarm. A reference to the first one without its argument is turned down. -/
theorem wellFormed_throughout_pairs :
    let r : TypeRef := ⟨⟨2⟩, [.type ⟨1⟩ [.param ⟨⟨2⟩, 1⟩], .param ⟨⟨1⟩, 0⟩]⟩
    (∃ l, supertypesOf Table.pairs r .supertypeClosure = .ok l ∧ l.length = 4 ∧ ∀ q ∈ l, check Table.pairs q = .ok ()) ∧
    (∀ alarm : TypeRef → TypeRef → UnifyM Unification,
      (UnifyM.solveVetted Table.pairs .supertypeClosure alarm 64 ⟨⟨1⟩, [.param ⟨⟨1⟩, 0⟩]⟩ r
        (Unifier.ofProfile .unification).start).1 =
        ((Unifier.ofProfile .unification).unify Table.pairs ⟨⟨1⟩, [.param ⟨⟨1⟩, 0⟩]⟩ r).result) ∧
    ∃ e, ((Unifier.ofProfile .unification).unify Table.pairs ⟨⟨1⟩, []⟩ r).result = .error e ∧ e.isIllFormed = true := by
  intro r
  obtain ⟨hsupertypes, hsearch⟩ := wellFormed_throughout Table.pairs Table.checked_pairs
  have hr : check Table.pairs r = .ok () := by decide
  refine ⟨?_, fun alarm => ?_, ?_⟩
  · obtain ⟨l, hl, hlength⟩ : ∃ l, supertypesOf Table.pairs r .supertypeClosure = .ok l ∧ l.length = 4 :=
      ⟨[⟨⟨1⟩, [.type ⟨1⟩ [.param ⟨⟨2⟩, 1⟩]]⟩, ⟨⟨1⟩, [.type ⟨1⟩ [.type ⟨1⟩ [.param ⟨⟨2⟩, 1⟩]]]⟩,
        ⟨⟨1⟩, [.param ⟨⟨1⟩, 0⟩]⟩, ⟨⟨1⟩, [.type ⟨1⟩ [.param ⟨⟨1⟩, 0⟩]]⟩], by decide +kernel, rfl⟩
    exact ⟨l, hl, hlength, hsupertypes r _ l hr hl⟩
  · exact (hsearch (.ofProfile .unification) ⟨⟨1⟩, [.param ⟨⟨1⟩, 0⟩]⟩ r).1 (by decide) hr alarm
  · exact (hsearch (.ofProfile .unification) ⟨⟨1⟩, []⟩ r).2.mpr fun h => absurd h.1 (by decide)

end Nominal
