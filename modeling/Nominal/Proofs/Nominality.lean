import Nominal.Proofs.Depth
import Nominal.Proofs.Paths
import Nominal.Proofs.Supertypes

/-! Matching follows the declared hierarchy. A match leads from the type that is used to the type that is asked for
    along bases and interfaces that the types name, never through the root. Conversely a type without parameters is
    matched by everything below it: if the rules found no match, they have listed all supertypes, and it would be among
    them. -/

namespace Nominal

theorem TypeRef.length_args_normalized {r : TypeRef} : r.normalized.args.length = r.args.length := by
  unfold normalized
  split
  · simp [definition, opened, openArgs, arity]
  · rfl

namespace Universe

variable {u : Universe} {p : Profile} {l : List TypeRef} {a b q r : TypeRef} {s s' : Symbol}

theorem extends_of_rises (h : Relation.TransGen u.Rises s s') : Relation.TransGen u.linked.Extends s s' :=
  Relation.TransGen.mono (fun _ _ hstep => hstep.1.extends) s s' h

theorem ne_root_of_rises (h : Relation.TransGen u.Rises s s') : s' ≠ root := by
  obtain ⟨_, -, hstep⟩ := Relation.TransGen.tail'_iff.mp h
  exact hstep.2

/-- Nothing is reached from what is reached from it. -/
theorem Passes.rises_antisymm (h : u.Passes) (hs : Relation.ReflTransGen u.Rises s s')
    (hs' : Relation.ReflTransGen u.Rises s' s) : s = s' := by
  rcases Relation.reflTransGen_iff_eq_or_transGen.mp hs with heq | hs
  · exact heq.symm
  · exact absurd (extends_of_rises (hs.trans_left hs')) (h.proper.acyclic s)

/-! ### Supertypes -/

/-- A supertype is listed because something at or below it implements or extends it. -/
theorem exists_step_of_mem_supertypesOf (h : u.Passes) (hl : supertypesOf u.linked r p = .ok l) (hq : q ∈ l) :
    ∃ c m, (u.linked.Declares c m ∨ BaseChain.Below u.linked c m) ∧ q.symbol = m.symbol ∧
      q.args.length = m.args.length := by
  obtain ⟨m, hm | hm, rfl⟩ := (mem_supertypesOf_iff hl).mp hq <;> rw [symbol_normalized, TypeRef.length_args_normalized]
  · obtain ⟨i, hi, rfl⟩ := List.mem_map.mp hm
    obtain ⟨_, hstep, -⟩ := Relation.TransGen.head'_iff.mp (Table.reaches_of_mem_flattened hi)
    obtain ⟨d, hd⟩ := Table.contains_iff.mp hstep.contains
    obtain ⟨c, -, hdecl⟩ := (Table.mem_flattened h.proper.acyclic hd).mp hi
    exact ⟨c, i, Or.inl hdecl, rfl, TypeRef.length_args_instantiate⟩
  · obtain ⟨c, -, hbelow⟩ := Relation.TransGen.tail'_iff.mp hm
    exact ⟨c, m, Or.inr hbelow, rfl, rfl⟩

/-- The root is not listed among the supertypes. -/
theorem ne_root_of_mem_supertypesOf (h : u.Passes) (hl : supertypesOf u.linked r p = .ok l) (hq : q ∈ l) :
    q.symbol ≠ root := by
  obtain ⟨c, m, hm, hs, -⟩ := exists_step_of_mem_supertypesOf h hl hq
  rw [hs]
  intro hroot
  rcases hm with hm | hm
  · exact not_isInterface_root (hroot ▸ isInterface_of_declares h.reads hm)
  · obtain ⟨_, x, -, -, hx, rfl⟩ := BaseChain.below_iff.mp hm
    obtain ⟨d, hd, -, -, -, hisRoot⟩ := u.get?_linked_root
    have hx' : TypeSource.isRoot u.linked root = false := hroot ▸ hx
    simp [TypeSource.isRoot, hd, hisRoot] at hx'

theorem rises_of_mem_supertypesOf (h : u.Passes) (hl : supertypesOf u.linked r p = .ok l) (hq : q ∈ l) :
    Relation.TransGen u.Rises r.symbol q.symbol :=
  rises_of_extends (reaches_of_mem_supertypesOf hl hq) (ne_root_of_mem_supertypesOf h hl hq)

theorem saturated_of_mem_supertypesOf (h : u.Passes) (hl : supertypesOf u.linked r p = .ok l) (hq : q ∈ l) :
    u.linked.Saturated q := by
  obtain ⟨c, m, hm, hs, hlen⟩ := exists_step_of_mem_supertypesOf h hl hq
  have hsat : u.linked.Saturated m := by
    rcases hm with hm | hm
    · exact hm.step.saturated h.proper
    · exact hm.step.saturated h.proper
  rw [Table.Saturated, hs, hlen]
  exact hsat

/-- Whatever is reached has an instance among the supertypes. -/
theorem exists_mem_supertypesOf (h : u.Passes) (hr : u.linked.Saturated r) (hl : supertypesOf u.linked r p = .ok l)
    (hs : Relation.TransGen u.Rises r.symbol s) : ∃ q ∈ l, q.symbol = s := by
  have hroot := ne_root_of_rises hs
  have hreach := extends_of_rises hs
  obtain ⟨c, hc, hstep⟩ := Relation.TransGen.tail'_iff.mp hreach
  rcases extends_kinds h.reads hstep with ⟨hi, -⟩ | ⟨-, -, hs⟩
  · obtain ⟨d, hd, -⟩ := hr.get?
    obtain ⟨i, hmem, rfl⟩ := Table.exists_mem_flattened_of_reaches h.proper hd hc hi
    exact ⟨(r.instantiate i).normalized, (mem_supertypesOf_iff hl).mpr ⟨_, Or.inl (List.mem_map_of_mem hmem), rfl⟩,
      symbol_normalized⟩
  · obtain ⟨m, hm, rfl⟩ := climb_of_inherits (inherits_of_extends h.reads hreach hs) hroot
    exact ⟨m.normalized, (mem_supertypesOf_iff hl).mpr ⟨m, Or.inr hm, rfl⟩, symbol_normalized⟩

/-! ### Matches -/

theorem rises_of_matches (h : u.Passes) (hab : Matches u.linked p a b) :
    Relation.ReflTransGen u.Rises b.symbol a.symbol := by
  refine hab (fun x y => Relation.ReflTransGen u.Rises y.symbol x.symbol) fun x y hxy => ?_
  cases hxy with
  | opened same isOpen => rw [same]
  | arguments same pairs => rw [same]
  | definition walk mem premise =>
    obtain ⟨n, -, walk⟩ := supertypesOf_of_mem_supertypes walk mem
    exact (rises_of_mem_supertypesOf h walk mem).to_reflTransGen.trans premise
  | supertype walk mem premise => exact (rises_of_mem_supertypesOf h walk mem).to_reflTransGen.trans premise

theorem matches_of_symbol_eq (ha : a.args = []) (hsat : u.linked.Saturated a) (hsat' : u.linked.Saturated b)
    (hs : a.symbol = b.symbol) : Matches u.linked p a b := by
  have hargs : b.args = [] := by
    unfold Table.Saturated at hsat hsat'
    rw [hs, hsat', ha] at hsat
    exact List.length_eq_zero_iff.mp (Option.some.inj hsat)
  have hopen : b.IsOpen := by simp [TypeRef.IsOpen, TypeRef.openArgs, TypeRef.arity, hargs]
  exact .of_rule (.opened hs hopen)

/-- A type without parameters is matched by everything below it whose supertypes can be listed. -/
theorem matches_of_rises (h : u.Passes) (ha : a.args = []) (hsat : u.linked.Saturated a) (hsat' : u.linked.Saturated b)
    (hl : supertypesOf u.linked b p = .ok l) (hs : Relation.ReflTransGen u.Rises b.symbol a.symbol) :
    Matches u.linked p a b := by
  rcases Relation.reflTransGen_iff_eq_or_transGen.mp hs with heq | hs
  · exact matches_of_symbol_eq ha hsat hsat' heq
  · obtain ⟨q, hq, hqs⟩ := exists_mem_supertypesOf h hsat' hl hs
    exact .of_rule (.supertype hl hq (matches_of_symbol_eq ha hsat (saturated_of_mem_supertypesOf h hl hq) hqs.symm))

end Universe

/-! ### Answers -/

section Answers

variable {σ : Type} [TypeSource σ] {src : σ} {p : Profile} {a b : TypeRef} {answer : Unification}

/-- Whatever the queries in between find, the rules deny a match only after the supertypes have been listed. -/
theorem UnifyM.listed_of_tryRules {recur : TypeRef → TypeRef → UnifyM Unification} {s t : Search Query Findings}
    (h : tryRules src p recur a b s = (.ok answer, t)) (hno : answer.isMatch = false) :
    ∃ above, supertypesOf src b p = .ok above := by
  have hrec : ∀ x y, Asks src p a b x y → Stretch.free.Yields (recur x y) fun w => Tells True False w.isMatch :=
    fun x y _ s t w _ _ _ => ⟨fun _ => trivial, fun _ => id⟩
  have hyields := tryRules_yields (M := fun _ _ => True) (N := fun _ _ => False) (fun _ _ _ => trivial) hrec
  exact (hyields s t answer trivial h trivial).listed hno

theorem UnifyM.listed_of_visit {recur : TypeRef → TypeRef → UnifyM Unification} {s t : Search Query Findings}
    (hs : Orderly src p s) (hactive : s.guard.active = []) (h : visit src p recur a b s = (.ok answer, t))
    (hno : answer.isMatch = false) : ∃ above, supertypesOf src b p = .ok above := by
  rcases visit_eq_ok h with ⟨hm, -⟩ | ⟨ha, -⟩ | ⟨u, -, -, -, hrun, -⟩
  · obtain ⟨_, hrun⟩ := hs.explained hm (Or.inl (Unification.eq_noMatch hno)) _ (fun _ _ => id) s
    exact listed_of_tryRules hrun hno
  · rw [hactive] at ha
    cases ha
  · exact listed_of_tryRules hrun hno

namespace Unifier

theorem Settled.listed {u : Unifier} (h : Settled src p u) (hr : (u.unify src a b).result = .ok answer)
    (hno : answer.isMatch = false) : ∃ above, supertypesOf src b p.closure = .ok above := by
  rcases unify_cases src p a b with ⟨e, herror⟩ | hsearch
  · rw [herror] at hr
    cases hr
  · obtain ⟨r, z, hz, hr', -⟩ := hsearch u h
    cases hr'.symm.trans hr
    obtain ⟨recur, hvisit⟩ : ∃ recur, UnifyM.solve src p.closure p.maxDepth = UnifyM.visit src p.closure recur := by
      cases p.maxDepth with
      | zero => exact ⟨_, rfl⟩
      | succ room => exact ⟨_, rfl⟩
    rw [hvisit] at hz
    exact UnifyM.listed_of_visit h.orderly (start_active h.ready.idle) hz hno

theorem check_of_unify_ok {u : Unifier} (h : (u.unify src a b).result = .ok answer) :
    TypeSource.check src a = .ok () ∧ TypeSource.check src b = .ok () := by
  unfold Unifier.unify at h
  cases ha : TypeSource.check src a with
  | error e => simp [ha] at h
  | ok =>
    cases hb : TypeSource.check src b with
    | error e => simp [ha, hb] at h
    | ok => exact ⟨rfl, rfl⟩

/-- Some unifier, within some limits and after some queries, has given this answer. -/
def Answers (src : σ) (a b : TypeRef) (answer : Unification) : Prop :=
  ∃ p history, (((Unifier.ofProfile p).after src history).unify src a b).result = .ok answer

/-- Some unifier has answered that `b` can be used where `a` is asked for. -/
def Meets (src : σ) (a b : TypeRef) : Prop := ∃ answer, Answers src a b answer ∧ answer.isMatch = true

theorem Answers.check (h : Answers src a b answer) :
    TypeSource.check src a = .ok () ∧ TypeSource.check src b = .ok () := by
  obtain ⟨p, history, hr⟩ := h
  exact check_of_unify_ok hr

theorem Meets.check (h : Meets src a b) : TypeSource.check src a = .ok () ∧ TypeSource.check src b = .ok () := by
  obtain ⟨answer, hr, -⟩ := h
  exact hr.check

end Unifier

end Answers

namespace Unifier

variable {u : Universe} {a b : TypeRef} {answer : Unification}

theorem Answers.rises (hr : Answers u.linked a b answer) (h : u.Passes) (hm : answer.isMatch = true) :
    Relation.ReflTransGen u.Rises b.symbol a.symbol := by
  obtain ⟨p, history, hr⟩ := hr
  have hcorrect := ((Settled.ofProfile u.linked p).after history).ready.correct hr
  exact Universe.rises_of_matches h (hcorrect.isMatch.mp hm)

theorem Answers.isMatch_of_rises (hr : Answers u.linked a b answer) (h : u.Passes) (ha : a.isGeneric = false)
    (hs : Relation.ReflTransGen u.Rises b.symbol a.symbol) : answer.isMatch = true := by
  obtain ⟨hcheck, hcheck'⟩ := hr.check
  obtain ⟨p, history, hr⟩ := hr
  have hsettled := (Settled.ofProfile u.linked p).after history
  have hargs : a.args = [] := by simpa [TypeRef.isGeneric] using ha
  by_contra hno
  obtain ⟨above, hl⟩ := hsettled.listed hr (Bool.eq_false_iff.mpr hno)
  refine hno ((hsettled.ready.correct hr).isMatch.mpr ?_)
  exact Universe.matches_of_rises h hargs (Table.saturated_of_check hcheck) (Table.saturated_of_check hcheck') hl hs

theorem Meets.rises (hab : Meets u.linked a b) (h : u.Passes) : Relation.ReflTransGen u.Rises b.symbol a.symbol := by
  obtain ⟨answer, hr, hm⟩ := hab
  exact hr.rises h hm

/-- Every question about well-formed references is answered by some unifier. -/
theorem exists_answers (h : u.Passes) (ha : TypeSource.check u.linked a = .ok ())
    (hb : TypeSource.check u.linked b = .ok ()) : ∃ answer, Answers u.linked a b answer := by
  have hlisted := h.listed (Nat.le_mul_of_pos_right u.linked.size a.one_le_nesting)
  obtain ⟨answer, hr⟩ := exists_unify_ok hlisted (Nat.le_refl _) ha hb
  exact ⟨answer, _, [], hr⟩

end Unifier

/-- In a table that was built, whatever matches is reached from what is used for it by the bases and interfaces that the
    types name without entering the root, and a type without arguments is matched by whatever it is reached from. So
    references that match both ways have one symbol, and matching is transitive where the type that is asked for has no
    arguments. -/
theorem unify_nominal (u : Universe) (t : Table) (hbuild : u.build.value = .ok t) :
    (∀ p history a b answer, (((Unifier.ofProfile p).after t history).unify t a b).result = .ok answer →
      (answer.isMatch = true → Relation.ReflTransGen u.Rises b.symbol a.symbol) ∧
      (a.isGeneric = false → Relation.ReflTransGen u.Rises b.symbol a.symbol → answer.isMatch = true)) ∧
    (∀ a b, Unifier.Meets t a b → Unifier.Meets t b a → a.symbol = b.symbol) ∧
    ∀ a b c, a.isGeneric = false → Unifier.Meets t a b → Unifier.Meets t b c →
      Unifier.Meets t a c ∧ ∀ p history answer,
        (((Unifier.ofProfile p).after t history).unify t a c).result = .ok answer → answer.isMatch = true := by
  obtain ⟨hpass, rfl⟩ := Universe.build_eq_ok hbuild
  refine ⟨fun p history a b answer hr => ?_, ?_, ?_⟩
  · have hanswer : Unifier.Answers u.linked a b answer := ⟨p, history, hr⟩
    exact ⟨hanswer.rises hpass, hanswer.isMatch_of_rises hpass⟩
  · intro a b hab hba
    exact hpass.rises_antisymm (hba.rises hpass) (hab.rises hpass)
  · intro a b c ha hab hbc
    have hrises := (hbc.rises hpass).trans (hab.rises hpass)
    have hmatch {answer : Unification} (hr : Unifier.Answers u.linked a c answer) : answer.isMatch = true :=
      hr.isMatch_of_rises hpass ha hrises
    obtain ⟨answer, hr⟩ := Unifier.exists_answers hpass hab.check.1 hbc.check.2
    exact ⟨⟨answer, hr, hmatch hr⟩, fun p history answer hr => hmatch ⟨p, history, hr⟩⟩

open Universe in
theorem arity?_crates : TypeSource.arity? crates.linked ⟨2⟩ = some 0 ∧ TypeSource.arity? crates.linked ⟨3⟩ = some 0 ∧
    TypeSource.arity? crates.linked ⟨4⟩ = some 1 :=
  ⟨arity?_linked (mem_entries crates 0 rfl), arity?_linked (mem_entries crates 1 rfl),
    arity?_linked (mem_entries crates 2 rfl)⟩

open Universe in
theorem rises_crates : crates.Rises ⟨3⟩ ⟨2⟩ ∧ crates.Rises ⟨4⟩ ⟨3⟩ :=
  ⟨⟨⟨_, "IItem", _, mem_entries crates 1 rfl, Or.inr (by decide), parse_crates.1, rfl⟩, by decide⟩,
    ⟨_, "Item", _, mem_entries crates 2 rfl, Or.inl rfl, parse_crates.2, rfl⟩, by decide⟩

open Universe in
/-- A crate of items can be used where an item is asked for, so it can be used where the interface is, and not the other
    way round. -/
theorem unify_nominal_crates :
    let item : TypeRef := ⟨⟨3⟩, []⟩
    let crate : TypeRef := ⟨⟨4⟩, [.type ⟨3⟩ []]⟩
    Unifier.Meets crates.linked ⟨⟨2⟩, []⟩ item ∧ Unifier.Meets crates.linked item crate ∧
      Unifier.Meets crates.linked ⟨⟨2⟩, []⟩ crate ∧ ¬Unifier.Meets crates.linked crate ⟨⟨2⟩, []⟩ := by
  intro item crate
  obtain ⟨hanswer, hsymbol, htrans⟩ := unify_nominal crates crates.linked build_crates
  have hinterface : TypeSource.check crates.linked ⟨⟨2⟩, []⟩ = .ok () := by
    simp [TypeSource.check, TypeRef.toArg, TypeSource.checkArg_type_iff, arity?_crates]
  have hitem : TypeSource.check crates.linked item = .ok () := by
    simp [item, TypeSource.check, TypeRef.toArg, TypeSource.checkArg_type_iff, arity?_crates]
  have hcrate : TypeSource.check crates.linked crate = .ok () := by
    simp [crate, TypeSource.check, TypeRef.toArg, TypeSource.checkArg_type_iff, arity?_crates]
  have hmeets {a b : TypeRef} (ha : TypeSource.check crates.linked a = .ok ())
      (hb : TypeSource.check crates.linked b = .ok ()) (hgeneric : a.isGeneric = false)
      (hs : crates.Rises b.symbol a.symbol) : Unifier.Meets crates.linked a b := by
    obtain ⟨answer, p, history, hr⟩ := Unifier.exists_answers (build_eq_ok build_crates).1 ha hb
    exact ⟨answer, ⟨p, history, hr⟩, (hanswer p history a b answer hr).2 hgeneric (.single hs)⟩
  have hfirst : Unifier.Meets crates.linked ⟨⟨2⟩, []⟩ item := hmeets hinterface hitem rfl rises_crates.1
  have hsecond : Unifier.Meets crates.linked item crate := hmeets hitem hcrate rfl rises_crates.2
  have hboth := (htrans _ item crate rfl hfirst hsecond).1
  refine ⟨hfirst, hsecond, hboth, fun hback => ?_⟩
  have hsame := hsymbol _ _ hback hboth
  exact absurd hsame (by decide)

end Nominal
