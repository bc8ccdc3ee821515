import Nominal.Proofs.Nominality
import Nominal.Proofs.Refutation

/-! References to one symbol match by their arguments alone. A supertype of the one that is used has a symbol above, and
    where nothing is above itself no match leads back down. So the rules for supertypes find nothing that the rule for
    arguments does not find. Whatever limits the queries were asked within, all their answers agree with one relation
    (`isMatch_iff_of_listed`), so the arguments may be asked about by any unifiers. -/

namespace Nominal

variable {t : Table} {u : Universe} {p q : Profile} {a b : TypeRef} {answer : Unification}

/-! ### Other limits -/

theorem Matches.within_all {σ : Type} [TypeSource σ] {src : σ} (h : Matches src p a b) :
    MatchesWithin src p (fun _ _ => True) a b :=
  fun R hR => h R fun x y => hR x y trivial

/-- What a table lists does not depend on the limits, if it is listed at all. -/
theorem Table.outlists (t : Table) (p q : Profile) : Outlists t p t q fun _ _ => True := by
  have href : ∀ {r l l'}, supertypesOf t r p = .ok l → supertypesOf t r q = .ok l' → ∀ m ∈ l', m ∈ l :=
    fun hl hl' m hm => (mem_supertypesOf_iff hl).mpr ((mem_supertypesOf_iff hl').mp hm)
  refine ⟨fun {c l l'} hl hl' x m hm _ => ?_, fun hl hl' x m hm _ => href hl hl' m hm⟩
  obtain ⟨n, hn, hdef⟩ := supertypesOf_of_mem_supertypes hl' hm
  simp only [supertypes, TypeSource.definition?, hn, Option.map_some] at hl
  exact href hl hdef m hm

theorem Matches.of_listed (hq : UnifyM.Listed t q) (h : Matches t p a b) : Matches t q a b := by
  refine h (Matches t q) fun x y hxy => .of_rule ?_
  obtain ⟨l, hl⟩ := hq.supertypesOf y
  exact (t.outlists q p).byRule (fun _ _ _ => trivial) hl hxy

/-- Within whatever limits, and whatever was asked before: answers are right for limits within which all supertypes are
    listed. -/
theorem isMatch_iff_of_listed (hq : UnifyM.Listed t q) (hr : Unifier.Answers t a b answer) :
    answer.isMatch = true ↔ Matches t q a b := by
  obtain ⟨p, history, hr⟩ := hr
  constructor
  · intro hm
    have hcorrect := ((Unifier.Ready.ofProfile t p).after history).correct hr
    exact (hcorrect.isMatch.mp hm).of_listed hq
  · intro hab
    by_contra hno
    exact Unifier.not_matchesWithin_of_unify (t.outlists p.closure q) hr (Bool.eq_false_iff.mpr hno) hab.within_all

/-! ### One symbol -/

theorem Universe.forall₂_args_of_matches (h : u.Passes) (hab : Matches u.linked p a b) (same : a.symbol = b.symbol)
    (hb : ¬b.IsOpen) : List.Forall₂ (ArgRelated (Matches u.linked p)) a.args b.args := by
  -- A supertype of `b` that allows `a` would lie above the symbol of `b` and lead back to it.
  have habove : ∀ {r l q x}, supertypesOf u.linked r p = .ok l → q ∈ l → Matches u.linked p x q → r.symbol = b.symbol →
      x.symbol = b.symbol → False := by
    intro r l q x hl hq hxq hr hx
    have hup := rises_of_mem_supertypesOf h hl hq
    have hback := rises_of_matches h hxq
    rw [hr] at hup
    rw [hx] at hback
    exact h.proper.acyclic _ (extends_of_rises (hup.trans_left hback))
  cases hab.inv with
  | opened _ isOpen => exact absurd isOpen hb
  | arguments _ pairs => exact pairs
  | definition walk mem premise =>
    obtain ⟨n, -, walk⟩ := supertypesOf_of_mem_supertypes walk mem
    exact (habove walk mem premise rfl same).elim
  | supertype walk mem premise => exact (habove walk mem premise rfl same).elim

/-- If pairs of references are all asked about, their answers say which are related. -/
theorem argRelated_iff_of_listed (hq : UnifyM.Listed t q) {given : TypeRef → TypeRef → Unification} {x y : TypeArg}
    (hxy : ∀ v w : TypeRef, v.toArg = x → w.toArg = y → Unifier.Answers t v w (given v w)) :
    ArgRelated (fun v w => (given v w).isMatch = true) x y ↔ ArgRelated (Matches t q) x y := by
  match x, y with
  | .param _, .param _ => exact Iff.rfl
  | .param _, .type _ _ => exact Iff.rfl
  | .type _ _, .param _ => exact Iff.rfl
  | .type c as, .type d bs => exact isMatch_iff_of_listed hq (hxy ⟨c, as⟩ ⟨d, bs⟩ rfl rfl)

open Unifier in
/-- In a table that was built, references to one symbol, of which the one that is used is not the open definition, match
    exactly if at each position their arguments are the same parameter or two types whose given answer is a match. The
    limits and the earlier queries of the unifiers that gave the answers do not matter. -/
theorem unify_congruent (u : Universe) (t : Table) (hbuild : u.build.value = .ok t) (a b : TypeRef)
    (answer : Unification) (hr : Answers t a b answer) (same : a.symbol = b.symbol) (hb : ¬b.IsOpen)
    (given : TypeRef → TypeRef → Unification)
    (hgiven : ∀ x y : TypeRef, (x.toArg, y.toArg) ∈ a.args.zip b.args → Answers t x y (given x y)) :
    answer.isMatch = true ↔ List.Forall₂ (ArgRelated fun x y => (given x y).isMatch = true) a.args b.args := by
  obtain ⟨hpass, rfl⟩ := Universe.build_eq_ok hbuild
  have hlisted := hpass.listed (Nat.le_refl u.linked.size)
  have hpairs : ∀ x y, (x, y) ∈ a.args.zip b.args → (ArgRelated (fun v w => (given v w).isMatch = true) x y ↔
      ArgRelated (Matches u.linked (.custom u.linked.size Profile.ceiling)) x y) := by
    intro x y hxy
    refine argRelated_iff_of_listed hlisted fun v w hv hw => hgiven v w ?_
    rw [hv, hw]
    exact hxy
  rw [isMatch_iff_of_listed hlisted hr]
  constructor
  · intro hab
    obtain ⟨hlength, hrel⟩ := List.forall₂_iff_zip.mp (Universe.forall₂_args_of_matches hpass hab same hb)
    exact List.forall₂_iff_zip.mpr ⟨hlength, fun hxy => (hpairs _ _ hxy).mpr (hrel hxy)⟩
  · intro hargs
    obtain ⟨hlength, hrel⟩ := List.forall₂_iff_zip.mp hargs
    exact .of_rule (.arguments same (List.forall₂_iff_zip.mpr ⟨hlength, fun hxy => (hpairs _ _ hxy).mp (hrel hxy)⟩))

open Universe Unifier in
/-- A crate of items can be used where a crate of what items implement is asked for. The other way round it cannot,
    although the crates have a supertype in common. -/
theorem unify_congruent_crates :
    let items : TypeRef := ⟨⟨4⟩, [.type ⟨3⟩ []]⟩
    let wider : TypeRef := ⟨⟨4⟩, [.type ⟨2⟩ []]⟩
    (∃ answer, Answers crates.linked wider items answer ∧ answer.isMatch = true) ∧
      ∃ answer, Answers crates.linked items wider answer ∧ answer.isMatch = false := by
  intro items wider
  have hpass : crates.Passes := (build_eq_ok build_crates).1
  have hcheck : TypeSource.check crates.linked ⟨⟨2⟩, []⟩ = .ok () ∧ TypeSource.check crates.linked ⟨⟨3⟩, []⟩ = .ok () ∧
      TypeSource.check crates.linked items = .ok () ∧ TypeSource.check crates.linked wider = .ok () := by
    simp [items, wider, TypeSource.check, TypeRef.toArg, TypeSource.checkArg_type_iff, arity?_crates]
  obtain ⟨hinterface, hitem, hitems, hwider⟩ := hcheck
  obtain ⟨up, hup⟩ := exists_answers hpass hinterface hitem
  obtain ⟨down, hdown⟩ := exists_answers hpass hitem hinterface
  have hyes : up.isMatch = true := hup.isMatch_of_rises hpass rfl (.single rises_crates.1)
  have hno : ¬down.isMatch = true := fun hmatch =>
    absurd (hpass.rises_antisymm (hdown.rises hpass hmatch) (.single rises_crates.1)) (by decide)
  obtain ⟨answer, hanswer⟩ := exists_answers hpass hwider hitems
  obtain ⟨answer', hanswer'⟩ := exists_answers hpass hitems hwider
  refine ⟨⟨answer, hanswer, ?_⟩, ⟨answer', hanswer', ?_⟩⟩
  · refine (unify_congruent crates _ build_crates wider items answer hanswer rfl (by decide) (fun _ _ => up) ?_).mpr
      (.cons hyes .nil)
    rintro ⟨c, as⟩ ⟨d, bs⟩ hxy
    cases List.mem_singleton.mp hxy
    exact hup
  · rw [Bool.eq_false_iff, Ne,
      unify_congruent crates _ build_crates items wider answer' hanswer' rfl (by decide) fun _ _ => down]
    · exact fun hargs => hno (List.forall₂_cons.mp hargs).1
    · rintro ⟨c, as⟩ ⟨d, bs⟩ hxy
      cases List.mem_singleton.mp hxy
      exact hdown

end Nominal
