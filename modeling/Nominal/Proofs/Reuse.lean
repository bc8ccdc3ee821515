import Nominal.Proofs.Depth
import Nominal.Proofs.Paths
import Nominal.Proofs.Reflexivity

/-! A unifier that was used before answers whatever a fresh one answers. As long as no cycle is cut, every answer on the
    way is remembered, and everything that is remembered can be found again from memory alone. A fresh search that asks
    what the used unifier knows therefore learns nothing that the used one does not know. In a table that was built no
    cycle is ever cut (`UnifyM.solve_calm`). -/

namespace Nominal

namespace UnifyM

variable {σ : Type} [TypeSource σ] {src : σ} {p : Profile} {room k : Nat} {path : List Query}
  {recur : TypeRef → TypeRef → UnifyM Unification} {s s' t z : Search Query Findings} {a b : TypeRef}
  {answer answer' : Unification}

/-! ### Searches without a cut -/

/-- A query whose answer `s'` knows leads to nothing that `s'` does not know, if no cycle is cut. -/
def Retraces (src : σ) (p : Profile) (s' : Search Query Findings) (room : Nat)
    (recur : TypeRef → TypeRef → UnifyM Unification) : Prop :=
  ∀ {a b s t answer answer'}, Fits room s → Orderly src p s → Covers (known s) (known s') →
    known s' (a, b) = some answer' → recur a b s = (.ok answer, t) → t.gathered.cycles = 0 →
    answer = answer' ∧ Covers (known t) (known s')

/-- A search up to its end `u` that stays within what `s'` knows, beside one that answers from memory. -/
def retracing (src : σ) (p : Profile) (s' : Search Query Findings) (k : Nat) (path : List Query)
    (u : Search Query Findings) : Pairing where
  toStretch := course src p k path u
  Link s _ := (course src p k path u).Starts s ∧ Covers (known s) (known s')
  Alike := Eq
  Excused _ _ := True
  Waived _ _ := True
  starts := And.left
  telling events _ h := ⟨(course src p k path u).forth ((orders_steady src p k).telling _ events) h.1, h.2⟩

section Retraces

variable (hs' : Orderly src p s') (hcycles : s'.gathered.cycles = 0)

include hs' hcycles

theorem tryRules_retraces (hrec : Exact src p k recur) (hretraces : Retraces src p s' k recur) (hf : Fits k s)
    (hs : Orderly src p s) (hcovers : Covers (known s) (known s')) (hm : known s' (a, b) = some answer')
    (h : tryRules src p recur a b s = (.ok answer, t)) (hc : t.gathered.cycles = 0) :
    answer = answer' ∧ Covers (known t) (known s') := by
  have htied : (retracing src p s' k s.guard.active t).Tied Eq (tryRules src p recur a b)
      (tryRules src p (fromMemory (known s')) a b) := by
    refine tryRules_tied_self (fun _ => rfl) hrec.keeps ?_
    rintro x y - v - ⟨hv, hcv⟩ hends
    have hforth := (course src p k s.guard.active t).forth (hrec.keeps x y v) hv
    cases hxy : known s' (x, y) with
    | none =>
      rw [fromMemory, hxy]
      exact .waived trivial
    | some found' =>
      rw [fromMemory_of_some hxy]
      rcases hrun : recur x y v with ⟨e | found, w⟩ <;> rw [hrun] at hforth hends
      · exact .excused trivial
      · have hw : w.gathered.cycles = 0 := Nat.eq_zero_of_le_zero (hc ▸ hends.2)
        obtain ⟨same, hcw⟩ := hretraces hv.1 hv.2.1 hcv hxy hrun hw
        exact .answered same ⟨hforth, hcw⟩
  obtain ⟨t', ht'⟩ := hs'.explained hm (Or.inr hcycles) (known s') (fun _ _ => id) s
  have ho := htied s s ⟨⟨hf, hs, rfl⟩, hcovers⟩
  rw [h, ht'] at ho
  cases ho (course_ends src p k _ t) with
  | answered same link => exact ⟨same, link.2⟩

theorem visit_retraces (hrec : ∀ k, room = k + 1 → Exact src p k recur ∧ Retraces src p s' k recur) :
    Retraces src p s' room (visit src p recur) := by
  intro a b s t answer answer' hf hs hcovers hm h hc
  rcases visit_eq_ok h with ⟨hknown, rfl⟩ | ⟨-, -, rfl⟩ | ⟨u, hfresh, -, hd, hr, rfl⟩
  · cases (hcovers _ _ hknown).symm.trans hm
    exact ⟨rfl, hcovers⟩
  · cases hc
  · obtain ⟨k, hk, hf'⟩ := hf.entered hd (a, b)
    obtain ⟨hexact, hretraces⟩ := hrec k hk
    rw [remember_cycles] at hc
    obtain ⟨rfl, hcu⟩ := tryRules_retraces hs' hcycles hexact hretraces hf' (hs.entered hfresh) hcovers hm hr hc
    refine ⟨rfl, fun q found hq => ?_⟩
    rw [known_remember] at hq
    split at hq
    · rename_i hnew
      cases hnew.1
      cases hq
      exact hm
    · exact hcu q found hq

theorem solve_retraces : ∀ room, Retraces src p s' room (solve src p room)
  | 0 => visit_retraces hs' hcycles fun k hk => by cases hk
  | room + 1 => visit_retraces hs' hcycles fun k hk => by
    cases hk
    exact ⟨solve_exact src p room, solve_retraces room⟩

end Retraces

/-- How the search of a used unifier stands to that of a fresh one: it has tried no more often and knows all that the
    fresh one knows, and no cycle was cut in either. -/
structure Informed (s s' : Search Query Findings) : Prop where
  trails : s.guard.Trails s'.guard
  cycles : s.gathered.cycles = 0
  cycles' : s'.gathered.cycles = 0
  covers : Covers (known s) (known s')

/-- The fresh search, up to its end `z`, beside the used one. The fresh one may fail. -/
def reusing (src : σ) (p : Profile) (z : Search Query Findings) (k : Nat) (path : List Query) : Pairing where
  toStretch := course src p k path z
  Link s s' := (course src p k path z).Starts s ∧ (course src p k path z).Starts s' ∧ Informed s s'
  Alike := Eq
  Excused _ _ := True
  Waived _ _ := False
  starts := And.left
  telling events events' h :=
    ⟨(course src p k path z).forth ((orders_steady src p k).telling _ events) h.1,
      (course src p k path z).forth ((orders_steady src p k).telling _ events') h.2.1,
      h.2.2.trails, h.2.2.cycles, h.2.2.cycles', h.2.2.covers⟩

/-- Leaving a query on both sides: no cycle was cut, so both remember the answer. -/
theorem Informed.settle {u u' : Search Query Findings} (h : Informed u u') (ha : u.guard.active = (a, b) :: path)
    (ha' : u'.guard.active = (a, b) :: path) :
    Informed (UnifyM.settle 0 a b (.ok answer, u)).2 (UnifyM.settle 0 a b (.ok answer, u')).2 := by
  refine ⟨h.trails.release ha ha', ?_, ?_, fun q found hq => ?_⟩
  · exact (remember_cycles _ _ _ _ _).trans h.cycles
  · exact (remember_cycles _ _ _ _ _).trans h.cycles'
  · simp only [UnifyM.settle, known_remember, h.cycles, h.cycles', or_true, and_true] at hq ⊢
    by_cases hnew : q = (a, b)
    · rw [if_pos hnew] at hq ⊢
      exact hq
    · rw [if_neg hnew] at hq ⊢
      exact h.covers q found hq

theorem visit_reusing (hexact : Exact src p room (visit src p recur)) (hz : z.gathered.cycles = 0)
    (hretraces : ∀ {s'}, Orderly src p s' → s'.gathered.cycles = 0 → Retraces src p s' room (visit src p recur))
    (hrec : ∀ k, room = k + 1 →
      Exact src p k recur ∧ ∀ path x y, (reusing src p z k path).Tied Eq (recur x y) (recur x y))
    (path : List Query) (a b : TypeRef) :
    (reusing src p z room path).Tied Eq (visit src p recur a b) (visit src p recur a b) := by
  rintro s s' ⟨hs, hs', hinformed⟩ hends
  have hcourse := @Stretch.forth (course src p room path z)
  have hkeeps := hexact.keeps a b s
  have hforth := hcourse hkeeps hs
  have hforth' := hcourse (hexact.keeps a b s') hs'
  cases hm : known s (a, b) with
  | some answer =>
    rw [visit_of_known hm, visit_of_known (hinformed.covers _ _ hm)]
    exact .answered rfl ⟨hs, hs', hinformed⟩
  | none =>
    cases hm' : known s' (a, b) with
    | some answer' =>
      rw [visit_of_known hm']
      rcases hrun : visit src p recur a b s with ⟨e | answer, t⟩ <;> rw [hrun] at hends hkeeps hforth
      · exact .excused trivial
      · have ht : t.gathered.cycles = 0 := Nat.eq_zero_of_le_zero (hz ▸ hends.2)
        obtain ⟨same, hcovers⟩ := hretraces hs'.2.1 hinformed.cycles' hs.1 hs.2.1 hinformed.covers hm' hrun ht
        exact .answered same ⟨hforth, hs', hkeeps.trails hs.1 hinformed.trails, ht, hinformed.cycles', hcovers⟩
    | none =>
      have hactive : (a, b) ∈ s'.guard.active ↔ (a, b) ∈ s.guard.active := by rw [hs.2.2, hs'.2.2]
      rcases visit_pair src src p p recur recur hm hm' hinformed.trails hactive with
        ⟨-, h⟩ | ⟨h, -⟩ | ⟨-, h, -⟩ | ⟨-, hd, h, h'⟩
      · rw [h]
        exact .excused trivial
      · rw [h]
        exact .excused trivial
      · -- A cut would have been counted in the end.
        rw [h] at hends
        exact absurd (hz ▸ hends.2) (Nat.not_succ_le_zero _)
      · obtain ⟨k, hk, hin, hin'⟩ := course_entered_both hs hs' hm hm' hinformed.trails hd
        obtain ⟨hexactk, htied⟩ := hrec k hk
        have hrules : (reusing src p z k ((a, b) :: path)).Tied Eq (tryRules src p recur a b)
          (tryRules src p recur a b) :=
          tryRules_tied_self (fun _ => rfl) hexactk.keeps fun x y _ => htied _ x y
        have ho := hrules _ _ ⟨hin, hin', hinformed.trails.entered _ _, hinformed.cycles, hinformed.cycles',
          hinformed.covers⟩
        rcases hr : tryRules src p recur a b { s with guard := s.guard.entered (a, b) } with ⟨r, u⟩
        rcases hr' : tryRules src p recur a b { s' with guard := s'.guard.entered (a, b) } with ⟨r', u'⟩
        rw [hr, hr'] at ho
        rw [h, hr] at hends hforth ⊢
        rw [h', hr'] at hforth' ⊢
        cases ho (course_settled (tryRules_leaves hexactk hin.1 hs.2.1 hm hr).1 hends) with
        | answered same link =>
          cases same
          refine .answered rfl ⟨hforth, hforth', ?_⟩
          rw [hinformed.cycles, hinformed.cycles']
          exact link.2.2.settle link.1.2.2 link.2.1.2.2
        | failed => exact .excused trivial
        | excused => exact .excused trivial
        | waived h => exact h.elim

theorem solve_reusing (src : σ) (p : Profile) (hz : z.gathered.cycles = 0) :
    ∀ room path a b, (reusing src p z room path).Tied Eq (solve src p room a b) (solve src p room a b)
  | 0 => visit_reusing (solve_exact src p 0) hz (fun hs' hc => solve_retraces hs' hc 0) fun k hk => by cases hk
  | room + 1 => visit_reusing (solve_exact src p (room + 1)) hz (fun hs' hc => solve_retraces hs' hc (room + 1))
      fun k hk => by
        cases hk
        exact ⟨solve_exact src p room, solve_reusing src p hz room⟩

end UnifyM

/-! ### Unifiers over a table -/

namespace Unifier

variable {t : Table} {p : Profile} {u : Unifier}

theorem Settled.cycles_after (h : Settled t p u) (ht : t.Layered) (history : List Query) :
    (u.after t history).cycles = u.cycles := by
  induction history generalizing u with
  | nil => rfl
  | cons q history ih => exact (ih (h.unify q.1 q.2)).trans (unify_uncut ht h.ready.idle q.1 q.2).1

end Unifier

/-- Over a table that was built, a unifier that was asked any queries before, whatever came of them, answers whatever a
    fresh one with the same limits answers, and needs no more attempts. -/
theorem unify_after (u : Universe) (t : Table) (hbuild : u.build.value = .ok t) (p : Profile) (history : List Query)
    (a b : TypeRef) (answer : Unification) (h : ((Unifier.ofProfile p).unify t a b).result = .ok answer) :
    let used := ((Unifier.ofProfile p).after t history).unify t a b
    used.result = .ok answer ∧
      used.unifier.guard.iterations ≤ ((Unifier.ofProfile p).unify t a b).unifier.guard.iterations := by
  obtain ⟨hpass, rfl⟩ := Universe.build_eq_ok hbuild
  have hfresh := Unifier.Settled.ofProfile u.linked p
  have hused := hfresh.after history
  have hcycles := hfresh.cycles_after hpass.layered history
  rcases Unifier.unify_cases u.linked p a b with ⟨e, herror⟩ | hsearch
  · rw [herror] at h
    cases h
  · obtain ⟨r, z, hz, hr, hu⟩ := hsearch _ hfresh
    obtain ⟨r', z', hz', hr', hu'⟩ := hsearch _ hused
    cases hr.symm.trans h
    have hcalm := UnifyM.solve_calm hpass.layered p.closure p.maxDepth a b (Unifier.start_active hfresh.ready.idle)
    rw [hz] at hcalm
    have hzero : z.gathered.cycles = 0 := hcalm.cycles
    have hinformed : UnifyM.Informed (Unifier.ofProfile p).start
        ((Unifier.ofProfile p).after u.linked history).start := by
      refine ⟨hfresh.trails hused, rfl, hcycles, fun q found hq => ?_⟩
      cases (Unifier.known_ofProfile p q).symm.trans hq
    have ho := UnifyM.solve_reusing u.linked p.closure hzero p.maxDepth [] a b _ _
      ⟨hfresh.starts z, hused.starts z, hinformed⟩
    rw [hz, hz'] at ho
    cases ho (UnifyM.course_ends u.linked p.closure p.maxDepth [] z) with
    | answered same link =>
      cases same
      refine ⟨hr', ?_⟩
      rw [hu, hu']
      exact link.2.2.trails.iterations
    | waived h => exact h.elim

open Universe in
/-- Two attempts are enough to match a box of items with itself, also after queries that needed more. -/
theorem unify_after_boxes :
    let box : TypeRef := ⟨⟨4⟩, [.type ⟨3⟩ []]⟩
    let history : List Query := [(⟨⟨2⟩, []⟩, ⟨⟨3⟩, []⟩), (⟨⟨4⟩, [.type ⟨4⟩ [.type ⟨2⟩ []]]⟩, ⟨⟨4⟩, [box]⟩)]
    ((Unifier.ofProfile (.custom 2 2)).unify boxes.linked box box).result = .ok .matched ∧
      (((Unifier.ofProfile (.custom 2 2)).after boxes.linked history).unify boxes.linked box box).result =
        .ok .matched := by
  intro box history
  have hclass : TypeSource.arity? boxes.linked ⟨3⟩ = some 0 := arity?_linked (mem_entries boxes 1 rfl)
  have hbox : TypeSource.arity? boxes.linked ⟨4⟩ = some 1 := arity?_linked (mem_entries boxes 2 rfl)
  have hcheck : TypeSource.check boxes.linked box = .ok () := by
    simp [box, TypeSource.check, TypeRef.toArg, TypeSource.checkArg_type_iff, hbox, hclass]
  -- The box and the item in it are two references, one inside the other.
  have hsize : min box.references.toFinset.card Profile.ceiling = 2 := by decide
  have hnesting : box.nesting = 2 := by decide
  have hfresh : ((Unifier.ofProfile (.custom 2 2)).unify boxes.linked box box).result = .ok .matched := by
    rcases Unifier.unify_self_cases (.custom 2 2) hcheck with ⟨hok, -⟩ | ⟨-, hlt⟩ | ⟨-, hlt⟩
    · exact hok
    · rw [hsize] at hlt
      exact absurd hlt (Nat.lt_irrefl 2)
    · rw [hnesting] at hlt
      exact absurd hlt (Nat.lt_irrefl 2)
  exact ⟨hfresh, (unify_after boxes boxes.linked build_boxes (.custom 2 2) history box box .matched hfresh).1⟩

end Nominal
