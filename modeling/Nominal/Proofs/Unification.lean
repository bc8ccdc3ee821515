import Nominal.Proofs.Matching
import Nominal.Proofs.Search

/-! A unifier answers by the rules, whatever it was asked before. Each answer that it remembers is right for every path,
    since a negative answer is remembered only if no cycle was cut on the way to it. -/

namespace Nominal

namespace UnifyM

variable {σ : Type} [TypeSource σ] {src : σ} {p : Profile} {recur : TypeRef → TypeRef → UnifyM Unification}

/-! ### What a search keeps -/

/-- A relation between states that composes and does not depend on the events. -/
structure Steady (R : Search Query Findings → Search Query Findings → Prop) : Prop where
  refl : ∀ s, R s s
  trans : ∀ {s t u}, R s t → R t u → R s u
  telling : ∀ s events, R s { s with gathered := { s.gathered with events } }

/-- The last rule by itself: through the supertypes of the reference on hand. -/
def throughReference (src : σ) (p : Profile) (recur : TypeRef → TypeRef → UnifyM Unification) (a b : TypeRef) :
    UnifyM Unification := do
  let via ← firstMatch? recur a (← climb (.ofRef src p b))
  via.elim (pure .noMatch) fun via => conclude (.supertype via) a b .matched

theorem throughSupertypes_unfold (a b : TypeRef) :
    throughSupertypes src p recur a b = (do
      let via ← firstMatch? recur a.definition (← climbSymbol src p b.symbol)
      via.elim (throughReference src p recur a b) fun via => conclude (.openSupertype via) a b .matched) := by
  unfold throughSupertypes throughReference
  congr 1
  funext above
  congr 1
  funext via
  cases via with
  | some via => rfl
  | none =>
    show _ >>= _ = _ >>= _
    congr 1
    funext above
    congr 1
    funext via
    cases via <;> rfl

section Traversal

variable {R : Search Query Findings → Search Query Findings → Prop} (hR : Steady R)

include hR

theorem conclude_keeps (rule : Rule) (a b : TypeRef) (answer : Unification) :
    Attempt.Keeps R (conclude rule a b answer) :=
  .bind hR.trans (fun s => hR.telling s _) fun _ => .pure hR.refl answer

theorem climb_keeps (above : Ancestry) : Attempt.Keeps R (climb above) :=
  .bind hR.trans (fun s => hR.telling s _) fun _ => .ofExcept hR.refl _

theorem climbSymbol_keeps (src : σ) (p : Profile) (s : Symbol) : Attempt.Keeps R (climbSymbol src p s) := by
  unfold climbSymbol
  split
  · exact .pure hR.refl []
  · exact climb_keeps hR _

variable (hrec : ∀ a b, Attempt.Keeps R (recur a b))

include hrec

theorem argMatches_keeps : ∀ x y : TypeArg, Attempt.Keeps R (argMatches recur x y)
  | .param _, .param _ => .pure hR.refl _
  | .type s as, .type t bs => .bind hR.trans (hrec ⟨s, as⟩ ⟨t, bs⟩) fun _ => .pure hR.refl _
  | .param _, .type _ _ => .pure hR.refl _
  | .type _ _, .param _ => .pure hR.refl _

theorem argsMatch_keeps : ∀ as bs : List TypeArg, Attempt.Keeps R (argsMatch recur as bs)
  | x :: as, y :: bs => .bind hR.trans (argMatches_keeps hR hrec x y) fun
    | true => argsMatch_keeps as bs
    | false => .pure hR.refl false
  | [], _ => .pure hR.refl true
  | _ :: _, [] => .pure hR.refl true

theorem firstMatch?_keeps (a : TypeRef) : ∀ bs : List TypeRef, Attempt.Keeps R (firstMatch? recur a bs)
  | [] => .pure hR.refl none
  | b :: bs => .bind hR.trans (hrec a b) fun answer => by
    split
    · exact .pure hR.refl _
    · exact firstMatch?_keeps a bs

theorem throughReference_keeps (a b : TypeRef) : Attempt.Keeps R (throughReference src p recur a b) := by
  refine .bind hR.trans (climb_keeps hR _) fun above => ?_
  refine .bind hR.trans (firstMatch?_keeps hR hrec a above) fun via => ?_
  cases via with
  | some via => exact conclude_keeps hR _ a b _
  | none => exact .pure hR.refl _

theorem throughSupertypes_keeps (a b : TypeRef) : Attempt.Keeps R (throughSupertypes src p recur a b) := by
  rw [throughSupertypes_unfold]
  refine .bind hR.trans (climbSymbol_keeps hR src p b.symbol) fun above => ?_
  refine .bind hR.trans (firstMatch?_keeps hR hrec a.definition above) fun via => ?_
  cases via with
  | some via => exact conclude_keeps hR _ a b _
  | none => exact throughReference_keeps hR hrec a b

theorem tryRules_keeps (a b : TypeRef) : Attempt.Keeps R (tryRules src p recur a b) := by
  unfold tryRules
  split
  · split
    · exact conclude_keeps hR _ a b _
    · exact conclude_keeps hR _ a b _
  · split
    · refine .bind hR.trans (argsMatch_keeps hR hrec a.args b.args) fun
        | true => conclude_keeps hR _ a b _
        | false => throughSupertypes_keeps hR hrec a b
    · exact throughSupertypes_keeps hR hrec a b

end Traversal

/-- A search leaves the guard as it was, and never forgets a cycle that was cut. -/
abbrev Kept : Search Query Findings → Search Query Findings → Prop :=
  SearchM.Across fun f f' => f.cycles ≤ f'.cycles

theorem kept_steady : Steady Kept where
  refl s := ⟨.refl s.guard, Nat.le_refl _⟩
  trans h h' := ⟨h.guard.trans h'.guard, Nat.le_trans h.gathered h'.gathered⟩
  telling s _ := ⟨.refl s.guard, Nat.le_refl _⟩

theorem cut_kept (a b : TypeRef) : Attempt.Keeps Kept (cut a b) := fun s => ⟨.refl s.guard, Nat.le_succ _⟩

theorem visit_kept (hrec : ∀ a b, Attempt.Keeps Kept (recur a b)) (a b : TypeRef) :
    Attempt.Keeps Kept (visit src p recur a b) := by
  refine .bind kept_steady.trans kept_steady.refl fun known => ?_
  cases known with
  | some known => exact .pure kept_steady.refl known
  | none =>
    refine .bind kept_steady.trans kept_steady.refl fun before => ?_
    have hrules : Attempt.Keeps Kept (tryRules src p recur a b) := tryRules_keeps kept_steady hrec a b
    refine .bind kept_steady.trans
      (SearchM.within_across (fun _ => Nat.le_refl _) (cut_kept a b) hrules) fun answer => ?_
    refine .bind kept_steady.trans (fun s => ⟨.refl s.guard, ?_⟩) fun _ => .pure kept_steady.refl answer
    show s.gathered.cycles ≤ (if _ then _ else _ : Findings).cycles
    split <;> exact Nat.le_refl _

theorem solve_kept (src : σ) (p : Profile) : ∀ (room : Nat) (a b : TypeRef), Attempt.Keeps Kept (solve src p room a b)
  | 0, a, b => visit_kept (fun _ _ => .pure kept_steady.refl _) a b
  | room + 1, a, b => visit_kept (solve_kept src p room) a b

/-! ### One query -/

section Visit

variable {a b : TypeRef} {s t : Search Query Findings}

/-- The state after an answer was found, with `before` cycles cut until the question came up. -/
def remember (before : Nat) (a b : TypeRef) (answer : Unification) (s : Search Query Findings) :
    Search Query Findings :=
  { s with gathered :=
      if answer.isMatch ∨ s.gathered.cycles = before then
        { s.gathered with memo := s.gathered.memo.insert (a, b) answer }
      else s.gathered }

theorem visit_of_known {known : Unification} (h : s.gathered.memo[(a, b)]? = some known) :
    visit src p recur a b s = (.ok known, s) := by
  rw [visit, SearchM.view_bind, h]
  rfl

theorem visit_of_error {e : Failure} (h : s.gathered.memo[(a, b)]? = none)
    (hw : SearchM.within (a, b) (cut a b) (tryRules src p recur a b) s = (.error e, t)) :
    visit src p recur a b s = (.error e, t) := by
  simp only [visit, SearchM.view_bind, h]
  exact Attempt.bind_of_error hw

theorem visit_of_ok {answer : Unification} (h : s.gathered.memo[(a, b)]? = none)
    (hw : SearchM.within (a, b) (cut a b) (tryRules src p recur a b) s = (.ok answer, t)) :
    visit src p recur a b s = (.ok answer, remember s.gathered.cycles a b answer t) := by
  simp only [visit, SearchM.view_bind, h]
  exact Attempt.bind_of_ok hw

theorem remember_cycles (before : Nat) (a b : TypeRef) (answer : Unification) (s : Search Query Findings) :
    (remember before a b answer s).gathered.cycles = s.gathered.cycles := by
  unfold remember
  split <;> rfl

end Visit

end UnifyM

end Nominal
