import Mathlib.Data.List.Forall2
import Nominal.Unifier

/-! When one reference can be used where another one is asked for: the least relation that the rules of unification are
    closed under (`Matches`). The relation is reached in stages (`MatchesIn`), and a match that is reached at some stage
    is reached first along a path that no query stands on twice. A search that cuts cycles on its path therefore misses
    nothing (`Barred.of_rules`). -/

namespace Nominal

variable {σ : Type} [TypeSource σ] {src : σ} {p : Profile}

/-- Two arguments are the same parameter, or references that are related by `R`. -/
def ArgRelated (R : TypeRef → TypeRef → Prop) : TypeArg → TypeArg → Prop
  | .param x, .param y => x = y
  | .type s as, .type t bs => R ⟨s, as⟩ ⟨t, bs⟩
  | _, _ => False

/-- A rule allows `b` where `a` is asked for, given what `R` allows: `b` is the open definition of `a`'s symbol; or both
    have one symbol and as many arguments, related in pairs; or the open definition of `a` allows a supertype of the
    declaration of `b`; or `a` allows a supertype of `b`. -/
inductive ByRule (src : σ) (p : Profile) (R : TypeRef → TypeRef → Prop) (a b : TypeRef) : Prop where
  | opened (same : a.symbol = b.symbol) (isOpen : b.IsOpen)
  | arguments (same : a.symbol = b.symbol) (pairs : List.Forall₂ (ArgRelated R) a.args b.args)
  | definition {above : List TypeRef} {s : TypeRef} (walk : supertypes src b.symbol p = .ok above) (mem : s ∈ above)
      (premise : R a.definition s)
  | supertype {above : List TypeRef} {s : TypeRef} (walk : supertypesOf src b p = .ok above) (mem : s ∈ above)
      (premise : R a s)

/-- `b` can be used where `a` is asked for: every relation that is closed under the rules allows it. -/
def Matches (src : σ) (p : Profile) (a b : TypeRef) : Prop :=
  ∀ R : TypeRef → TypeRef → Prop, (∀ x y, ByRule src p R x y → R x y) → R a b

theorem ArgRelated.mono {R R' : TypeRef → TypeRef → Prop} (h : ∀ x y, R x y → R' x y) :
    ∀ {x y : TypeArg}, ArgRelated R x y → ArgRelated R' x y
  | .param _, .param _, hxy => hxy
  | .type _ _, .type _ _, hxy => h _ _ hxy

theorem ByRule.mono {R R' : TypeRef → TypeRef → Prop} (h : ∀ x y, R x y → R' x y) {a b : TypeRef}
    (hab : ByRule src p R a b) : ByRule src p R' a b := by
  cases hab with
  | opened same isOpen => exact .opened same isOpen
  | arguments same pairs => exact .arguments same (pairs.imp fun _ _ => ArgRelated.mono h)
  | definition walk mem premise => exact .definition walk mem (h _ _ premise)
  | supertype walk mem premise => exact .supertype walk mem (h _ _ premise)

/-- The relation is closed under the rules itself. -/
theorem Matches.of_rule {a b : TypeRef} (h : ByRule src p (Matches src p) a b) : Matches src p a b :=
  fun R hR => hR a b (h.mono fun _ _ hxy => hxy R hR)

/-- Every match has a last rule. -/
theorem Matches.inv {a b : TypeRef} (h : Matches src p a b) : ByRule src p (Matches src p) a b :=
  h (ByRule src p (Matches src p)) fun _ _ hxy => hxy.mono fun _ _ => .of_rule

/-! ### Stages -/

/-- `b` can be used where `a` is asked for by rules that are nested fewer than `n` deep. -/
def MatchesIn (src : σ) (p : Profile) : Nat → TypeRef → TypeRef → Prop
  | 0 => fun _ _ => False
  | n + 1 => ByRule src p (MatchesIn src p n)

theorem MatchesIn.succ {n : Nat} : ∀ {a b : TypeRef}, MatchesIn src p n a b → MatchesIn src p (n + 1) a b := by
  induction n with
  | zero => exact fun h => h.elim
  | succ n ih => exact ByRule.mono fun _ _ => ih

theorem MatchesIn.mono {m n : Nat} (h : m ≤ n) {a b : TypeRef} (hab : MatchesIn src p m a b) :
    MatchesIn src p n a b := by
  induction h with
  | refl => exact hab
  | step _ ih => exact ih.succ

/-- Pairs of arguments that are each related at some stage are all related at the latest of these stages. -/
theorem exists_stage_of_args {as bs : List TypeArg}
    (h : List.Forall₂ (ArgRelated fun x y => ∃ n, MatchesIn src p n x y) as bs) :
    ∃ n, List.Forall₂ (ArgRelated (MatchesIn src p n)) as bs := by
  induction h with
  | nil => exact ⟨0, .nil⟩
  | @cons x y xs ys hxy _ ih =>
    obtain ⟨n, hn⟩ := ih
    have head : ∃ m, ArgRelated (MatchesIn src p m) x y := by
      match x, y, hxy with
      | .param _, .param _, hxy => exact ⟨0, hxy⟩
      | .type _ _, .type _ _, ⟨m, hm⟩ => exact ⟨m, hm⟩
    obtain ⟨m, hm⟩ := head
    refine ⟨max m n, .cons (hm.mono fun _ _ => .mono (Nat.le_max_left m n)) (hn.imp fun _ _ h => ?_)⟩
    exact h.mono fun _ _ => .mono (Nat.le_max_right m n)

theorem matches_iff_exists_stage {a b : TypeRef} : Matches src p a b ↔ ∃ n, MatchesIn src p n a b := by
  constructor
  · intro h
    refine h (fun x y => ∃ n, MatchesIn src p n x y) fun x y hxy => ?_
    cases hxy with
    | opened same isOpen => exact ⟨1, .opened same isOpen⟩
    | arguments same pairs =>
      obtain ⟨n, hn⟩ := exists_stage_of_args pairs
      exact ⟨n + 1, .arguments same hn⟩
    | definition walk mem premise =>
      obtain ⟨n, hn⟩ := premise
      exact ⟨n + 1, .definition walk mem hn⟩
    | supertype walk mem premise =>
      obtain ⟨n, hn⟩ := premise
      exact ⟨n + 1, .supertype walk mem hn⟩
  · rintro ⟨n, hn⟩
    induction n generalizing a b with
    | zero => exact hn.elim
    | succ n ih => exact .of_rule (ByRule.mono (fun _ _ => ih) hn)

/-! ### Paths -/

/-- Before `P` holds at a stage, one of the queries on the path has been met. -/
def Barred (src : σ) (p : Profile) (path : List Query) (P : Nat → Prop) : Prop :=
  ∀ n, P n → ∃ q ∈ path, ∃ m ≤ n, MatchesIn src p m q.1 q.2

namespace Barred

variable {path : List Query}

theorem of_mem {a b : TypeRef} (h : (a, b) ∈ path) : Barred src p path fun n => MatchesIn src p n a b :=
  fun n hn => ⟨(a, b), h, n, Nat.le_refl n, hn⟩

theorem of_not_matches {a b : TypeRef} (h : ¬Matches src p a b) : Barred src p path fun n => MatchesIn src p n a b :=
  fun n hn => absurd (matches_iff_exists_stage.mpr ⟨n, hn⟩) h

theorem not_matches {a b : TypeRef} (h : Barred src p [] fun n => MatchesIn src p n a b) : ¬Matches src p a b := by
  intro hab
  obtain ⟨n, hn⟩ := matches_iff_exists_stage.mp hab
  obtain ⟨q, hq, -⟩ := h n hn
  cases hq

/-- If no rule matches `a` and `b` before a query of the path or `a` and `b` themselves are met, then `a` and `b` are
    not met before a query of the path: of all the stages at which they might be met, look at the earliest. -/
theorem of_rules {a b : TypeRef}
    (h : Barred src p ((a, b) :: path) fun n => ByRule src p (MatchesIn src p n) a b) :
    Barred src p path fun n => MatchesIn src p n a b := by
  intro n
  induction n using Nat.strongRecOn with
  | ind n ih =>
    intro hn
    cases n with
    | zero => exact hn.elim
    | succ k =>
      obtain ⟨q, hq, m, hm, hqm⟩ := h k hn
      rcases List.mem_cons.mp hq with rfl | hq
      · obtain ⟨q, hq, l, hl, hql⟩ := ih m (by omega) hqm
        exact ⟨q, hq, l, by omega, hql⟩
      · exact ⟨q, hq, m, by omega, hqm⟩

/-- With nothing on the path, a match by a rule is out of the question at every stage. -/
theorem of_rules_nil {a b : TypeRef} (h : Barred src p [] fun n => ByRule src p (MatchesIn src p n) a b) :
    Barred src p [] fun n => MatchesIn src p n a b := fun n hn => by
  cases n with
  | zero => exact hn.elim
  | succ k =>
    obtain ⟨q, hq, -⟩ := h k hn
    cases hq

end Barred

end Nominal
