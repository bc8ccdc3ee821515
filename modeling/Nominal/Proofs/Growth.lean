import Nominal.Proofs.Nominality
import Nominal.Proofs.Refutation
import Nominal.Proofs.Registration

/-! A table that grows keeps its matches. Declarations that are added, and interfaces that declarations come to
    implement, change the order in which supertypes are listed and where a search comes back to its own path. But
    whatever was listed above a reference before is listed still, unless it is something undeclared that has become a
    root in the meantime, and that takes part in no match. A negative answer over the larger table therefore refutes the
    match over the smaller one. -/

namespace Nominal

/-- The second declaration is the first one with more interfaces. -/
structure Declaration.Widens (d d' : Declaration) : Prop where
  arity : d'.arity = d.arity
  base? : d'.base? = d.base?
  isRoot : d'.isRoot = d.isRoot
  interfaces : ∀ i ∈ d.interfaces, i ∈ d'.interfaces

theorem Declaration.Widens.refl (d : Declaration) : d.Widens d := ⟨rfl, rfl, rfl, fun _ => id⟩

theorem Declaration.Widens.relations {d d' : Declaration} (h : d.Widens d') {i : TypeRef} (hi : i ∈ d.relations) :
    i ∈ d'.relations := by
  rw [mem_relations] at hi ⊢
  rw [h.base?]
  exact hi.imp_left (h.interfaces i)

namespace Table

variable {t t' t'' : Table} {s : Symbol} {r i b : TypeRef} {p p' : Profile}

/-- What can be added to a table. -/
inductive Addition where
  | declare (kind : Kind) (dotted : String) (params : List String)
  | register (d : Declaration)
  | addInterface (s : Symbol) (i : TypeRef)

def add (t : Table) : Addition → Table
  | .declare kind dotted params => (t.declare kind dotted params).1
  | .register d => (t.register d).1
  | .addInterface s i => t.addInterface s i

def addAll (t : Table) (additions : List Addition) : Table := additions.foldl add t

/-- The second table declares all that the first one does, with more interfaces. -/
def Grows (t t' : Table) : Prop := ∀ s d, t.get? s = some d → ∃ d', t'.get? s = some d' ∧ d.Widens d'

/-! ### Additions -/

theorem Grows.refl (t : Table) : Grows t t := fun _ d hd => ⟨d, hd, .refl d⟩

theorem Grows.trans (h : Grows t t') (h' : Grows t' t'') : Grows t t'' := by
  intro s d hd
  obtain ⟨d', hd', hw⟩ := h s d hd
  obtain ⟨d'', hd'', hw'⟩ := h' s d' hd'
  exact ⟨d'', hd'', hw'.arity.trans hw.arity, hw'.base?.trans hw.base?, hw'.isRoot.trans hw.isRoot,
    fun i hi => hw'.interfaces i (hw.interfaces i hi)⟩

theorem grows_register (t : Table) (d : Declaration) : Grows t (t.register d).1 := by
  intro s d' hd'
  refine ⟨d', ?_, .refl d'⟩
  rw [get?_register, if_neg (ne_nextSymbol (contains_iff.mpr ⟨d', hd'⟩))]
  exact hd'

theorem grows_addInterface (t : Table) (s : Symbol) (i : TypeRef) : Grows t (t.addInterface s i) := by
  intro q d hd
  rw [addInterface, get?_update, hd]
  split
  · exact ⟨_, rfl, rfl, rfl, rfl, fun j hj => List.mem_append_left _ hj⟩
  · exact ⟨d, rfl, .refl d⟩

theorem grows_add (t : Table) (x : Addition) : Grows t (t.add x) := by
  cases x with
  | declare kind dotted params =>
    obtain ⟨names, name, atoms, heq, -⟩ := declare_eq_register t kind dotted params
    rw [add, heq]
    exact grows_register { t with names } _
  | register d => exact grows_register t d
  | addInterface s i => exact grows_addInterface t s i

theorem grows_addAll (t : Table) (additions : List Addition) : Grows t (t.addAll additions) := by
  induction additions generalizing t with
  | nil => exact .refl t
  | cons x additions ih => exact (grows_add t x).trans (ih (t.add x))

/-! ### Supertypes in the larger table -/

namespace Grows

theorem arity? (h : Grows t t') {n : Nat} (hn : TypeSource.arity? t s = some n) : TypeSource.arity? t' s = some n := by
  obtain ⟨d, hd, rfl⟩ := Option.map_eq_some_iff.mp hn
  obtain ⟨d', hd', hw⟩ := h s d hd
  exact Option.map_eq_some_iff.mpr ⟨d', hd', hw.arity⟩

theorem isRoot (h : Grows t t') (hs : t.contains s = true) : TypeSource.isRoot t' s = TypeSource.isRoot t s := by
  obtain ⟨d, hd⟩ := contains_iff.mp hs
  obtain ⟨d', hd', hw⟩ := h s d hd
  simp [TypeSource.isRoot, hd, hd', hw.isRoot]

theorem declares (h : Grows t t') (hi : t.Declares r i) : t'.Declares r i := by
  obtain ⟨d, hd, j, hj, rfl⟩ := hi
  obtain ⟨d', hd', hw⟩ := h _ d hd
  exact ⟨d', hd', j, hw.interfaces j hj, rfl⟩

theorem step (h : Grows t t') (hb : t.Step r b) : t'.Step r b := by
  obtain ⟨d, hd, j, hj, rfl⟩ := hb
  obtain ⟨d', hd', hw⟩ := h _ d hd
  exact ⟨d', hd', j, hw.relations hj, rfl⟩

theorem mem_listing (h : Grows t t') {path : List Symbol} (hi : i ∈ t.listing path r) : i ∈ t'.listing path r := by
  induction path, r using path_induction (t := t) with
  | step path r ih =>
    obtain ⟨hp, hi | ⟨r', hstep, hi⟩⟩ := mem_listing_cases hi
    · exact mem_listing_of_declares hp (h.declares hi)
    · exact mem_listing_of_step hp (h.step hstep) (ih hp r' hstep hi)

theorem mem_flattened (h : Grows t t') (hi : i ∈ t.flattened s) : i ∈ t'.flattened s := by
  unfold flattened at hi ⊢
  cases hd : t.get? s with
  | none =>
    rw [hd] at hi
    cases hi
  | some d =>
    obtain ⟨d', hd', hw⟩ := h s d hd
    simp only [hd, mem_addNew, List.not_mem_nil, false_or] at hi
    simp only [hd', mem_addNew, List.not_mem_nil, false_or, hw.arity]
    exact h.mem_listing hi

/-- A base that is declared stays the base: it does not become the root. -/
theorem below (h : Grows t t') (hb : t.contains b.symbol = true) (hr : BaseChain.Below t r b) :
    BaseChain.Below t' r b := by
  obtain ⟨d, x, hd, hx, hroot, rfl⟩ := BaseChain.below_iff.mp hr
  obtain ⟨d', hd', hw⟩ := h _ d hd
  exact BaseChain.below_iff.mpr ⟨d', x, hd', hw.base?.trans hx, (h.isRoot hb).trans hroot, rfl⟩

theorem above (h : Grows t t') (hb : t.contains b.symbol = true) (hr : Relation.TransGen (BaseChain.Below t) r b) :
    Relation.TransGen (BaseChain.Below t') r b := by
  induction hr with
  | single hr => exact .single (h.below hb hr)
  | tail _ hr ih =>
    -- What has a base is declared, so the chain below goes on too.
    exact (ih hr.extends.contains).tail (h.below hb hr)

theorem mem_supertypesOf (h : Grows t t') {l l' : List TypeRef} (hl : supertypesOf t r p = .ok l)
    (hl' : supertypesOf t' r p' = .ok l') {q : TypeRef} (hq : q ∈ l) (hd : t.contains q.symbol = true) : q ∈ l' := by
  obtain ⟨m, hm, rfl⟩ := (mem_supertypesOf_iff hl).mp hq
  rw [symbol_normalized] at hd
  refine (mem_supertypesOf_iff hl').mpr ⟨m, ?_, rfl⟩
  rcases hm with hm | hm
  · obtain ⟨i, hi, rfl⟩ := List.mem_map.mp hm
    exact Or.inl (List.mem_map_of_mem (h.mem_flattened hi))
  · exact Or.inr (h.above hd hm)

theorem outlists (h : Grows t t') : Outlists t' p' t p fun _ y => t.contains y.symbol = true where
  symbol hl hl' x q hq hd := by
    obtain ⟨n, hn, hdef⟩ := supertypesOf_of_mem_supertypes hl' hq
    simp only [supertypes, TypeSource.definition?, h.arity? hn, Option.map_some] at hl
    exact h.mem_supertypesOf hdef hl hq hd
  ref hl hl' x q hq hd := h.mem_supertypesOf hl' hl hq hd

end Grows

theorem contains_of_arity? {n : Nat} (h : TypeSource.arity? t s = some n) : t.contains s = true := by
  obtain ⟨d, hd, -⟩ := Option.map_eq_some_iff.mp h
  exact contains_iff.mpr ⟨d, hd⟩

end Table

/-! ### Matches between declared types -/

section Declared

variable {t : Table} {p : Profile} {a b : TypeRef}

theorem ArgRelated.of_check {σ : Type} [TypeSource σ] {src : σ} {M : TypeRef → TypeRef → Prop} :
    ∀ {x y : TypeArg}, ArgRelated (fun a b => TypeSource.check src a = .ok () → M a b) x y →
      TypeSource.checkArg src x = .ok () → ArgRelated M x y
  | .param _, .param _, h, _ => h
  | .type _ _, .type _ _, h, hx => h hx

/-- If the type that is asked for is well-formed, a match comes about by rules that each conclude something about a
    declared type. -/
theorem Matches.within_declared (ha : TypeSource.check t a = .ok ()) (h : Matches t p a b) :
    MatchesWithin t p (fun _ y => t.contains y.symbol = true) a b := by
  refine h (fun x y => TypeSource.check t x = .ok () → MatchesWithin t p (fun _ y => t.contains y.symbol = true) x y)
    (fun x y hxy hx => ?_) ha
  obtain ⟨harity, hargs⟩ := TypeSource.checkArg_type_iff.mp hx
  have hdeclared : t.contains x.symbol = true := Table.contains_of_arity? harity
  cases hxy with
  | opened same isOpen => exact .of_rule (same ▸ hdeclared) (.opened same isOpen)
  | arguments same pairs =>
    refine .of_rule (same ▸ hdeclared) (.arguments same (List.forall₂_iff_zip.mpr ⟨pairs.length_eq, fun hmem => ?_⟩))
    exact ((List.forall₂_iff_zip.mp pairs).2 hmem).of_check (hargs _ (List.of_mem_zip hmem).1)
  | definition walk mem premise =>
    obtain ⟨n, hn, -⟩ := supertypesOf_of_mem_supertypes walk mem
    exact .of_rule (Table.contains_of_arity? hn) (.definition walk mem (premise (TypeSource.checkArg_opened harity)))
  | supertype walk mem premise =>
    obtain ⟨_, hstep, -⟩ := Relation.TransGen.head'_iff.mp (reaches_of_mem_supertypesOf walk mem)
    exact .of_rule hstep.contains (.supertype walk mem (premise hx))

end Declared

/-- Whatever is added to a table, a match stays a match, with the same binding, as long as a unifier within the same
    limits still answers. This does not depend on what the two unifiers were asked before. -/
theorem unify_addAll (t : Table) (additions : List Table.Addition) (p : Profile) (history history' : List Query)
    (a b : TypeRef) (answer answer' : Unification)
    (hr : (((Unifier.ofProfile p).after t history).unify t a b).result = .ok answer)
    (hm : answer.isMatch = true)
    (hr' : (((Unifier.ofProfile p).after (t.addAll additions) history').unify (t.addAll additions) a b).result =
      .ok answer') :
    answer'.isMatch = true ∧ answer'.instantiation? = answer.instantiation? := by
  have hold := ((Unifier.Ready.ofProfile t p).after history).correct hr
  have hnew := ((Unifier.Ready.ofProfile (t.addAll additions) p).after history').correct hr'
  refine ⟨?_, hnew.binding.trans hold.binding.symm⟩
  have hab := (hold.isMatch.mp hm).within_declared (Unifier.check_of_unify_ok hr).1
  by_contra hno
  exact Unifier.not_matchesWithin_of_unify (t.grows_addAll additions).outlists hr' (Bool.eq_false_iff.mpr hno) hab

/-- An interface, a class that implements it, and an interface on its own. -/
def shapes : Table where
  names := .common
  declarations := #[
    { kind := .interface, name := ⟨⟨0⟩, ⟨1⟩⟩, params := [] },
    { kind := .cls, name := ⟨⟨0⟩, ⟨2⟩⟩, params := [], interfaces := [⟨⟨1⟩, []⟩] },
    { kind := .interface, name := ⟨⟨0⟩, ⟨3⟩⟩, params := [] }]

section FirstSupertype

open UnifyM

variable {σ : Type} [TypeSource σ] {src : σ} {p : Profile} {recur : TypeRef → TypeRef → UnifyM Unification}
  {a b d q : TypeRef}
  {c : Symbol} {l : List TypeRef} {s t : Search Query Findings}

theorem UnifyM.climbSymbol_of_ok (hd : TypeSource.definition? src c = some d) (hl : supertypesOf src d p = .ok l)
    (s : Search Query Findings) :
    ∃ t, climbSymbol src p c s = (.ok l, t) ∧ t.guard = s.guard ∧ known t = known s := by
  rw [climbSymbol, hd]
  exact ⟨_, congrArg (·, _) hl, rfl, rfl⟩

theorem UnifyM.visit_of_same (hm : known s (a, a) = none)
    (hi : Guard.countUp s.guard.iterations ≤ s.guard.maxIterations)
    (hd : s.guard.depth < s.guard.maxDepth) (ha : (a, a) ∉ s.guard.active) (hopen : a.IsOpen) :
    (visit src p recur a a s).1 = .ok .matched := by
  rw [visit_of_entered hm hi hd ha, tryRules, if_pos ⟨rfl, hopen⟩, if_pos hopen]
  rfl

theorem UnifyM.tryRules_of_first (hne : a.symbol ≠ b.symbol) (hclimb : climbSymbol src p b.symbol s = (.ok (q :: l), t))
    (hq : (recur a.definition q t).1 = .ok .matched) : ∃ u, tryRules src p recur a b s = (.ok .matched, u) := by
  rcases hrun : recur a.definition q t with ⟨r, u⟩
  rw [hrun] at hq
  cases hq
  have hfirst : firstMatch? recur a.definition (q :: l) t = (.ok (some q), u) := Attempt.bind_of_ok hrun
  rw [tryRules, if_neg fun h => hne h.1, if_neg fun h => hne h.1, throughSupertypes, Attempt.bind_of_ok hclimb,
    Attempt.bind_of_ok hfirst]
  exact ⟨_, rfl⟩

/-- With two levels and two attempts, a type without arguments that comes first among the supertypes is found. -/
theorem unify_of_first_supertype (hdepth : 2 ≤ p.maxDepth) (hattempts : 2 ≤ p.maxIterations)
    (ha : TypeSource.check src ⟨c, []⟩ = .ok ()) (hb : TypeSource.check src b = .ok ()) (hne : c ≠ b.symbol)
    (hd : TypeSource.definition? src b.symbol = some d) (hfirst : supertypesOf src d p.closure = .ok (⟨c, []⟩ :: l)) :
    ((Unifier.ofProfile p).unify src ⟨c, []⟩ b).result = .ok .matched := by
  obtain ⟨k, hk⟩ : ∃ k, p.maxDepth = k + 2 := ⟨p.maxDepth - 2, by omega⟩
  let s := (Unifier.ofProfile p).start
  have hknown : ∀ q, known s q = none := Unifier.known_ofProfile p
  obtain ⟨t, hclimb, hguard, hmemo⟩ := climbSymbol_of_ok hd hfirst { s with guard := s.guard.entered (⟨c, []⟩, b) }
  -- One level below, the type is asked about itself.
  have hbelow : (solve src p.closure (k + 1) ⟨c, []⟩ ⟨c, []⟩ t).1 = .ok .matched := by
    refine visit_of_same (hmemo ▸ hknown _) ?_ ?_ ?_ rfl <;> rw [hguard]
    · exact hattempts
    · exact hdepth
    · intro hmem
      exact hne (congrArg TypeRef.symbol (Prod.mk.inj (List.mem_singleton.mp hmem)).2)
  obtain ⟨u, hrules⟩ : ∃ u, tryRules src p.closure (solve src p.closure (k + 1)) ⟨c, []⟩ b
      { s with guard := s.guard.entered (⟨c, []⟩, b) } = (.ok .matched, u) := tryRules_of_first hne hclimb hbelow
  have hvisit : visit src p.closure (solve src p.closure (k + 1)) ⟨c, []⟩ b s = _ :=
    visit_of_entered (hknown _) (Nat.le_of_succ_le hattempts) (Nat.lt_of_succ_lt hdepth) List.not_mem_nil
  have hsearch : (Unifier.ofProfile p).search src ⟨c, []⟩ b =
      visit src p.closure (solve src p.closure (k + 1)) ⟨c, []⟩ b s :=
    congrFun (congrArg (fun room => solve src p.closure room ⟨c, []⟩ b) hk) s
  unfold Unifier.unify
  simp only [ha, hb, hsearch, hvisit, hrules]
  rfl

end FirstSupertype

/-- The two interfaces come to implement each other, so that the way from the class runs into a cycle; the class is
    still found to implement the first one. -/
theorem unify_addAll_shapes :
    let additions : List Table.Addition := [.addInterface ⟨1⟩ ⟨⟨3⟩, []⟩, .addInterface ⟨3⟩ ⟨⟨1⟩, []⟩]
    ((Unifier.ofProfile (.custom 4 10)).unify shapes ⟨⟨1⟩, []⟩ ⟨⟨2⟩, []⟩).result = .ok .matched ∧
      supertypesOf (shapes.addAll additions) ⟨⟨1⟩, []⟩ (.custom 4 10) = .ok [⟨⟨3⟩, []⟩, ⟨⟨1⟩, []⟩] ∧
      ∃ answer,
        ((Unifier.ofProfile (.custom 4 10)).unify (shapes.addAll additions) ⟨⟨1⟩, []⟩ ⟨⟨2⟩, []⟩).result = .ok answer ∧
        answer.isMatch = true ∧ answer.instantiation? = none := by
  intro additions
  have hold : ((Unifier.ofProfile (.custom 4 10)).unify shapes ⟨⟨1⟩, []⟩ ⟨⟨2⟩, []⟩).result = .ok .matched :=
    unify_of_first_supertype (l := []) (by decide) (by decide) rfl rfl (by decide) rfl (by decide +kernel)
  have hnew :
      ((Unifier.ofProfile (.custom 4 10)).unify (shapes.addAll additions) ⟨⟨1⟩, []⟩ ⟨⟨2⟩, []⟩).result = .ok .matched :=
    unify_of_first_supertype (l := [⟨⟨3⟩, []⟩]) (by decide) (by decide) rfl rfl (by decide) rfl (by decide +kernel)
  exact ⟨hold, by decide +kernel, _, hnew, unify_addAll shapes additions _ [] [] _ _ _ _ hold rfl hnew⟩

end Nominal
