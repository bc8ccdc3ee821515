import Nominal.Proofs.Answers
import Nominal.Proofs.Lockstep
import Nominal.Table.Flatten

/-! The names of symbols do not matter. If one source says of renamed symbols what another says of the symbols, then
    whatever is asked of the one has the renamed answer of the other: whether a reference is well-formed, what its
    supertypes are, and whether it can be used where another one is asked for. Tables are such sources if their
    declarations correspond. -/

namespace Nominal

/-- The guard over renamed keys. -/
def Guard.map {κ κ' : Type} (k : κ → κ') (g : Guard κ) : Guard κ' := { g with active := g.active.map k }

namespace Guard

variable {κ κ' : Type} [DecidableEq κ] [DecidableEq κ'] {k : κ → κ'} {g : Guard κ} {q : κ}

theorem isActive_map (hk : k.Injective) : (g.map k).isActive (k q) = g.isActive q := by
  rw [Bool.eq_iff_iff, isActive_iff, isActive_iff]
  exact List.mem_map_of_injective hk

theorem enter_map (hk : k.Injective) : (g.map k).enter (k q) = ((g.enter q).1.map k, (g.enter q).2) := by
  unfold enter
  rw [isActive_map hk]
  by_cases hi : countUp g.iterations > g.maxIterations
  · simp [map, hi]
  · by_cases hd : g.depth ≥ g.maxDepth
    · simp [map, hi, hd]
    · cases g.isActive q <;> simp [map, hi, hd]

theorem release_map (hk : k.Injective) : (g.map k).release (k q) = (g.release q).map k := by
  unfold release leave
  rw [isActive_map hk]
  cases g.isActive q with
  | false => rfl
  | true => simp [map, List.map_erase hk]

end Guard

section Sources

variable {σ σ' : Type} [TypeSource σ] [TypeSource σ'] {src : σ} {src' : σ'} {f : Symbol → Symbol} {p : Profile}

/-- The second source says of renamed symbols what the first one says of the symbols. -/
structure TypeSource.Mirrors (f : Symbol → Symbol) (src : σ) (src' : σ') : Prop where
  injective : f.Injective
  arity? : ∀ s, arity? src' (f s) = arity? src s
  interfacesWithin : ∀ s p, interfacesWithin src' (f s) p =
    renamed f (List.map (TypeRef.rename f)) (interfacesWithin src s p)
  base? : ∀ s, base? src' (f s) = (base? src s).map (TypeRef.rename f)
  isRoot : ∀ s, isRoot src' (f s) = isRoot src s

namespace TypeSource.Mirrors

variable (h : Mirrors f src src')

include h

theorem checkArg (a : TypeArg) : checkArg src' (a.rename f) = renamed f id (checkArg src a) := by
  induction a using TypeArg.args_induction with
  | param p =>
    rw [TypeArg.rename, TypeSource.checkArg, TypeSource.checkArg, Param.rename, h.arity?]
    cases TypeSource.arity? src p.owner with
    | none => rfl
    | some n =>
      dsimp only
      split <;> rfl
  | type s as ih =>
    have hargs : checkArgs src' (TypeArg.renameAll f as) = renamed f id (checkArgs src as) := by
      induction as with
      | nil => rfl
      | cons a as ih' =>
        rw [TypeArg.renameAll, checkArgs, checkArgs, ih a List.mem_cons_self,
          ih' fun c hc => ih c (List.mem_cons_of_mem a hc)]
        cases TypeSource.checkArg src a <;> rfl
    rw [TypeArg.rename, TypeSource.checkArg, TypeSource.checkArg, h.arity?, hargs, TypeArg.length_renameAll]
    cases TypeSource.arity? src s with
    | none => rfl
    | some n =>
      dsimp only
      split <;> rfl

theorem check (r : TypeRef) : check src' (r.rename f) = renamed f id (check src r) := h.checkArg r.toArg

theorem definition? (s : Symbol) : definition? src' (f s) = (definition? src s).map (TypeRef.rename f) := by
  unfold TypeSource.definition?
  rw [h.arity?, Option.map_map]
  congr 1
  funext n
  exact (TypeRef.rename_opened s n).symm

/-! ### Supertypes -/

theorem next? (r : TypeRef) : BaseChain.next? src' (r.rename f) = (BaseChain.next? src r).map (TypeRef.rename f) := by
  have hbase : TypeSource.base? src' (r.rename f).symbol = (TypeSource.base? src r.symbol).map (TypeRef.rename f) :=
    h.base? r.symbol
  unfold BaseChain.next?
  rw [hbase]
  cases TypeSource.base? src r.symbol with
  | none => rfl
  | some x =>
    have hroot : TypeSource.isRoot src' (x.rename f).symbol = TypeSource.isRoot src x.symbol := h.isRoot x.symbol
    simp only [Option.map_some, hroot]
    split
    · rfl
    · rw [Option.map_some, TypeRef.rename_instantiate h.injective]

theorem climb (limit room : Nat) (passed : List Symbol) (r : TypeRef) :
    BaseChain.climb src' limit room (passed.map f) (r.rename f) =
      ⟨(BaseChain.climb src limit room passed r).ancestors.map (TypeRef.rename f),
        (BaseChain.climb src limit room passed r).failure?.map (Failure.rename f)⟩ := by
  have hpassed (base : TypeRef) (passed : List Symbol) :
      (passed.map f).any (· = (base.rename f).symbol) = passed.any (· = base.symbol) := by
    simp [TypeRef.rename, Function.comp_def, h.injective.eq_iff]
  induction room generalizing passed r with
  | zero =>
    unfold BaseChain.climb
    rw [h.next?]
    cases BaseChain.next? src r with
    | none => rfl
    | some base =>
      simp only [Option.map_some, hpassed]
      split <;> rfl
  | succ room ih =>
    unfold BaseChain.climb
    rw [h.next?]
    cases BaseChain.next? src r with
    | none => rfl
    | some base =>
      have hrest := ih (base.symbol :: passed) base
      rw [List.map_cons] at hrest
      simp only [Option.map_some, hpassed]
      split
      · rfl
      · rw [show (base.rename f).symbol = f base.symbol from rfl, hrest]
        rfl

theorem above (limit : Nat) (r : TypeRef) :
    BaseChain.above src' limit (r.rename f) =
      ⟨(BaseChain.above src limit r).ancestors.map (TypeRef.rename f),
        (BaseChain.above src limit r).failure?.map (Failure.rename f)⟩ := h.climb limit (limit - 1) [r.symbol] r

theorem supertypesOf (r : TypeRef) (p : Profile) :
    supertypesOf src' (r.rename f) p = renamed f (List.map (TypeRef.rename f)) (supertypesOf src r p) := by
  have hwithin : TypeSource.interfacesWithin src' (r.rename f).symbol p =
      renamed f (List.map (TypeRef.rename f)) (TypeSource.interfacesWithin src r.symbol p) :=
    h.interfacesWithin r.symbol p
  unfold Nominal.supertypesOf Ancestry.supertypes Ancestry.ofRef
  simp only [hwithin, h.above]
  cases TypeSource.interfacesWithin src r.symbol p with
  | error e => rfl
  | ok found =>
    cases (BaseChain.above src p.maxDepth r).failure? with
    | some e => rfl
    | none =>
      simp [renamed, Except.map, TypeRef.rename_normalized, TypeRef.rename_instantiate h.injective, Function.comp_def]

end TypeSource.Mirrors

/-! ### Unification -/

namespace UnifyM

/-- The query with every symbol renamed. -/
def renameQuery (f : Symbol → Symbol) (q : Query) : Query := (q.1.rename f, q.2.rename f)

theorem renameQuery_injective (hf : f.Injective) : (renameQuery f).Injective := by
  intro q q' h
  obtain ⟨hfst, hsnd⟩ := Prod.mk.inj h
  exact Prod.ext (TypeRef.rename_injective hf hfst) (TypeRef.rename_injective hf hsnd)

/-- The state on the right is the one on the left under other symbols. -/
structure Mirrors (f : Symbol → Symbol) (s s' : Search Query Findings) : Prop where
  guard : s'.guard = s.guard.map (renameQuery f)
  cycles : s'.gathered.cycles = s.gathered.cycles
  known : ∀ q, known s' (renameQuery f q) = (known s q).map (Unification.rename f)

/-- Searches that go on as if nothing but the symbols were different. -/
def mirroring (f : Symbol → Symbol) : Pairing where
  toStretch := .free
  Link := Mirrors f
  Alike e e' := e' = e.rename f
  Excused _ _ := False
  Waived _ _ := False
  starts _ := trivial
  telling _ _ h := ⟨h.guard, h.cycles, h.known⟩

variable {recur recur' : TypeRef → TypeRef → UnifyM Unification} {a b : TypeRef} {s s' : Search Query Findings}

theorem Mirrors.trails (h : Mirrors f s s') : s.guard.Trails s'.guard := by
  rw [h.guard]
  exact ⟨rfl, rfl, rfl, Nat.le_refl _⟩

theorem Mirrors.remember (hf : f.Injective) (h : Mirrors f s s') (before : Nat) (a b : TypeRef) (answer : Unification) :
    Mirrors f (remember before a b answer s)
      (UnifyM.remember before (a.rename f) (b.rename f) (answer.rename f) s') := by
  refine ⟨h.guard, ?_, fun q => ?_⟩
  · rw [remember_cycles, remember_cycles]
    exact h.cycles
  · have hq : renameQuery f q = (a.rename f, b.rename f) ↔ q = (a, b) := (renameQuery_injective hf).eq_iff (b := (a, b))
    rw [known_remember, known_remember, Unification.isMatch_rename, h.cycles, h.known]
    simp only [hq]
    split <;> rfl

theorem climb_mirroring {above above' : Ancestry}
    (h : above'.supertypes = renamed f (List.map (TypeRef.rename f)) above.supertypes) :
    (mirroring f).Tied (fun l l' => above.supertypes = .ok l ∧ l' = l.map (TypeRef.rename f))
      (climb above) (climb above') := by
  refine .tellAll_bind ?_ (.ofExcept (mirroring f).steady.refl _)
  rw [h]
  cases above.supertypes with
  | error e => exact .fail rfl
  | ok l => exact .pure ⟨rfl, rfl⟩

theorem climbs_mirroring (h : TypeSource.Mirrors f src src') (p : Profile) (b : TypeRef) :
    Climbs (mirroring f) f src src' p p b where
  symbol := by
    simp only [climbSymbol, supertypes, h.definition?]
    cases hd : TypeSource.definition? src b.symbol with
    | none => exact .pure ⟨rfl, rfl⟩
    | some d => exact climb_mirroring (h.supertypesOf d p)
  ref := climb_mirroring (h.supertypesOf b p)

theorem settle_mirroring (hf : f.Injective) {o o' : Except Failure Unification × Search Query Findings}
    (h : (mirroring f).Outcome (Renamed f) o o') (before : Nat) (a b : TypeRef) :
    (mirroring f).Outcome (Renamed f) (settle before a b o) (settle before (a.rename f) (b.rename f) o') := by
  have hreleased {t t' : Search Query Findings} (ht : Mirrors f t t') :
      Mirrors f { t with guard := t.guard.release (a, b) }
        { t' with guard := t'.guard.release (a.rename f, b.rename f) } := by
    refine ⟨?_, ht.cycles, ht.known⟩
    rw [ht.guard]
    exact Guard.release_map (renameQuery_injective hf) (q := (a, b))
  cases h with
  | answered related link =>
    cases related
    exact .answered rfl ((hreleased link).remember hf before a b _)
  | failed alike link => exact .failed alike (hreleased link)
  | excused h => exact h.elim
  | waived h => exact h.elim

theorem visit_mirroring (h : TypeSource.Mirrors f src src')
    (hrec : ∀ x y, (mirroring f).Tied (Renamed f) (recur x y) (recur' (x.rename f) (y.rename f))) (a b : TypeRef) :
    (mirroring f).Tied (Renamed f) (visit src p recur a b) (visit src' p recur' (a.rename f) (b.rename f)) := by
  intro s s' hl _
  have hknown : known s' (a.rename f, b.rename f) = (known s (a, b)).map (Unification.rename f) := hl.known (a, b)
  cases hm : known s (a, b) with
  | some answer =>
    rw [hm] at hknown
    rw [visit_of_known hm, visit_of_known hknown]
    exact .answered rfl hl
  | none =>
    rw [hm] at hknown
    have hactive : (a.rename f, b.rename f) ∈ s'.guard.active ↔ (a, b) ∈ s.guard.active := by
      rw [hl.guard]
      exact List.mem_map_of_injective (renameQuery_injective h.injective) (a := (a, b))
    rcases visit_pair src src' p p recur recur' hm hknown hl.trails hactive with
      ⟨hi, hv⟩ | ⟨hv, hv'⟩ | ⟨-, hv, hv'⟩ | ⟨-, -, hv, hv'⟩
    · have hi' : s'.guard.maxIterations < Guard.countUp s'.guard.iterations := by
        rw [hl.guard]
        exact hi
      rw [hv, visit_of_exhausted hknown hi', hl.guard]
      exact .failed rfl ⟨rfl, hl.cycles, hl.known⟩
    · rw [hv, hv', hl.guard]
      exact .failed rfl ⟨rfl, hl.cycles, hl.known⟩
    · rw [hv, hv', hl.guard]
      exact .answered rfl ⟨rfl, congrArg (· + 1) hl.cycles, hl.known⟩
    · have hentered : Mirrors f { s with guard := s.guard.entered (a, b) }
          { s' with guard := s'.guard.entered (a.rename f, b.rename f) } := by
        refine ⟨?_, hl.cycles, hl.known⟩
        rw [hl.guard]
        rfl
      have hrules : (mirroring f).Tied (Renamed f) (tryRules src p recur a b)
          (tryRules src' p recur' (a.rename f) (b.rename f)) :=
        tryRules_tied (fun _ _ _ => trivial) (climbs_mirroring h p b) (fun x y _ => hrec x y) h.injective
      rw [hv, hv', hl.cycles]
      exact settle_mirroring h.injective (hrules _ _ hentered trivial) s.gathered.cycles a b

theorem solve_mirroring (h : TypeSource.Mirrors f src src') (p : Profile) (room : Nat) (a b : TypeRef) :
    (mirroring f).Tied (Renamed f) (solve src p room a b) (solve src' p room (a.rename f) (b.rename f)) := by
  induction room generalizing a b with
  | zero =>
    have hnone : Renamed f .noMatch .noMatch := rfl
    exact visit_mirroring h (fun _ _ => .pure hnone) a b
  | succ room ih => exact visit_mirroring h ih a b

end UnifyM

/-- A fresh unifier answers renamed queries with renamed answers. -/
theorem unify_rename (h : TypeSource.Mirrors f src src') (p : Profile) (a b : TypeRef) :
    ((Unifier.ofProfile p).unify src' (a.rename f) (b.rename f)).result =
      renamed f (Unification.rename f) ((Unifier.ofProfile p).unify src a b).result := by
  have hstart : UnifyM.Mirrors f (Unifier.ofProfile p).start (Unifier.ofProfile p).start := by
    refine ⟨rfl, rfl, fun q => ?_⟩
    rw [Unifier.known_ofProfile, Unifier.known_ofProfile]
    rfl
  have hsearch := UnifyM.solve_mirroring h p.closure p.maxDepth a b _ _ hstart trivial
  unfold Unifier.unify
  rw [h.check, h.check]
  cases TypeSource.check src a with
  | error e => rfl
  | ok =>
    cases TypeSource.check src b with
    | error e => rfl
    | ok =>
      show (UnifyM.solve src' p.closure p.maxDepth (a.rename f) (b.rename f) (Unifier.ofProfile p).start).1 =
        renamed f (Unification.rename f) (UnifyM.solve src p.closure p.maxDepth a b (Unifier.ofProfile p).start).1
      rcases hz : UnifyM.solve src p.closure p.maxDepth a b (Unifier.ofProfile p).start with ⟨r, z⟩
      rcases hz' : UnifyM.solve src' p.closure p.maxDepth (a.rename f) (b.rename f) (Unifier.ofProfile p).start
        with ⟨r', z'⟩
      rw [hz, hz'] at hsearch
      cases hsearch with
      | answered related link => exact congrArg Except.ok related
      | failed alike link => exact congrArg Except.error alike
      | excused h => exact h.elim
      | waived h => exact h.elim

end Sources

/-! ### Tables -/

/-- The declaration says of its symbols what another one says of the renamed ones. -/
structure Declaration.Mirrors (f : Symbol → Symbol) (d d' : Declaration) : Prop where
  arity : d'.arity = d.arity
  base? : d'.base? = d.base?.map (TypeRef.rename f)
  interfaces : d'.interfaces = d.interfaces.map (TypeRef.rename f)
  isRoot : d'.isRoot = d.isRoot

/-- The declarations of the second table mirror those of the first. -/
def Table.Mirrors (f : Symbol → Symbol) (t t' : Table) : Prop :=
  ∀ s, (t.get? s = none ∧ t'.get? (f s) = none) ∨
    ∃ d d', t.get? s = some d ∧ t'.get? (f s) = some d' ∧ d.Mirrors f d'

/-- The state of a search for interfaces under other symbols. -/
def Search.rename (f : Symbol → Symbol) (s : Search Symbol (List TypeRef)) : Search Symbol (List TypeRef) :=
  ⟨s.guard.map f, s.gathered.map (TypeRef.rename f)⟩

namespace FlattenM

variable {f : Symbol → Symbol} {t t' : Table}

/-- The second search does under other symbols what the first one does. -/
def Mirrored (f : Symbol → Symbol) (x x' : FlattenM Unit) : Prop :=
  ∀ s, x' (s.rename f) = (renamed f id (x s).1, (x s).2.rename f)

namespace Mirrored

variable {x x' y y' : FlattenM Unit}

theorem pure : Mirrored f (Pure.pure ()) (Pure.pure ()) := fun _ => rfl

theorem bind (hx : Mirrored f x x') (hy : Mirrored f y y') : Mirrored f (x >>= fun _ => y) (x' >>= fun _ => y') := by
  intro s
  have h := hx s
  rcases hxs : x s with ⟨e | v, u⟩ <;> rw [hxs] at h
  · rw [Attempt.bind_of_error hxs, Attempt.bind_of_error h]
    rfl
  · rw [Attempt.bind_of_ok hxs, Attempt.bind_of_ok h]
    exact hy u

theorem forM {l : List TypeRef} {g g' : TypeRef → FlattenM Unit} (h : ∀ r ∈ l, Mirrored f (g r) (g' (r.rename f))) :
    Mirrored f (l.forM g) ((l.map (TypeRef.rename f)).forM g') := by
  induction l with
  | nil => exact .pure
  | cons r l ih =>
    rw [List.map_cons]
    exact .bind (h r List.mem_cons_self) (ih fun q hq => h q (List.mem_cons_of_mem r hq))

theorem list (hf : f.Injective) (i : TypeRef) : Mirrored f (list i) (FlattenM.list (i.rename f)) := by
  intro s
  have hmem : i.rename f ∈ s.gathered.map (TypeRef.rename f) ↔ i ∈ s.gathered :=
    List.mem_map_of_injective (TypeRef.rename_injective hf)
  unfold FlattenM.list SearchM.gather Attempt.change
  simp only [Search.rename, hmem]
  split
  · rfl
  · simp [renamed]

theorem within (hf : f.Injective) (s : Symbol) (hx : Mirrored f x x') (hy : Mirrored f y y') :
    Mirrored f (SearchM.within s x y) (SearchM.within (f s) x' y') := by
  intro st
  have henter : (st.rename f).guard.enter (f s) = ((st.guard.enter s).1.map f, (st.guard.enter s).2) :=
    Guard.enter_map hf
  unfold SearchM.within
  rw [henter]
  rcases st.guard.enter s with ⟨g, _ | _ | _ | _⟩
  · have hwork := hy { st with guard := g }
    have hrelease := Guard.release_map (g := (y { st with guard := g }).2.guard) (q := s) hf
    show ((y' (Search.rename f { st with guard := g })).1,
      { (y' (Search.rename f { st with guard := g })).2 with
        guard := (y' (Search.rename f { st with guard := g })).2.guard.release (f s) }) = _
    rw [hwork]
    simp only [Search.rename, hrelease]
  · exact hx { st with guard := g }
  · rfl
  · rfl

end Mirrored

theorem expand_mirrored (hf : f.Injective) {recur recur' : TypeRef → FlattenM Unit}
    (hrec : ∀ r, Mirrored f (recur r) (recur' (r.rename f))) (r : TypeRef) {d d' : Declaration} (hd : d.Mirrors f d') :
    Mirrored f (expand recur r d) (expand recur' (r.rename f) d') := by
  unfold expand
  rw [hd.interfaces, hd.base?]
  refine .bind (.forM fun i _ => ?_) ?_
  · rw [← TypeRef.rename_instantiate hf]
    exact .bind (.list hf _) (hrec _)
  · cases d.base? with
    | none => exact .pure
    | some x =>
      have hx := hrec (r.instantiate x)
      rw [TypeRef.rename_instantiate hf] at hx
      exact hx

theorem visit_mirrored (hf : f.Injective) (ht : t.Mirrors f t') {recur recur' : TypeRef → FlattenM Unit}
    (hrec : ∀ r, Mirrored f (recur r) (recur' (r.rename f))) (r : TypeRef) :
    Mirrored f (visit t recur r) (visit t' recur' (r.rename f)) := by
  have hsymbol : (r.rename f).symbol = f r.symbol := rfl
  unfold visit
  rw [hsymbol]
  rcases ht r.symbol with ⟨hd, hd'⟩ | ⟨d, d', hd, hd', hmirrors⟩ <;> rw [hd, hd']
  · exact .pure
  · exact .within hf r.symbol .pure (expand_mirrored hf hrec r hmirrors)

theorem collect_mirrored (hf : f.Injective) (ht : t.Mirrors f t') (room : Nat) (r : TypeRef) :
    Mirrored f (collect t room r) (collect t' room (r.rename f)) := by
  induction room generalizing r with
  | zero => exact visit_mirrored hf ht (fun _ => .pure) r
  | succ room ih => exact visit_mirrored hf ht ih r

end FlattenM

namespace Table

variable {f : Symbol → Symbol} {t t' : Table}

theorem Mirrors.interfacesWithin (hf : f.Injective) (h : t.Mirrors f t') (s : Symbol) (p : Profile) :
    t'.interfacesWithin (f s) p = renamed f (List.map (TypeRef.rename f)) (t.interfacesWithin s p) := by
  unfold Table.interfacesWithin
  rcases h s with ⟨hd, hd'⟩ | ⟨d, d', hd, hd', hmirrors⟩ <;> rw [hd, hd']
  · rfl
  · have hflatten := FlattenM.collect_mirrored hf h p.maxDepth (.opened s d.arity) ⟨.ofProfile p, []⟩
    rw [TypeRef.rename_opened, ← hmirrors.arity] at hflatten
    have hflatten : t'.flatten (f s) d'.arity p =
        (renamed f id (t.flatten s d.arity p).1, (t.flatten s d.arity p).2.rename f) := by
      rw [← hmirrors.arity]
      exact hflatten
    simp only [hflatten]
    rcases t.flatten s d.arity p with ⟨e | _, found⟩ <;> rfl

theorem Mirrors.source (hf : f.Injective) (h : t.Mirrors f t') : TypeSource.Mirrors f t t' where
  injective := hf
  arity? s := by
    simp only [TypeSource.arity?]
    rcases h s with ⟨hd, hd'⟩ | ⟨d, d', hd, hd', hmirrors⟩
    · rw [hd, hd']
    · rw [hd, hd', Option.map_some, Option.map_some, hmirrors.arity]
  interfacesWithin := h.interfacesWithin hf
  base? s := by
    simp only [TypeSource.base?]
    rcases h s with ⟨hd, hd'⟩ | ⟨d, d', hd, hd', hmirrors⟩ <;> rw [hd, hd']
    · rfl
    · exact hmirrors.base?
  isRoot s := by
    simp only [TypeSource.isRoot]
    rcases h s with ⟨hd, hd'⟩ | ⟨d, d', hd, hd', hmirrors⟩
    · rw [hd, hd']
    · rw [hd, hd', Option.map_some, Option.map_some, hmirrors.isRoot]

theorem Mirrors.interfaces (hf : f.Injective) (h : t.Mirrors f t') (s : Symbol) :
    t'.interfaces (f s) = (t.interfaces s).map (TypeRef.rename f) := by
  unfold Table.interfaces
  rw [h.interfacesWithin hf]
  cases t.interfacesWithin s .unbounded <;> rfl

end Table

end Nominal
