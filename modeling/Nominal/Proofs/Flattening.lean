import Nominal.Proofs.Hierarchy
import Nominal.Proofs.Search
import Nominal.Table.Flatten

/-! What flattening finds. `Table.listing` walks the hierarchy above a reference depth first and cuts a walk where it
    comes back to a symbol on its own path. A search that succeeds gathers exactly this listing, each reference where it
    comes up first, and it succeeds whenever its limits leave room for the longest path. -/

namespace Nominal

namespace Table

variable {t : Table} {path : List Symbol} {r i : TypeRef} {d : Declaration} {s : Symbol}

/-! ### The listing -/

theorem length_off_path_lt (hs : t.contains s = true) (hp : s ∉ path) :
    (t.symbols.filter fun q => q ∉ s :: path).length < (t.symbols.filter fun q => q ∉ path).length := by
  have hsub : (t.symbols.filter fun q => q ∉ s :: path) = (t.symbols.filter fun q => q ∉ path).filter (· ≠ s) := by
    rw [List.filter_filter]
    congr 1
    funext q
    simp
  rw [hsub, List.length_filter_lt_length_iff_exists]
  exact ⟨s, List.mem_filter.mpr ⟨mem_symbols.mpr hs, by simpa using hp⟩, by simp⟩

/-- The interfaces above a reference, depth first and with repetitions. Symbols on `path` are not expanded. -/
def listing (t : Table) (path : List Symbol) (r : TypeRef) : List TypeRef :=
  match _h : t.get? r.symbol with
  | none => []
  | some d =>
    if _hp : r.symbol ∈ path then []
    else
      d.interfaces.flatMap (fun i => r.instantiate i :: listing t (r.symbol :: path) (r.instantiate i)) ++
        d.base?.toList.flatMap fun b => listing t (r.symbol :: path) (r.instantiate b)
termination_by (t.symbols.filter fun q => q ∉ path).length
decreasing_by all_goals exact length_off_path_lt (contains_iff.mpr ⟨_, _h⟩) _hp

theorem listing_of_unknown (h : t.get? r.symbol = none) : t.listing path r = [] := by
  rw [listing]
  split
  · rfl
  · simp_all

theorem listing_of_mem (hp : r.symbol ∈ path) : t.listing path r = [] := by
  rw [listing]
  split
  · rfl
  · simp [hp]

theorem listing_eq (hd : t.get? r.symbol = some d) (hp : r.symbol ∉ path) :
    t.listing path r =
      d.interfaces.flatMap (fun i => r.instantiate i :: t.listing (r.symbol :: path) (r.instantiate i)) ++
        d.base?.toList.flatMap fun b => t.listing (r.symbol :: path) (r.instantiate b) := by
  rw [listing]
  split
  · simp_all
  · simp_all

/-! ### Room for a search -/

/-- No path of expansions from `r` tries more than `n` levels; to come back to `path` takes one level too. -/
def Shallow (t : Table) : Nat → List Symbol → TypeRef → Prop
  | 0, _, r => t.get? r.symbol = none
  | n + 1, path, r => ∀ d, t.get? r.symbol = some d → r.symbol ∉ path → ∀ i ∈ d.relations,
      Shallow t n (r.symbol :: path) (r.instantiate i)

theorem shallow_of_size {n : Nat} (hnd : path.Nodup) (hin : ∀ q ∈ path, t.contains q = true)
    (hn : t.size + 1 ≤ path.length + n) : t.Shallow n path r := by
  induction n generalizing path r with
  | zero =>
    have := length_le_size hnd hin
    omega
  | succ n ih =>
    intro d hd hp i _
    refine ih (List.nodup_cons.mpr ⟨hp, hnd⟩) ?_ (by simp only [List.length_cons]; omega)
    intro q hq
    rcases List.mem_cons.mp hq with rfl | hq
    · exact contains_iff.mpr ⟨d, hd⟩
    · exact hin q hq

theorem shallow_of_rank {n : Nat} (hac : t.Acyclic) (hcl : t.Closed) (hn : t.rank r.symbol ≤ n) :
    t.Shallow n path r := by
  induction n generalizing path r with
  | zero =>
    have := t.one_le_rank r.symbol
    omega
  | succ n ih =>
    intro d hd _ i hi
    have hlt := rank_lt_of_extends hac hcl ⟨d, hd, i, hi, rfl⟩
    exact ih (Nat.le_of_lt_succ (Nat.lt_of_lt_of_le hlt hn))

/-- The references of `l` that are not in `found` yet, behind it, each where it comes up first. -/
def addNew (found l : List TypeRef) : List TypeRef :=
  l.foldl (fun found i => if i ∈ found then found else found ++ [i]) found

theorem mem_addNew {found l : List TypeRef} : i ∈ addNew found l ↔ i ∈ found ∨ i ∈ l := by
  induction l generalizing found with
  | nil => simp [addNew]
  | cons j l ih =>
    have h := @ih (if j ∈ found then found else found ++ [j])
    rw [addNew, List.foldl_cons, ← addNew, h]
    split <;> grind

end Table

/-! ### What a search gathers -/

namespace FlattenM

open Table (addNew Shallow)

variable {t : Table} {k n : Nat} {path : List Symbol} {g g' : Guard Symbol} {l m : List TypeRef}

/-- The guard watches `path` and can enter fewer than `k` further levels. -/
structure Fits (k : Nat) (path : List Symbol) (g : Guard Symbol) : Prop where
  active : g.active = path
  deep : g.depth ≤ g.maxDepth
  room : g.maxDepth < g.depth + k

theorem Fits.balanced (h : Fits k path g) (hb : g.Balanced g') : Fits k path g' := by
  obtain ⟨ha, hd, hr⟩ := h
  exact ⟨hb.active.trans ha, by rw [hb.depth, hb.maxDepth]; exact hd, by rw [hb.depth, hb.maxDepth]; exact hr⟩

theorem Fits.entered {s : Symbol} (h : Fits (k + 1) path g) (hd : g.depth < g.maxDepth) :
    Fits k (s :: path) (g.entered s) := by
  refine ⟨congrArg _ h.active, hd, ?_⟩
  have hr := h.room
  show g.maxDepth < g.depth + 1 + k
  omega

/-- The guard lets in `n` further levels, as often as they are tried. -/
structure Ample (n : Nat) (g : Guard Symbol) : Prop where
  depth : g.depth + n ≤ g.maxDepth
  attempts : Profile.ceiling ≤ g.maxIterations
  counted : g.iterations ≤ Profile.ceiling

theorem Ample.balanced (h : Ample n g) (hb : g.Balanced g') : Ample n g' := by
  obtain ⟨hd, ha, hc⟩ := h
  exact ⟨by rw [hb.depth, hb.maxDepth]; exact hd, by rw [hb.maxIterations]; exact ha, hb.counted hc⟩

theorem Ample.entered {s : Symbol} (h : Ample (n + 1) g) : Ample n (g.entered s) := by
  refine ⟨?_, h.attempts, Guard.countUp_le h.counted⟩
  have hd := h.depth
  show g.depth + 1 + n ≤ g.maxDepth
  omega

/-- From a guard that watches `path` a search gathers `l` if it succeeds, and it succeeds if `n` levels are left. -/
structure Lists (k n : Nat) (path : List Symbol) (l : List TypeRef) (x : FlattenM Unit) : Prop where
  balanced (s : Search Symbol (List TypeRef)) : Fits k path s.guard → s.guard.Balanced (x s).2.guard
  gathered (s : Search Symbol (List TypeRef)) : Fits k path s.guard → (x s).1 = .ok () →
    (x s).2.gathered = addNew s.gathered l
  completes (s : Search Symbol (List TypeRef)) : Fits k path s.guard → Ample n s.guard → (x s).1 = .ok ()

theorem Lists.pure : Lists k n path [] (Pure.pure ()) := ⟨fun s _ => .refl s.guard, fun _ _ _ => rfl, fun _ _ _ => rfl⟩

/-- With no level left there is nothing to say. -/
theorem Lists.vacuous : Lists 0 n path l (Pure.pure ()) where
  balanced s _ := .refl s.guard
  gathered _ hf := absurd hf.deep (by have := hf.room; omega)
  completes _ _ _ := rfl

theorem Lists.list (i : TypeRef) : Lists k n path [i] (FlattenM.list i) :=
  ⟨fun s _ => .refl s.guard, fun _ _ _ => rfl, fun _ _ _ => rfl⟩

theorem Lists.seq {x y : FlattenM Unit} (hx : Lists k n path l x) (hy : Lists k n path m y) :
    Lists k n path (l ++ m) (x >>= fun _ => y) := by
  have hrun (s : Search Symbol (List TypeRef)) :
      ((∃ e, (x s).1 = .error e) ∧ (x >>= fun _ => y) s = x s) ∨
        ((x s).1 = .ok () ∧ (x >>= fun _ => y) s = y (x s).2) := by
    rcases hxs : x s with ⟨e | ⟨⟩, s'⟩
    · exact Or.inl ⟨⟨e, rfl⟩, Attempt.bind_of_error hxs⟩
    · exact Or.inr ⟨rfl, Attempt.bind_of_ok hxs⟩
  refine ⟨fun s hf => ?_, fun s hf hok => ?_, fun s hf ha => ?_⟩
  · have hb := hx.balanced s hf
    rcases hrun s with ⟨-, h⟩ | ⟨-, h⟩ <;> rw [h]
    · exact hb
    · exact hb.trans (hy.balanced _ (hf.balanced hb))
  · rcases hrun s with ⟨⟨e, he⟩, h⟩ | ⟨hxok, h⟩ <;> rw [h] at hok ⊢
    · rw [he] at hok
      cases hok
    · rw [hy.gathered _ (hf.balanced (hx.balanced s hf)) hok, hx.gathered s hf hxok]
      simp only [addNew, List.foldl_append]
  · rcases hrun s with ⟨⟨e, he⟩, -⟩ | ⟨-, h⟩
    · rw [hx.completes s hf ha] at he
      cases he
    · have hb := hx.balanced s hf
      rw [h]
      exact hy.completes _ (hf.balanced hb) (ha.balanced hb)

theorem Lists.forM {is : List TypeRef} {f : TypeRef → List TypeRef} {x : TypeRef → FlattenM Unit}
    (h : ∀ i ∈ is, Lists k n path (f i) (x i)) : Lists k n path (is.flatMap f) (is.forM x) := by
  induction is with
  | nil => exact .pure
  | cons i is ih =>
    exact (h i List.mem_cons_self).seq (ih fun j hj => h j (List.mem_cons_of_mem i hj))

theorem expand_lists {recur : TypeRef → FlattenM Unit} {r : TypeRef} {d : Declaration}
    (h : ∀ i ∈ d.relations, Lists k n path (t.listing path (r.instantiate i)) (recur (r.instantiate i))) :
    Lists k n path
      (d.interfaces.flatMap (fun i => r.instantiate i :: t.listing path (r.instantiate i)) ++
        d.base?.toList.flatMap fun b => t.listing path (r.instantiate b))
      (expand recur r d) := by
  refine .seq (.forM fun i hi => ?_) ?_
  · exact (Lists.list _).seq (h i (Declaration.mem_relations.mpr (Or.inl hi)))
  · cases hb : d.base? with
    | none => exact .pure
    | some b =>
      have hrec := h b (Declaration.mem_relations.mpr (Or.inr hb))
      simpa using hrec

/-- A symbol on the path is cut, and any other one is worked on with one level less. -/
theorem within_lists {key : Symbol} {work : FlattenM Unit} (hcut : key ∈ path → l = [])
    (hwork : key ∉ path → Lists k n (key :: path) l work) :
    Lists (k + 1) (n + 1) path l (SearchM.within key (Pure.pure ()) work) := by
  refine ⟨fun s hf => ?_, fun s hf hok => ?_, fun s hf ha => ?_⟩
  · rcases SearchM.within_cases key (Pure.pure ()) work s with ⟨-, h⟩ | ⟨-, h⟩ | ⟨-, -, h⟩ | ⟨hd, hk, h⟩ <;> rw [h]
    · exact .refused s.guard
    · exact .refused s.guard
    · exact .tried s.guard
    · rw [hf.active] at hk
      have hb := (hwork hk).balanced { s with guard := s.guard.entered key } (hf.entered hd)
      exact hb.release
  · rcases SearchM.within_cases key (Pure.pure ()) work s with ⟨-, h⟩ | ⟨-, h⟩ | ⟨-, hk, h⟩ | ⟨hd, hk, h⟩ <;>
      rw [h] at hok ⊢
    · cases hok
    · cases hok
    · rw [hf.active] at hk
      rw [hcut hk]
      rfl
    · rw [hf.active] at hk
      exact (hwork hk).gathered _ (hf.entered hd) hok
  · rcases SearchM.within_cases key (Pure.pure ()) work s with ⟨hi, -⟩ | ⟨hd, -⟩ | ⟨-, -, h⟩ | ⟨hd, hk, h⟩
    · have hle := Guard.countUp_le ha.counted
      have hat := ha.attempts
      omega
    · have hdepth := ha.depth
      omega
    · rw [h]
      rfl
    · rw [hf.active] at hk
      rw [h]
      exact (hwork hk).completes _ (hf.entered hd) ha.entered

theorem visit_lists {recur : TypeRef → FlattenM Unit} {r : TypeRef} (hsh : t.Shallow n path r)
    (h : ∀ n i, t.Shallow n (r.symbol :: path) i →
      Lists k n (r.symbol :: path) (t.listing (r.symbol :: path) i) (recur i)) :
    Lists (k + 1) n path (t.listing path r) (visit t recur r) := by
  cases hd : t.get? r.symbol with
  | none =>
    rw [Table.listing_of_unknown hd]
    simp only [visit, hd]
    exact .pure
  | some d =>
    simp only [visit, hd]
    -- The declaration is known, so that some level is left.
    obtain ⟨n, rfl⟩ : ∃ m, n = m + 1 := by
      cases n with
      | zero => rw [Shallow, hd] at hsh; cases hsh
      | succ m => exact ⟨m, rfl⟩
    refine within_lists Table.listing_of_mem fun hp => ?_
    rw [Table.listing_eq hd hp]
    exact expand_lists fun i hi => h n _ (hsh d hd hp i hi)

theorem collect_lists {r : TypeRef} (room : Nat) (hsh : t.Shallow n path r) :
    Lists (room + 1) n path (t.listing path r) (collect t room r) := by
  induction room generalizing n path r with
  | zero => exact visit_lists hsh fun _ _ _ => .vacuous
  | succ room ih => exact visit_lists hsh fun _ _ hi => ih hi

end FlattenM

namespace Table

variable {t : Table} {path : List Symbol} {r i : TypeRef} {d : Declaration} {s : Symbol} {p : Profile}

/-- All interfaces of a declaration, by the listing of its open definition. -/
def flattened (t : Table) (s : Symbol) : List TypeRef :=
  match t.get? s with
  | none => []
  | some d => addNew [] (t.listing [] (.opened s d.arity))

/-- A search from start to end gathers the listing of the reference it starts from, if it succeeds. -/
theorem collect_start {n : Nat} (hsh : t.Shallow n [] r) :
    ((FlattenM.collect t p.maxDepth r ⟨.ofProfile p, []⟩).1 = .ok () →
      (FlattenM.collect t p.maxDepth r ⟨.ofProfile p, []⟩).2.gathered = addNew [] (t.listing [] r)) ∧
    (n ≤ p.maxDepth → Profile.ceiling ≤ p.maxIterations →
      (FlattenM.collect t p.maxDepth r ⟨.ofProfile p, []⟩).1 = .ok ()) := by
  have hl := FlattenM.collect_lists p.maxDepth hsh
  have hf : FlattenM.Fits (p.maxDepth + 1) [] (Guard.ofProfile p) := ⟨rfl, Nat.zero_le _, by simp [Guard.ofProfile]⟩
  refine ⟨hl.gathered ⟨.ofProfile p, []⟩ hf, fun hn hi => hl.completes ⟨.ofProfile p, []⟩ hf ⟨?_, hi, Nat.zero_le _⟩⟩
  simpa [Guard.ofProfile] using hn

theorem flatten_lists {n a : Nat} (hsh : t.Shallow n [] (.opened s a)) :
    ((t.flatten s a p).1 = .ok () → (t.flatten s a p).2.gathered = addNew [] (t.listing [] (.opened s a))) ∧
      (n ≤ p.maxDepth → Profile.ceiling ≤ p.maxIterations → (t.flatten s a p).1 = .ok ()) :=
  collect_start hsh

theorem interfacesWithin_eq_flattened {found : List TypeRef} (h : t.interfacesWithin s p = .ok found) :
    found = t.flattened s := by
  unfold interfacesWithin at h
  unfold flattened
  cases hd : t.get? s with
  | none => simp_all
  | some d =>
    have hsh : t.Shallow (t.size + 1) [] (.opened s d.arity) := shallow_of_size List.nodup_nil (by simp) (by simp)
    obtain ⟨hg, -⟩ := flatten_lists (p := p) hsh
    simp only [hd] at h
    rcases hc : t.flatten s d.arity p with ⟨_ | ⟨⟩, s'⟩
    · rw [hc] at h
      cases h
    · rw [hc] at h hg
      cases h
      exact hg rfl

theorem interfacesWithin_of_shallow {n : Nat} (hn : n ≤ p.maxDepth) (hi : Profile.ceiling ≤ p.maxIterations)
    (hsh : ∀ a, t.Shallow n [] (.opened s a)) : t.interfacesWithin s p = .ok (t.flattened s) := by
  have hok : ∃ found, t.interfacesWithin s p = .ok found := by
    unfold interfacesWithin
    cases hd : t.get? s with
    | none => exact ⟨[], rfl⟩
    | some d =>
      have hc := (flatten_lists (p := p) (hsh d.arity)).2 hn hi
      refine ⟨(t.flatten s d.arity p).2.gathered, ?_⟩
      rcases hf : t.flatten s d.arity p with ⟨_ | ⟨⟩, s'⟩
      · rw [hf] at hc
        cases hc
      · simp only [hf]
  obtain ⟨found, h⟩ := hok
  rw [h, interfacesWithin_eq_flattened h]

theorem interfacesWithin_of_size (hn : t.size < p.maxDepth) (hi : Profile.ceiling ≤ p.maxIterations) :
    t.interfacesWithin s p = .ok (t.flattened s) :=
  interfacesWithin_of_shallow hn hi fun _ => shallow_of_size List.nodup_nil (by simp) (by simp)

theorem interfacesWithin_of_rank (hac : t.Acyclic) (hcl : t.Closed) (hn : t.rank s ≤ p.maxDepth)
    (hi : Profile.ceiling ≤ p.maxIterations) : t.interfacesWithin s p = .ok (t.flattened s) :=
  interfacesWithin_of_shallow hn hi fun _ => shallow_of_rank hac hcl (Nat.le_refl _)

/-! ### What is listed -/

/-- One step up from a reference: to what its declaration implements or extends, with the parameters bound. -/
def Step (t : Table) (r r' : TypeRef) : Prop :=
  ∃ d, t.get? r.symbol = some d ∧ ∃ i ∈ d.relations, r' = r.instantiate i

/-- The reference implements another one directly. -/
def Declares (t : Table) (r r' : TypeRef) : Prop :=
  ∃ d, t.get? r.symbol = some d ∧ ∃ i ∈ d.interfaces, r' = r.instantiate i

theorem Declares.step {r r' : TypeRef} (h : t.Declares r r') : t.Step r r' := by
  obtain ⟨d, hd, i, hi, rfl⟩ := h
  exact ⟨d, hd, i, Declaration.mem_relations.mpr (Or.inl hi), rfl⟩

theorem Step.extends {r r' : TypeRef} (h : t.Step r r') : t.Extends r.symbol r'.symbol := by
  obtain ⟨d, hd, i, hi, rfl⟩ := h
  exact ⟨d, hd, i, hi, rfl⟩

theorem reaches_of_steps {r r' : TypeRef} (h : Relation.ReflTransGen t.Step r r') :
    Relation.ReflTransGen t.Extends r.symbol r'.symbol := by
  induction h with
  | refl => exact .refl
  | tail _ hstep ih => exact ih.tail hstep.extends

theorem mem_listing_cases (h : i ∈ t.listing path r) :
    r.symbol ∉ path ∧ (t.Declares r i ∨ ∃ r', t.Step r r' ∧ i ∈ t.listing (r.symbol :: path) r') := by
  by_cases hp : r.symbol ∈ path
  · simp [listing_of_mem hp] at h
  · refine ⟨hp, ?_⟩
    cases hd : t.get? r.symbol with
    | none => simp [listing_of_unknown hd] at h
    | some d =>
      rw [listing_eq hd hp, List.mem_append, List.mem_flatMap, List.mem_flatMap] at h
      rcases h with ⟨j, hj, h⟩ | ⟨b, hb, h⟩
      · rcases List.mem_cons.mp h with rfl | h
        · exact Or.inl ⟨d, hd, j, hj, rfl⟩
        · exact Or.inr ⟨_, ⟨d, hd, j, Declaration.mem_relations.mpr (Or.inl hj), rfl⟩, h⟩
      · have hb : d.base? = some b := by simpa using hb
        exact Or.inr ⟨_, ⟨d, hd, b, Declaration.mem_relations.mpr (Or.inr hb), rfl⟩, h⟩

theorem mem_listing_of_declares (hp : r.symbol ∉ path) (h : t.Declares r i) : i ∈ t.listing path r := by
  obtain ⟨d, hd, j, hj, rfl⟩ := h
  rw [listing_eq hd hp, List.mem_append, List.mem_flatMap]
  exact Or.inl ⟨j, hj, List.mem_cons_self⟩

theorem mem_listing_of_step {r' : TypeRef} (hp : r.symbol ∉ path) (hstep : t.Step r r')
    (h : i ∈ t.listing (r.symbol :: path) r') : i ∈ t.listing path r := by
  obtain ⟨d, hd, j, hj, rfl⟩ := hstep
  rw [listing_eq hd hp, List.mem_append, List.mem_flatMap, List.mem_flatMap]
  rcases Declaration.mem_relations.mp hj with hj | hb
  · exact Or.inl ⟨j, hj, List.mem_cons_of_mem _ h⟩
  · exact Or.inr ⟨j, by simpa using hb, h⟩

/-- Walks that never come back to their own path end, so that what holds of a reference if it holds of each step up from
    it, with the reference on the path, holds of all. -/
theorem path_induction {motive : List Symbol → TypeRef → Prop}
    (step : ∀ path r, (r.symbol ∉ path → ∀ r', t.Step r r' → motive (r.symbol :: path) r') → motive path r)
    (path : List Symbol) (r : TypeRef) : motive path r := by
  refine step path r fun hp r' hr' => ?_
  exact path_induction step (r.symbol :: path) r'
termination_by (t.symbols.filter fun q => q ∉ path).length
decreasing_by exact length_off_path_lt hr'.extends.contains hp

theorem steps_of_mem_listing (h : i ∈ t.listing path r) : ∃ m, Relation.ReflTransGen t.Step r m ∧ t.Declares m i := by
  induction path, r using path_induction (t := t) with
  | step path r ih =>
    obtain ⟨hp, hi | ⟨r', hstep, h⟩⟩ := mem_listing_cases h
    · exact ⟨r, .refl, hi⟩
    · obtain ⟨m, hm, hi⟩ := ih hp r' hstep h
      exact ⟨m, .head hstep hm, hi⟩

theorem reaches_of_mem_listing (h : i ∈ t.listing path r) : Relation.TransGen t.Extends r.symbol i.symbol := by
  obtain ⟨m, hm, hi⟩ := steps_of_mem_listing h
  exact Relation.TransGen.tail' (reaches_of_steps hm) hi.step.extends

theorem reaches_of_mem_flattened (h : i ∈ t.flattened s) : Relation.TransGen t.Extends s i.symbol := by
  unfold flattened at h
  split at h
  · simp at h
  · rw [mem_addNew] at h
    exact reaches_of_mem_listing (h.resolve_left List.not_mem_nil)

/-- Where nothing is above itself, no walk is cut. -/
theorem mem_listing_of_steps (hac : t.Acyclic) {m : TypeRef} (hm : Relation.ReflTransGen t.Step r m)
    (hi : t.Declares m i) (hoff : ∀ q ∈ path, ¬Relation.ReflTransGen t.Extends r.symbol q) : i ∈ t.listing path r := by
  induction hm using Relation.ReflTransGen.head_induction_on generalizing path with
  | refl => exact mem_listing_of_declares (fun hp => hoff _ hp .refl) hi
  | @head r r' hstep _ ih =>
    refine mem_listing_of_step (fun hp => hoff _ hp .refl) hstep (ih fun q hq hr => ?_)
    rcases List.mem_cons.mp hq with rfl | hq
    · exact hac.not_reaches hstep.extends hr
    · exact hoff q hq (.head hstep.extends hr)

theorem mem_flattened (hac : t.Acyclic) (hd : t.get? s = some d) :
    i ∈ t.flattened s ↔ ∃ m, Relation.ReflTransGen t.Step (.opened s d.arity) m ∧ t.Declares m i := by
  simp only [flattened, hd, mem_addNew, List.not_mem_nil, false_or]
  exact ⟨steps_of_mem_listing, fun ⟨m, hm, hi⟩ => mem_listing_of_steps hac hm hi (by simp)⟩

/-- The symbol implements a reference to another one directly. -/
def Implements (t : Table) (s s' : Symbol) : Prop := ∃ d, t.get? s = some d ∧ ∃ i ∈ d.interfaces, i.symbol = s'

/-- Every walk along interfaces that keeps off the path ends in something listed: a walk that comes back to a symbol can
    be shortened to one that does not. -/
theorem exists_mem_listing {s' : Symbol} (h : WalkOff t.Implements path r.symbol s') :
    ∃ i ∈ t.listing path r, i.symbol = s' := by
  induction path, r using path_induction (t := t) with
  | step path r ih =>
    obtain ⟨hp, ⟨d, hd, j, hj, hs⟩ | ⟨q, ⟨d, hd, j, hj, rfl⟩, hwalk⟩⟩ := h.cases_simple
    · exact ⟨r.instantiate j, mem_listing_of_declares hp ⟨d, hd, j, hj, rfl⟩, hs⟩
    · have hstep : t.Step r (r.instantiate j) := Declares.step ⟨d, hd, j, hj, rfl⟩
      obtain ⟨i, hi, his⟩ := ih hp (r.instantiate j) hstep hwalk
      exact ⟨i, mem_listing_of_step hp hstep hi, his⟩

theorem exists_mem_flattened {s' : Symbol} (h : Relation.TransGen t.Implements s s') :
    ∃ i ∈ t.flattened s, i.symbol = s' := by
  obtain ⟨d, hd⟩ : ∃ d, t.get? s = some d := by
    obtain ⟨q, ⟨d, hd, -⟩, -⟩ := Relation.TransGen.head'_iff.mp h
    exact ⟨d, hd⟩
  simp only [flattened, hd, mem_addNew, List.not_mem_nil, false_or]
  exact exists_mem_listing (r := .opened s d.arity) (.of_transGen h)

end Table

end Nominal
