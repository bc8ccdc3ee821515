import Nominal.Proofs.Interfaces
import Nominal.Proofs.References

/-! Binding parameters before and after flattening. The interfaces of a declaration are found once, with its parameters
    open, and bound later. If each declaration is written with its own parameters, this leads to the same references as
    a walk from the bound reference: each step of the walk from the open definition can be bound (`listing_substitute`),
    since a declaration that was left does not come up again. References that differ may become equal when they are
    bound, so what is bound has to be listed anew, each reference where it comes up first. -/

namespace Nominal

/-! ### Each element once -/

section Once

variable {α β : Type} [BEq α] [LawfulBEq α] [BEq β] [LawfulBEq β]

theorem filter_eraseDups (p : α → Bool) (l : List α) : l.eraseDups.filter p = (l.filter p).eraseDups := by
  match l with
  | [] => rfl
  | a :: l =>
    have hrest := filter_eraseDups p (l.filter fun b => !b == a)
    rw [List.filter_filter] at hrest
    by_cases ha : p a = true
    · rw [List.eraseDups_cons, List.filter_cons_of_pos ha, List.filter_cons_of_pos ha, List.eraseDups_cons, hrest,
        List.filter_filter]
      simp only [Bool.and_comm]
    · rw [List.eraseDups_cons, List.filter_cons_of_neg ha, List.filter_cons_of_neg ha, hrest]
      -- What is dropped for being equal to `a` would be dropped anyway.
      congr 1
      refine List.filter_congr fun b _ => ?_
      by_cases hb : b = a
      · simp [hb, ha]
      · simp [hb]
termination_by l.length
decreasing_by exact Nat.lt_succ_of_le (List.length_filter_le _ _)

/-- What is equal only after `f` is dropped at the end in any case. -/
theorem eraseDups_map_eraseDups (f : α → β) (l : List α) : (l.eraseDups.map f).eraseDups = (l.map f).eraseDups := by
  match l with
  | [] => rfl
  | a :: l =>
    have hrest := eraseDups_map_eraseDups f (l.filter fun b => !f b == f a)
    rw [List.eraseDups_cons, List.map_cons, List.map_cons, List.eraseDups_cons, List.eraseDups_cons, List.filter_map,
      List.filter_map, filter_eraseDups]
    congr 1
    rw [List.filter_filter]
    have hsame : (l.filter fun b => ((fun c => !c == f a) ∘ f) b && !b == a) = l.filter fun b => !f b == f a := by
      refine List.filter_congr fun b _ => ?_
      by_cases hb : b = a
      · simp [hb]
      · simp [hb]
    rw [hsame]
    exact hrest
termination_by l.length
decreasing_by exact Nat.lt_succ_of_le (List.length_filter_le _ _)

end Once

namespace Table

variable {t : Table} {path : List Symbol} {r : TypeRef} {s : Symbol} {d : Declaration} {ys : List TypeArg}

/-! ### Listing what is bound -/

/-- Every declaration is written with its own parameters. -/
def SelfContained (t : Table) : Prop :=
  ∀ s d, t.get? s = some d → ∀ x ∈ d.relations, ∀ p, TypeArg.Occurs p x.toArg → p.owner = s ∧ p.index < d.arity

/-- A step up can be taken before or after the parameters of `s` are bound. -/
theorem SelfContained.instantiate_substitute (ht : t.SelfContained) (hd : t.get? r.symbol = some d)
    (hr : r.symbol = s → d.arity = r.args.length) {x : TypeRef} (hx : x ∈ d.relations) :
    (r.substitute s ys).instantiate x = (r.instantiate x).substitute s ys := by
  refine (TypeRef.substitute_instantiate (fun hs p hp _ => ?_) ?_).symm
  · rw [← hr hs]
    exact (ht _ d hd x hx p hp).2
  · rintro ⟨p, hp, rfl⟩
    exact (ht _ d hd x hx p hp).1.symm

/-- The walk from a bound reference lists what the walk from the open one lists, with the parameters bound. Either `s`
    has been left and does not come up again, or the walk is about to leave it, from a reference with all arguments. -/
theorem listing_substitute (ht : t.SelfContained)
    (h : s ∈ path ∨ r.symbol = s ∧ ∀ d, t.get? r.symbol = some d → d.arity = r.args.length) :
    t.listing path (r.substitute s ys) = (t.listing path r).map fun i => i.substitute s ys := by
  induction path, r using path_induction (t := t) with
  | step path r ih =>
    by_cases hp : r.symbol ∈ path
    · rw [listing_of_mem hp, listing_of_mem (r := r.substitute s ys) hp, List.map_nil]
    cases hd : t.get? r.symbol with
    | none => rw [listing_of_unknown hd, listing_of_unknown (r := r.substitute s ys) hd, List.map_nil]
    | some d =>
      have hleft : s ∈ r.symbol :: path := by
        rcases h with hs | ⟨rfl, -⟩
        · exact List.mem_cons_of_mem _ hs
        · exact List.mem_cons_self
      have harity : r.symbol = s → d.arity = r.args.length := by
        rintro rfl
        exact (h.resolve_left hp).2 d hd
      have hbound {x : TypeRef} (hx : x ∈ d.relations) :
          (r.substitute s ys).instantiate x = (r.instantiate x).substitute s ys :=
        ht.instantiate_substitute hd harity hx
      have hrest {x : TypeRef} (hx : x ∈ d.relations) :
          t.listing (r.symbol :: path) ((r.instantiate x).substitute s ys) =
            (t.listing (r.symbol :: path) (r.instantiate x)).map fun i => i.substitute s ys :=
        ih hp _ ⟨d, hd, x, hx, rfl⟩ (Or.inl hleft)
      rw [listing_eq hd hp, listing_eq (r := r.substitute s ys) hd hp, List.map_append, List.map_flatMap,
        List.map_flatMap]
      congr 1
      · refine List.flatMap_congr fun x hx => ?_
        have hx := Declaration.mem_relations.mpr (Or.inl hx)
        rw [hbound hx, List.map_cons]
        exact congrArg _ (hrest hx)
      · refine List.flatMap_congr fun x hx => ?_
        have hx := Declaration.mem_relations.mpr (Or.inr (Option.mem_toList.mp hx))
        rw [hbound hx]
        exact hrest hx

/-! ### Flattening what is bound -/

/-- Binding parameters in the interfaces of a declared symbol leads to the references that the search finds which starts
    from the bound reference, in the same order, once those are dropped that have become equal to an earlier one. -/
theorem collect_instantiated (t : Table) (hsize : t.size < Profile.ceiling) (ht : t.SelfContained) (s : Symbol)
    (d : Declaration) (hd : t.get? s = some d) (args : List TypeArg) (hargs : args.length = d.arity) :
    ∃ found, FlattenM.collect t Profile.unbounded.maxDepth ⟨s, args⟩ ⟨.ofProfile .unbounded, []⟩ = (.ok (), found) ∧
      found.gathered = ((t.interfaces s).map fun i => i.substitute s args).eraseDups := by
  have hsh : t.Shallow (t.size + 1) [] ⟨s, args⟩ := shallow_of_size List.nodup_nil (by simp) (by simp)
  obtain ⟨hlist, hok⟩ := collect_start (p := .unbounded) hsh
  have hok := hok hsize (Nat.le_refl _)
  refine ⟨_, Prod.ext hok rfl, ?_⟩
  have hopened : t.listing [] ⟨s, args⟩ = (t.listing [] (.opened s d.arity)).map fun i => i.substitute s args := by
    have harity (d' : Declaration) (hd' : t.get? s = some d') : d'.arity = (TypeRef.openArgs s d.arity).length := by
      cases hd.symm.trans hd'
      simp [TypeRef.openArgs]
    have hbound : (TypeRef.opened s d.arity).substitute s args = ⟨s, args⟩ :=
      hargs ▸ TypeRef.instantiate_opened ⟨s, args⟩
    rw [← hbound]
    exact listing_substitute ht (Or.inr ⟨rfl, harity⟩)
  rw [hlist hok, addNew_nil, hopened, interfaces_of_size hsize, flattened, hd]
  simp only
  rw [addNew_nil, eraseDups_map_eraseDups]

/-- The first declaration implements a deeper instance of itself, and the second one implements it for each of two
    parameters. -/
def pairs : Table where
  names := .common
  declarations := #[
    { kind := .interface, name := ⟨⟨0⟩, ⟨1⟩⟩, params := [⟨2⟩], interfaces := [⟨⟨1⟩, [.type ⟨1⟩ [.param ⟨⟨1⟩, 0⟩]]⟩] },
    { kind := .cls, name := ⟨⟨0⟩, ⟨3⟩⟩, params := [⟨2⟩, ⟨4⟩],
      interfaces := [⟨⟨1⟩, [.param ⟨⟨2⟩, 0⟩]⟩, ⟨⟨1⟩, [.param ⟨⟨2⟩, 1⟩]⟩] }]

theorem get?_pairs {s : Symbol} {d : Declaration} (h : pairs.get? s = some d) :
    (s = ⟨1⟩ ∧ d.arity = 1 ∧ d.relations = [⟨⟨1⟩, [.type ⟨1⟩ [.param ⟨⟨1⟩, 0⟩]]⟩]) ∨
      (s = ⟨2⟩ ∧ d.arity = 2 ∧ d.relations = [⟨⟨1⟩, [.param ⟨⟨2⟩, 0⟩]⟩, ⟨⟨1⟩, [.param ⟨⟨2⟩, 1⟩]⟩]) := by
  have hs : s ∈ pairs.symbols := mem_symbols.mpr (contains_iff.mpr ⟨d, h⟩)
  rcases List.mem_pair.mp hs with rfl | rfl
  · cases h
    exact Or.inl ⟨rfl, rfl, rfl⟩
  · cases h
    exact Or.inr ⟨rfl, rfl, rfl⟩

theorem selfContained_pairs : pairs.SelfContained := by
  intro s d hd x hx p hp
  rcases get?_pairs hd with ⟨rfl, harity, hrel⟩ | ⟨rfl, harity, hrel⟩ <;> rw [hrel] at hx <;> rw [harity]
  · cases List.mem_singleton.mp hx
    simp only [TypeRef.toArg, TypeArg.occurs_type_iff, List.mem_singleton, exists_eq_left,
      TypeArg.occurs_param_iff] at hp
    simp [hp]
  · rcases List.mem_pair.mp hx with rfl | rfl <;>
      simp only [TypeRef.toArg, TypeArg.occurs_type_iff, List.mem_singleton, exists_eq_left,
        TypeArg.occurs_param_iff] at hp <;>
      simp [hp]

/-- With the same argument for both parameters, one that mentions them itself, two of the four interfaces become equal
    to the other two. -/
theorem collect_instantiated_pairs :
    let swapped : TypeArg := .type ⟨2⟩ [.param ⟨⟨2⟩, 1⟩, .param ⟨⟨2⟩, 0⟩]
    (pairs.interfaces ⟨2⟩).length = 4 ∧
      ∃ found, FlattenM.collect pairs Profile.unbounded.maxDepth ⟨⟨2⟩, [swapped, swapped]⟩ ⟨.ofProfile .unbounded, []⟩ =
          (.ok (), found) ∧
        found.gathered = [⟨⟨1⟩, [swapped]⟩, ⟨⟨1⟩, [.type ⟨1⟩ [swapped]]⟩] := by
  intro swapped
  have hall : pairs.interfaces ⟨2⟩ = [⟨⟨1⟩, [.param ⟨⟨2⟩, 0⟩]⟩, ⟨⟨1⟩, [.type ⟨1⟩ [.param ⟨⟨2⟩, 0⟩]]⟩,
      ⟨⟨1⟩, [.param ⟨⟨2⟩, 1⟩]⟩, ⟨⟨1⟩, [.type ⟨1⟩ [.param ⟨⟨2⟩, 1⟩]]⟩] := by decide +kernel
  obtain ⟨found, hrun, hfound⟩ :=
    collect_instantiated pairs (by decide) selfContained_pairs ⟨2⟩ _ rfl [swapped, swapped] rfl
  refine ⟨by rw [hall]; rfl, found, hrun, ?_⟩
  rw [hfound, hall]
  decide

end Table

end Nominal
