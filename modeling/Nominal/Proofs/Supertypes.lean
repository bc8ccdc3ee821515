import Nominal.Proofs.Ancestry
import Nominal.Proofs.References
import Nominal.Proofs.WellFormed

/-! Supertypes of supertypes. What stands above a supertype stands above the type itself, by symbol in every case. By
    reference it need not: a supertype that is applied to parameters only is listed as its open definition, and a
    declaration that mentions the parameters of a type below it has them bound from that type on. Apart from these two,
    walking up from the open definition and then binding the parameters leads to the same references as walking up
    from the bound one, and the supertypes of a supertype are listed for the type too. -/

namespace Nominal

namespace Table

variable {t : Table} {r r' m i x : TypeRef} {s : Symbol} {d : Declaration}

/-- What holds of every table that was built: nothing is above itself, whatever stands above something is declared and
    well-formed, and neither interfaces nor the root extend anything. -/
structure Proper (t : Table) : Prop where
  acyclic : t.Acyclic
  closed : t.Closed
  checked : ∀ s d, t.get? s = some d → ∀ r ∈ d.relations, TypeSource.check t r = .ok ()
  unbased : ∀ r i, t.Declares r i → TypeSource.base? t i.symbol = none
  root_unbased : ∀ s, TypeSource.isRoot t s = true → TypeSource.base? t s = none

/-- The reference has as many arguments as its declaration has parameters. -/
def Saturated (t : Table) (r : TypeRef) : Prop := TypeSource.arity? t r.symbol = some r.args.length

theorem saturated_of_check (h : TypeSource.check t r = .ok ()) : t.Saturated r := (TypeSource.checkArg_type_iff.mp h).1

theorem Saturated.get? (h : t.Saturated r) : ∃ d, t.get? r.symbol = some d ∧ d.arity = r.args.length :=
  Option.map_eq_some_iff.mp h

theorem Step.saturated (ht : t.Proper) (h : t.Step r r') : t.Saturated r' := by
  obtain ⟨d, hd, x, hx, rfl⟩ := h
  have hsat := saturated_of_check (ht.checked _ d hd x hx)
  rw [Saturated, TypeRef.length_args_instantiate]
  exact hsat

theorem saturated_of_steps (ht : t.Proper) (hr : t.Saturated r) (h : Relation.ReflTransGen t.Step r r') :
    t.Saturated r' := by
  induction h with
  | refl => exact hr
  | tail _ hstep _ => exact hstep.saturated ht

/-! ### Walking up before and after binding -/

/-- No declaration above the symbol mentions its parameters. -/
def Uncaptured (t : Table) (s : Symbol) : Prop :=
  ∀ q, Relation.TransGen t.Extends s q → ∀ d, t.get? q = some d → ∀ x ∈ d.relations, ¬x.Mentions s

theorem Proper.uncaptured_of_arity_zero (ht : t.Proper) (hs : TypeSource.arity? t s = some 0) : t.Uncaptured s := by
  rintro q - d hd x hx ⟨p, hp, rfl⟩
  obtain ⟨n, hn, hlt⟩ := TypeSource.index_lt_of_check (ht.checked q d hd x hx) hp
  cases hs.symm.trans hn
  exact Nat.not_lt_zero _ hlt

theorem saturated_opened (hr : t.Saturated r) : t.Saturated (.opened r.symbol r.args.length) := by
  simpa [Saturated, TypeRef.opened, TypeRef.openArgs] using hr

/-- A step on the way up from the open definition is the same step before and after binding. -/
theorem instantiate_step (ht : t.Proper) (hr : t.Saturated r) (hun : t.Uncaptured r.symbol)
    (hm : Relation.ReflTransGen t.Step (.opened r.symbol r.args.length) m) (hd : t.get? m.symbol = some d)
    (hx : x ∈ d.relations) : r.instantiate (m.instantiate x) = (r.instantiate m).instantiate x := by
  refine TypeRef.substitute_instantiate (fun _ p hp ho => ?_) fun hmentions => ?_
  · have hsat : TypeSource.arity? t m.symbol = some m.args.length := saturated_of_steps ht (saturated_opened hr) hm
    obtain ⟨n, hn, hlt⟩ := TypeSource.index_lt_of_check (ht.checked _ d hd x hx) hp
    rw [ho, hsat] at hn
    cases hn
    exact hlt
  · have hreach := reaches_of_steps hm
    rcases Relation.reflTransGen_iff_eq_or_transGen.mp hreach with heq | habove
    · exact heq
    · exact absurd hmentions (hun _ habove d hd x hx)

theorem steps_instantiate (ht : t.Proper) (hr : t.Saturated r) (hun : t.Uncaptured r.symbol)
    (h : Relation.ReflTransGen t.Step (.opened r.symbol r.args.length) m) :
    Relation.ReflTransGen t.Step r (r.instantiate m) := by
  induction h with
  | refl => rw [r.instantiate_opened]
  | tail hsteps hstep ih =>
    obtain ⟨d, hd, x, hx, rfl⟩ := hstep
    rw [instantiate_step ht hr hun hsteps hd hx]
    exact ih.tail ⟨d, hd, x, hx, rfl⟩

theorem steps_of_instantiate (ht : t.Proper) (hr : t.Saturated r) (hun : t.Uncaptured r.symbol)
    (h : Relation.ReflTransGen t.Step r r') :
    ∃ m, Relation.ReflTransGen t.Step (.opened r.symbol r.args.length) m ∧ r.instantiate m = r' := by
  induction h with
  | refl => exact ⟨_, .refl, r.instantiate_opened⟩
  | tail _ hstep ih =>
    obtain ⟨m, hsteps, rfl⟩ := ih
    obtain ⟨d, hd, x, hx, rfl⟩ := hstep
    exact ⟨m.instantiate x, hsteps.tail ⟨d, hd, x, hx, rfl⟩, instantiate_step ht hr hun hsteps hd hx⟩

/-- The interfaces of a reference are those that a reference at or above it implements. -/
theorem mem_map_flattened (ht : t.Proper) (hr : t.Saturated r) (hun : t.Uncaptured r.symbol) :
    i ∈ (t.flattened r.symbol).map r.instantiate ↔ ∃ r', Relation.ReflTransGen t.Step r r' ∧ t.Declares r' i := by
  obtain ⟨d, hd, harity⟩ := hr.get?
  simp only [List.mem_map, mem_flattened ht.acyclic hd, harity]
  constructor
  · rintro ⟨j, ⟨m, hm, d', hd', x, hx, rfl⟩, rfl⟩
    have hstep := instantiate_step ht hr hun hm hd' (Declaration.mem_relations.mpr (Or.inl hx))
    exact ⟨r.instantiate m, steps_instantiate ht hr hun hm, d', hd', x, hx, hstep⟩
  · rintro ⟨r', hr', d', hd', x, hx, rfl⟩
    obtain ⟨m, hm, rfl⟩ := steps_of_instantiate ht hr hun hr'
    have hstep := instantiate_step ht hr hun hm hd' (Declaration.mem_relations.mpr (Or.inl hx))
    exact ⟨m.instantiate x, ⟨m, hm, d', hd', x, hx, rfl⟩, hstep⟩

/-! ### Supertypes of supertypes -/

variable {p : Profile} {l l' : List TypeRef} {b q q' : TypeRef}

theorem base?_of_below (h : BaseChain.Below t q b) : TypeSource.base? t q.symbol ≠ none := by
  obtain ⟨d, x, hd, hx, -⟩ := BaseChain.below_iff.mp h
  have hbase : TypeSource.base? t q.symbol = some x := Option.bind_eq_some_iff.mpr ⟨d, hd, hx⟩
  simp [hbase]

/-- What extends something is reached along bases only. -/
theorem above_of_steps (ht : t.Proper) (hsteps : Relation.ReflTransGen t.Step r q) (hq : BaseChain.Below t q b) :
    Relation.ReflTransGen (BaseChain.Below t) r q := by
  induction hsteps generalizing b with
  | refl => exact .refl
  | @tail c q _ hstep ih =>
    have hbase := base?_of_below hq
    obtain ⟨d, hd, x, hx, rfl⟩ := hstep
    rcases Declaration.mem_relations.mp hx with hx | hx
    · exact absurd (ht.unbased c _ ⟨d, hd, x, hx, rfl⟩) hbase
    · cases hroot : TypeSource.isRoot t x.symbol with
      | true => exact absurd (ht.root_unbased _ hroot) hbase
      | false =>
        have hc := BaseChain.below_iff.mpr ⟨d, x, hd, hx, hroot, rfl⟩
        exact (ih hc).tail hc

/-- The supertypes of a reference that stands above another one are supertypes of that one. -/
theorem mem_supertypesOf_of_steps (ht : t.Proper) (hr : t.Saturated r) (hun : t.Uncaptured r.symbol)
    (hun' : t.Uncaptured q.symbol) (hsteps : Relation.ReflTransGen t.Step r q) (hl : supertypesOf t r p = .ok l)
    (hl' : supertypesOf t q p = .ok l') (hq' : q' ∈ l') : q' ∈ l := by
  obtain ⟨m, hm, rfl⟩ := (mem_supertypesOf_iff hl').mp hq'
  refine (mem_supertypesOf_iff hl).mpr ⟨m, ?_, rfl⟩
  rcases hm with hm | hm
  · obtain ⟨c, hc, hdecl⟩ := (mem_map_flattened ht (saturated_of_steps ht hr hsteps) hun').mp hm
    exact Or.inl ((mem_map_flattened ht hr hun).mpr ⟨c, hsteps.trans hc, hdecl⟩)
  · obtain ⟨b, hb, -⟩ := Relation.TransGen.head'_iff.mp hm
    exact Or.inr (hm.trans_right (above_of_steps ht hsteps hb))

theorem hasOnlyParams_definition (h : m.hasOnlyParams = true) : m.definition.hasOnlyParams = true := by
  simp only [TypeRef.hasOnlyParams, TypeRef.isGeneric, Bool.and_eq_true] at h
  simp [TypeRef.hasOnlyParams, TypeRef.isGeneric, TypeRef.definition, TypeRef.opened, TypeRef.openArgs, TypeRef.arity,
    TypeArg.isParam, List.isEmpty_iff.not.mp (by simpa using h.1)]

theorem normalized_eq_self (h : m.normalized.hasOnlyParams = false) : m.normalized = m := by
  unfold TypeRef.normalized at h ⊢
  split
  · next hm => simp [hm, hasOnlyParams_definition hm] at h
  · rfl

/-- A supertype that is applied to more than parameters stands above the reference as it is listed. -/
theorem steps_of_mem_supertypesOf (ht : t.Proper) (hr : t.Saturated r) (hun : t.Uncaptured r.symbol)
    (hl : supertypesOf t r p = .ok l) (hq : q ∈ l) (hopen : q.hasOnlyParams = false) :
    Relation.ReflTransGen t.Step r q := by
  obtain ⟨m, hm, rfl⟩ := (mem_supertypesOf_iff hl).mp hq
  rw [normalized_eq_self hopen]
  rcases hm with hm | hm
  · obtain ⟨c, hc, hdecl⟩ := (mem_map_flattened ht hr hun).mp hm
    exact hc.tail hdecl.step
  · exact (Relation.TransGen.mono (fun _ _ => BaseChain.Below.step) r m hm).to_reflTransGen

/-! ### Supertypes of supertypes by symbol -/

theorem exists_steps (h : Relation.ReflTransGen t.Extends r.symbol s) :
    ∃ m, Relation.ReflTransGen t.Step r m ∧ m.symbol = s := by
  induction h with
  | refl => exact ⟨r, .refl, rfl⟩
  | tail _ hstep ih =>
    obtain ⟨m, hm, rfl⟩ := ih
    obtain ⟨d, hd, x, hx, rfl⟩ := hstep
    exact ⟨m.instantiate x, hm.tail ⟨d, hd, x, hx, rfl⟩, rfl⟩

/-- Whatever implements an interface above a symbol has an instance of it listed for the symbol. -/
theorem exists_mem_flattened_of_reaches (ht : t.Proper) (hd : t.get? s = some d) {c c' : Symbol}
    (hc : Relation.ReflTransGen t.Extends s c) (hi : t.Implements c c') : ∃ i ∈ t.flattened s, i.symbol = c' := by
  obtain ⟨m, hm, rfl⟩ := exists_steps (r := .opened s d.arity) hc
  obtain ⟨d', hd', x, hx, rfl⟩ := hi
  exact ⟨m.instantiate x, (mem_flattened ht.acyclic hd).mpr ⟨m, hm, d', hd', x, hx, rfl⟩, rfl⟩

/-- A supertype that extends something is a base. -/
theorem above_of_mem_supertypesOf (ht : t.Proper) (hr : t.Saturated r) (hl : supertypesOf t r p = .ok l) (hq : q ∈ l)
    (hb : BaseChain.Below t q b) : ∃ m, Relation.TransGen (BaseChain.Below t) r m ∧ m.symbol = q.symbol := by
  obtain ⟨m, hm | hm, rfl⟩ := (mem_supertypesOf_iff hl).mp hq
  · obtain ⟨i, hi, rfl⟩ := List.mem_map.mp hm
    obtain ⟨d, hd, -⟩ := hr.get?
    obtain ⟨c, -, hdecl⟩ := (mem_flattened ht.acyclic hd).mp hi
    have hbase := base?_of_below hb
    rw [symbol_normalized] at hbase
    exact absurd (ht.unbased c i hdecl) hbase
  · exact ⟨m, hm, symbol_normalized.symm⟩

theorem exists_mem_supertypesOf_mem (ht : t.Proper) (hr : t.Saturated r) (hl : supertypesOf t r p = .ok l) (hq : q ∈ l)
    (hl' : supertypesOf t q p = .ok l') (hq' : q' ∈ l') : ∃ m ∈ l, m.symbol = q'.symbol := by
  obtain ⟨m', hm', rfl⟩ := (mem_supertypesOf_iff hl').mp hq'
  rw [symbol_normalized]
  have hreach := reaches_of_mem_supertypesOf hl hq
  rcases hm' with hm' | hm'
  · obtain ⟨i, hi, rfl⟩ := List.mem_map.mp hm'
    obtain ⟨d, hd, -⟩ := hr.get?
    obtain ⟨_, -, hext⟩ := Relation.TransGen.tail'_iff.mp hreach
    obtain ⟨d', hd'⟩ := contains_iff.mp (ht.closed _ _ hext)
    obtain ⟨c, hc, d'', hd'', x, hx, rfl⟩ := (mem_flattened ht.acyclic hd').mp hi
    have hup := reaches_of_steps hc
    obtain ⟨j, hj, hs⟩ := exists_mem_flattened_of_reaches ht hd (hreach.to_reflTransGen.trans hup)
      ⟨d'', hd'', x, hx, rfl⟩
    refine ⟨(r.instantiate j).normalized, (mem_supertypesOf_iff hl).mpr ⟨_, Or.inl (List.mem_map_of_mem hj), rfl⟩, ?_⟩
    exact symbol_normalized.trans hs
  · obtain ⟨b, hb, -⟩ := Relation.TransGen.head'_iff.mp hm'
    obtain ⟨m, hm, hs⟩ := above_of_mem_supertypesOf ht hr hl hq hb
    obtain ⟨b', hb', hs'⟩ := BaseChain.exists_above hs hm'
    exact ⟨b'.normalized, (mem_supertypesOf_iff hl).mpr ⟨b', Or.inr (hm.trans hb'), rfl⟩, symbol_normalized.trans hs'⟩

end Table

namespace Universe

variable {u : Universe}

theorem arity?_linked_eq (s : Symbol) : TypeSource.arity? u.linked s = TypeSource.arity? u.declared s :=
  u.sameHeads_linked.map_get? (fun _ => rfl) s

theorem check_root : TypeSource.check u.linked ⟨root, []⟩ = .ok () := by
  obtain ⟨d, hd, hparams, -⟩ := u.get?_linked_root
  have harity : TypeSource.arity? u.linked root = some 0 :=
    Option.map_eq_some_iff.mpr ⟨d, hd, congrArg List.length hparams⟩
  exact TypeSource.checkArg_type_iff.mpr ⟨harity, by simp⟩

theorem isInterface_of_declares (hreads : ∀ p ∈ u.entries, BuildM.Reads u.declared p.1 p.2) {r i : TypeRef}
    (h : u.linked.Declares r i) : u.IsInterface i.symbol := by
  obtain ⟨d, hd, x, hx, rfl⟩ := h
  rcases contains_linked.mp (Table.contains_iff.mpr ⟨d, hd⟩) with hroot | ⟨e, he⟩
  · exact absurd ⟨d, hroot ▸ hd, x, Declaration.mem_relations.mpr (Or.inl hx), rfl⟩ not_extends_root
  · have hint := isInterface_of_mem_interfaces hreads he hd hx
    exact hint

/-- A table that was built is proper. -/
theorem Passes.proper (h : u.Passes) : u.linked.Proper where
  acyclic := acyclic_of_clear h.reads h.clear
  closed := u.closed_linked
  checked := by
    intro s d hd r hr
    rcases contains_linked.mp (Table.contains_iff.mpr ⟨d, hd⟩) with rfl | ⟨e, he⟩
    · exact absurd ⟨d, hd, r, hr, rfl⟩ not_extends_root
    · have hwritten {text : String} (hread : u.declared.parse text (some s) = .ok r) :
          TypeSource.check u.linked r = .ok () :=
        TypeSource.checkArg_of_arity? arity?_linked_eq (Table.parse_check u.holds_declared.rooted.indexed hread)
      obtain ⟨-, text, -, hread⟩ | ⟨-, ⟨text, -, hread⟩ | ⟨-, rfl⟩⟩ := relation_cases he hd hr
      · exact hwritten hread
      · exact hwritten hread
      · exact check_root
  unbased _ _ hdecl := base?_of_isInterface h.reads (isInterface_of_declares h.reads hdecl)
  root_unbased := by
    intro s hs
    have hroot : s = root := by
      by_contra hne
      rw [isRoot_linked hne] at hs
      cases hs
    obtain ⟨d, hd, -, hbase, -⟩ := u.get?_linked_root
    exact hroot ▸ (congrArg (Option.bind · Declaration.base?) hd).trans hbase

/-! ### Supertypes without bases -/

variable {e : Entry} {s : Symbol} {path : List Symbol} {as : List TypeArg}

theorem listing_root : u.linked.listing path ⟨root, as⟩ = [] := by
  obtain ⟨d, hd, -, hbase, hinterfaces, -⟩ := u.get?_linked_root
  by_cases hp : root ∈ path
  · exact Table.listing_of_mem hp
  · rw [Table.listing_eq hd hp, hbase, hinterfaces]
    rfl

theorem listing_of_base?_eq_none (he : (e, s) ∈ u.entries) (hb : e.base? = none) (hp : s ∉ path) :
    u.linked.listing path ⟨s, as⟩ = (e.interfaces.filterMap (read? u.declared s)).flatMap fun i =>
      TypeRef.instantiate ⟨s, as⟩ i :: u.linked.listing (s :: path) (TypeRef.instantiate ⟨s, as⟩ i) := by
  obtain ⟨d, hd, -, -, hinterfaces, hbase⟩ := get?_linked he
  rw [Table.listing_eq hd hp, hinterfaces, hbase, hb]
  split
  · have hroot := @listing_root u (s :: path) []
    simpa [TypeRef.instantiate, TypeRef.substitute, TypeArg.substituteAll] using hroot
  · simp

theorem next?_of_base?_eq_none (he : (e, s) ∈ u.entries) (hb : e.base? = none) :
    BaseChain.next? u.linked ⟨s, as⟩ = none := by
  refine Option.eq_none_iff_forall_ne_some.mpr fun b hbelow => ?_
  obtain ⟨d, x, hd, hx, hroot, -⟩ := BaseChain.below_iff.mp hbelow
  obtain ⟨text, htext, -⟩ | ⟨-, rfl⟩ := base_cases he hd hx
  · cases hb.symm.trans htext
  · obtain ⟨d₀, hd₀, -, -, -, hisRoot⟩ := u.get?_linked_root
    simp [TypeSource.isRoot, hd₀, hisRoot] at hroot

/-- The supertypes of a type that names no base are its interfaces. -/
theorem supertypesOf_of_base?_eq_none (hac : u.linked.Acyclic) (hsize : u.linked.size ≤ Profile.ceiling)
    (he : (e, s) ∈ u.entries) (hb : e.base? = none) :
    supertypesOf u.linked ⟨s, as⟩ .unbounded =
      .ok ((Table.addNew [] (u.linked.listing [] (.opened s e.params.length))).map fun i =>
        (TypeRef.instantiate ⟨s, as⟩ i).normalized) := by
  obtain ⟨d, hd, harity, -⟩ := get?_linked he
  have hrank : u.linked.rank s ≤ Profile.ceiling :=
    Nat.le_trans (Table.rank_le_size (by rw [size_linked]; omega)) hsize
  obtain ⟨l, hl⟩ := @supertypesOf_of_rank u.linked ⟨s, as⟩ .unbounded hac u.closed_linked hrank (Nat.le_refl _)
  obtain ⟨found, hf, -, rfl⟩ := supertypesOf_eq_ok hl
  cases Table.interfacesWithin_eq_flattened hf
  rw [hl, BaseChain.above, BaseChain.climb_of_end (next?_of_base?_eq_none he hb), Table.flattened, hd]
  simp [harity]

/-! ### A universe with borrowed parameters -/

/-- `A` implements the open definition of `I`, and `J`, which is above `I`, mentions it in an argument. -/
def borrowed : Universe :=
  ⟨[{ name := "A", kind := .cls, interfaces := ["I<>"] },
    { name := "B", kind := .cls, interfaces := ["I<A>"] },
    { name := "I", kind := .interface, params := ["T"], interfaces := ["J<T>"] },
    { name := "J", kind := .interface, params := ["T"], interfaces := ["L<I<>>", "L<L<T>>"] },
    { name := "L", kind := .interface, params := ["T"] }]⟩

open Expression in
theorem parse_borrowed : borrowed.declared.parse "I<>" (some ⟨2⟩) = .ok (.opened ⟨4⟩ 1) ∧
    borrowed.declared.parse "I<A>" (some ⟨3⟩) = .ok ⟨⟨4⟩, [.type ⟨2⟩ []]⟩ ∧
    borrowed.declared.parse "J<T>" (some ⟨4⟩) = .ok ⟨⟨5⟩, [.param ⟨⟨4⟩, 0⟩]⟩ ∧
    borrowed.declared.parse "L<I<>>" (some ⟨5⟩) = .ok ⟨⟨6⟩, [(TypeRef.opened ⟨4⟩ 1).toArg]⟩ ∧
    borrowed.declared.parse "L<L<T>>" (some ⟨5⟩) = .ok ⟨⟨6⟩, [.type ⟨6⟩ [.param ⟨⟨5⟩, 0⟩]]⟩ := by
  have hreg : ∀ e ∈ borrowed.types, FullName.Regular e.fullName := by decide
  have hA := @resolve_declared borrowed ⟨2⟩ hreg "A" 0 (by decide)
  have hI := @resolve_declared borrowed ⟨4⟩ hreg "I" 1 (by decide)
  have hJ := @resolve_declared borrowed ⟨5⟩ hreg "J" 1 (by decide)
  have hL := @resolve_declared borrowed ⟨6⟩ hreg "L" 1 (by decide)
  have hA' (last : Nat) : Context.param? ⟨borrowed.declared, some ⟨3⟩, last⟩ "A" = none :=
    (param?_declared (mem_entries borrowed 1 rfl) last "A").trans (by decide)
  have hT (last : Nat) : Context.param? ⟨borrowed.declared, some ⟨4⟩, last⟩ "T" = some ⟨⟨4⟩, 0⟩ :=
    (param?_declared (mem_entries borrowed 2 rfl) last "T").trans (by decide)
  have hT' (last : Nat) : Context.param? ⟨borrowed.declared, some ⟨5⟩, last⟩ "T" = some ⟨⟨5⟩, 0⟩ :=
    (param?_declared (mem_entries borrowed 3 rfl) last "T").trans (by decide)
  refine ⟨?_, ?_, ?_, ?_, ?_⟩
  · have htok : tokenize 1 "I<>".toList = .ok [⟨.word "I", 1⟩, ⟨.less, 2⟩, ⟨.greater, 3⟩] := by decide +kernel
    exact Table.parse_of_reads htok (Context.reads_open (hI _ _ _))
  · have htok : tokenize 1 "I<A>".toList = .ok [⟨.word "I", 1⟩, ⟨.less, 2⟩, ⟨.word "A", 3⟩, ⟨.greater, 4⟩] := by
      decide +kernel
    exact Table.parse_of_reads htok (Context.reads_applied (hI _ _ _)
      (Context.reads_bare (by simp) (Context.bare_type (hA' _) (hA _ _ _))))
  · have htok : tokenize 1 "J<T>".toList = .ok [⟨.word "J", 1⟩, ⟨.less, 2⟩, ⟨.word "T", 3⟩, ⟨.greater, 4⟩] := by
      decide +kernel
    exact Table.parse_of_reads htok (Context.reads_applied (hJ _ _ _)
      (Context.reads_bare (by simp) (Context.bare_param (hT _))))
  · have htok : tokenize 1 "L<I<>>".toList =
        .ok [⟨.word "L", 1⟩, ⟨.less, 2⟩, ⟨.word "I", 3⟩, ⟨.less, 4⟩, ⟨.greater, 5⟩, ⟨.greater, 6⟩] := by decide +kernel
    exact Table.parse_of_reads htok (Context.reads_applied (hL _ _ _) (Context.reads_open (hI _ _ _)))
  · have htok : tokenize 1 "L<L<T>>".toList =
        .ok [⟨.word "L", 1⟩, ⟨.less, 2⟩, ⟨.word "L", 3⟩, ⟨.less, 4⟩, ⟨.word "T", 5⟩, ⟨.greater, 6⟩, ⟨.greater, 7⟩] := by
      decide +kernel
    exact Table.parse_of_reads htok (Context.reads_applied (hL _ _ _) (Context.reads_applied (hL _ _ _)
      (Context.reads_bare (by simp) (Context.bare_param (hT' _)))))

theorem build_borrowed : borrowed.build.value = .ok borrowed.linked := by
  obtain ⟨h₁, h₂, h₃, h₄, h₅⟩ := parse_borrowed
  have hI : borrowed.IsInterface ⟨4⟩ := ⟨_, mem_entries borrowed 2 rfl, rfl⟩
  have hJ : borrowed.IsInterface ⟨5⟩ := ⟨_, mem_entries borrowed 3 rfl, rfl⟩
  have hL : borrowed.IsInterface ⟨6⟩ := ⟨_, mem_entries borrowed 4 rfl, rfl⟩
  refine build_of_interfaces (by rw [size_linked]; decide) (by decide +kernel) (by decide) (by decide) (by decide)
    (fun s => 6 - s.id) fun e s he text htext => ?_
  have hwritten : ∀ p ∈ borrowed.entries, ∀ text ∈ p.1.interfaces,
      (p.2, text) ∈ [(⟨2⟩, "I<>"), (⟨3⟩, "I<A>"), (⟨4⟩, "J<T>"), (⟨5⟩, "L<I<>>"), (⟨5⟩, "L<L<T>>")] := by decide
  have hmem := hwritten (e, s) he text htext
  simp only [List.mem_cons, Prod.mk.injEq, List.not_mem_nil, or_false] at hmem
  obtain ⟨rfl, rfl⟩ | ⟨rfl, rfl⟩ | ⟨rfl, rfl⟩ | ⟨rfl, rfl⟩ | ⟨rfl, rfl⟩ := hmem
  · exact ⟨_, h₁, hI, by decide⟩
  · exact ⟨_, h₂, hI, by decide⟩
  · exact ⟨_, h₃, hJ, by decide⟩
  · exact ⟨_, h₄, hL, by decide⟩
  · exact ⟨_, h₅, hL, by decide⟩

theorem listing_borrowed_L {path : List Symbol} {as : List TypeArg} (hp : ⟨6⟩ ∉ path) :
    borrowed.linked.listing path ⟨⟨6⟩, as⟩ = [] :=
  listing_of_base?_eq_none (mem_entries borrowed 4 rfl) rfl hp

theorem listing_borrowed_J {path : List Symbol} {a : TypeArg} (hp : ⟨5⟩ ∉ path) (hp' : ⟨6⟩ ∉ path) :
    borrowed.linked.listing path ⟨⟨5⟩, [a]⟩ = [⟨⟨6⟩, [.type ⟨4⟩ [.param ⟨⟨4⟩, 0⟩]]⟩, ⟨⟨6⟩, [.type ⟨6⟩ [a]]⟩] := by
  obtain ⟨-, -, -, h₄, h₅⟩ := parse_borrowed
  have hL {as : List TypeArg} := @listing_borrowed_L (⟨5⟩ :: path) as (by simpa using hp')
  rw [listing_of_base?_eq_none (mem_entries borrowed 3 rfl) rfl hp]
  simp [read?_eq_some.mpr h₄, read?_eq_some.mpr h₅, TypeRef.instantiate, TypeRef.substitute, TypeArg.substituteAll,
    TypeArg.substitute, TypeRef.toArg, TypeRef.opened, TypeRef.openArgs, hL]

theorem listing_borrowed_I {path : List Symbol} {a : TypeArg} (hp : ⟨4⟩ ∉ path) (hp' : ⟨5⟩ ∉ path) (hp'' : ⟨6⟩ ∉ path) :
    borrowed.linked.listing path ⟨⟨4⟩, [a]⟩ =
      [⟨⟨5⟩, [a]⟩, ⟨⟨6⟩, [.type ⟨4⟩ [.param ⟨⟨4⟩, 0⟩]]⟩, ⟨⟨6⟩, [.type ⟨6⟩ [a]]⟩] := by
  obtain ⟨-, -, h₃, -⟩ := parse_borrowed
  have hJ := @listing_borrowed_J (⟨4⟩ :: path) a (by simpa using hp') (by simpa using hp'')
  rw [listing_of_base?_eq_none (mem_entries borrowed 2 rfl) rfl hp]
  simp [read?_eq_some.mpr h₃, TypeRef.instantiate, TypeRef.substitute, TypeArg.substituteAll, TypeArg.substitute, hJ]

theorem supertypesOf_borrowed {i : Nat} {e : Entry} {as : List TypeArg} {l : List TypeRef}
    (he : borrowed.types[i]? = some e) (hl : borrowed.linked.listing [] (.opened ⟨i + 2⟩ e.params.length) = l) :
    supertypesOf borrowed.linked ⟨⟨i + 2⟩, as⟩ .unbounded =
      .ok ((Table.addNew [] l).map fun j => (TypeRef.instantiate ⟨⟨i + 2⟩, as⟩ j).normalized) := by
  have hbases : ∀ e ∈ borrowed.types, e.base? = none := by decide
  have hac : borrowed.linked.Acyclic := (build_eq_ok build_borrowed).1.proper.acyclic
  rw [supertypesOf_of_base?_eq_none hac (by rw [size_linked]; decide) (mem_entries borrowed i he)
    (hbases e (List.mem_of_getElem? he)), hl]

theorem supertypesOf_borrowed_A : supertypesOf borrowed.linked ⟨⟨2⟩, []⟩ .unbounded =
    .ok [.opened ⟨4⟩ 1, .opened ⟨5⟩ 1, ⟨⟨6⟩, [.type ⟨4⟩ [.param ⟨⟨4⟩, 0⟩]]⟩, ⟨⟨6⟩, [.type ⟨6⟩ [.param ⟨⟨4⟩, 0⟩]]⟩] := by
  have hA : borrowed.linked.listing [] ⟨⟨2⟩, []⟩ = [⟨⟨4⟩, [.param ⟨⟨4⟩, 0⟩]⟩, ⟨⟨5⟩, [.param ⟨⟨4⟩, 0⟩]⟩,
      ⟨⟨6⟩, [.type ⟨4⟩ [.param ⟨⟨4⟩, 0⟩]]⟩, ⟨⟨6⟩, [.type ⟨6⟩ [.param ⟨⟨4⟩, 0⟩]]⟩] := by
    have hI := @listing_borrowed_I [⟨2⟩] (.param ⟨⟨4⟩, 0⟩) (by decide) (by decide) (by decide)
    rw [listing_of_base?_eq_none (mem_entries borrowed 0 rfl) rfl List.not_mem_nil]
    simp [read?_eq_some.mpr parse_borrowed.1, TypeRef.instantiate, TypeRef.substitute, TypeArg.substituteAll,
      TypeArg.substitute, TypeRef.opened, TypeRef.openArgs, hI]
  exact @supertypesOf_borrowed 0 _ [] _ rfl hA

theorem supertypesOf_borrowed_B : supertypesOf borrowed.linked ⟨⟨3⟩, []⟩ .unbounded =
    .ok [⟨⟨4⟩, [.type ⟨2⟩ []]⟩, ⟨⟨5⟩, [.type ⟨2⟩ []]⟩, ⟨⟨6⟩, [.type ⟨4⟩ [.param ⟨⟨4⟩, 0⟩]]⟩,
      ⟨⟨6⟩, [.type ⟨6⟩ [.type ⟨2⟩ []]]⟩] := by
  have hB : borrowed.linked.listing [] ⟨⟨3⟩, []⟩ = [⟨⟨4⟩, [.type ⟨2⟩ []]⟩, ⟨⟨5⟩, [.type ⟨2⟩ []]⟩,
      ⟨⟨6⟩, [.type ⟨4⟩ [.param ⟨⟨4⟩, 0⟩]]⟩, ⟨⟨6⟩, [.type ⟨6⟩ [.type ⟨2⟩ []]]⟩] := by
    have hI := @listing_borrowed_I [⟨3⟩] (.type ⟨2⟩ []) (by decide) (by decide) (by decide)
    rw [listing_of_base?_eq_none (mem_entries borrowed 1 rfl) rfl List.not_mem_nil]
    simp [read?_eq_some.mpr parse_borrowed.2.1, TypeRef.instantiate, TypeRef.substitute, TypeArg.substituteAll,
      TypeArg.substitute, hI]
  exact @supertypesOf_borrowed 1 _ [] _ rfl hB

theorem supertypesOf_borrowed_I : supertypesOf borrowed.linked ⟨⟨4⟩, [.type ⟨2⟩ []]⟩ .unbounded =
    .ok [⟨⟨5⟩, [.type ⟨2⟩ []]⟩, ⟨⟨6⟩, [.type ⟨4⟩ [.type ⟨2⟩ []]]⟩, ⟨⟨6⟩, [.type ⟨6⟩ [.type ⟨2⟩ []]]⟩] :=
  @supertypesOf_borrowed 2 _ [.type ⟨2⟩ []] _ rfl (listing_borrowed_I (by simp) (by simp) (by simp))

theorem supertypesOf_borrowed_J (a : TypeArg) : supertypesOf borrowed.linked ⟨⟨5⟩, [a]⟩ .unbounded =
    .ok [⟨⟨6⟩, [.type ⟨4⟩ [.param ⟨⟨4⟩, 0⟩]]⟩, ⟨⟨6⟩, [.type ⟨6⟩ [a]]⟩] :=
  @supertypesOf_borrowed 3 _ [a] _ rfl (listing_borrowed_J (by simp) (by simp))

/-- Nothing above `J` mentions the parameter of `J`: only `L` is above it. -/
theorem uncaptured_borrowed_J : borrowed.linked.Uncaptured ⟨5⟩ := by
  have hL {d : Declaration} (hd : borrowed.linked.get? ⟨6⟩ = some d) (x : TypeRef) : x ∉ d.relations := by
    intro hx
    obtain ⟨-, text, htext, -⟩ | ⟨-, ⟨text, htext, -⟩ | ⟨hcls, -⟩⟩ :=
      relation_cases (mem_entries borrowed 4 rfl) hd hx
    · cases htext
    · cases htext
    · cases hcls
  have hJ {q : Symbol} (h : borrowed.linked.Extends ⟨5⟩ q) : q = ⟨6⟩ := by
    obtain ⟨d, hd, r, hr, rfl⟩ := h
    obtain ⟨-, -, -, h₄, h₅⟩ := parse_borrowed
    obtain ⟨-, text, htext, hread⟩ | ⟨-, ⟨text, htext, -⟩ | ⟨hcls, -⟩⟩ :=
      relation_cases (mem_entries borrowed 3 rfl) hd hr
    · rcases List.mem_pair.mp htext with rfl | rfl
      · cases h₄.symm.trans hread
        rfl
      · cases h₅.symm.trans hread
        rfl
    · cases htext
    · cases hcls
  intro q hq d hd x hx
  obtain ⟨c, hc, hcq⟩ := Relation.TransGen.head'_iff.mp hq
  cases hJ hc
  rcases Relation.ReflTransGen.cases_head hcq with rfl | ⟨c', ⟨d', hd', x', hx', -⟩, -⟩
  · exact absurd hx (hL hd x)
  · exact absurd hx' (hL hd' x')

theorem check_borrowed : TypeSource.check borrowed.linked ⟨⟨2⟩, []⟩ = .ok () ∧
    TypeSource.check borrowed.linked ⟨⟨3⟩, []⟩ = .ok () ∧
    TypeSource.check borrowed.linked ⟨⟨4⟩, [.type ⟨2⟩ []]⟩ = .ok () := by
  have hA := arity?_linked (mem_entries borrowed 0 rfl)
  have hB := arity?_linked (mem_entries borrowed 1 rfl)
  have hI := arity?_linked (mem_entries borrowed 2 rfl)
  simp [TypeSource.check, TypeRef.toArg, TypeSource.checkArg_type_iff, hA, hB, hI]

end Universe

open Universe

/-- In a table that was built, the supertypes of a supertype are listed by symbol. They are listed as they are unless
    parameters are captured, or the supertype is an open definition that was put in place of another reference. -/
theorem mem_supertypesOf_trans (u : Universe) (t : Table) (hbuild : u.build.value = .ok t) (p : Profile)
    (r q q' : TypeRef) (l l' : List TypeRef) (hr : TypeSource.check t r = .ok ()) (hl : supertypesOf t r p = .ok l)
    (hq : q ∈ l) (hl' : supertypesOf t q p = .ok l') (hq' : q' ∈ l') :
    (∃ m ∈ l, m.symbol = q'.symbol) ∧
      (t.Uncaptured r.symbol → t.Uncaptured q.symbol → (q.hasOnlyParams = true → Relation.ReflTransGen t.Step r q) →
        q' ∈ l) := by
  obtain ⟨hpass, rfl⟩ := build_eq_ok hbuild
  have hr := Table.saturated_of_check hr
  refine ⟨Table.exists_mem_supertypesOf_mem hpass.proper hr hl hq hl' hq', fun hun hun' hsteps => ?_⟩
  have hup : Relation.ReflTransGen u.linked.Step r q := by
    cases hopen : q.hasOnlyParams with
    | true => exact hsteps hopen
    | false => exact Table.steps_of_mem_supertypesOf hpass.proper hr hun hl hq hopen
  exact Table.mem_supertypesOf_of_steps hpass.proper hr hun hun' hup hl hl' hq'

/-- `L<L<A>>` is above `J<A>`, and it is above `B`. -/
theorem mem_supertypesOf_trans_borrowed :
    ∃ l l', supertypesOf borrowed.linked ⟨⟨3⟩, []⟩ .unbounded = .ok l ∧ ⟨⟨5⟩, [.type ⟨2⟩ []]⟩ ∈ l ∧
      supertypesOf borrowed.linked ⟨⟨5⟩, [.type ⟨2⟩ []]⟩ .unbounded = .ok l' ∧
      ⟨⟨6⟩, [.type ⟨6⟩ [.type ⟨2⟩ []]]⟩ ∈ l' ∧ ⟨⟨6⟩, [.type ⟨6⟩ [.type ⟨2⟩ []]]⟩ ∈ l := by
  have hB := supertypesOf_borrowed_B
  have hJ := supertypesOf_borrowed_J (.type ⟨2⟩ [])
  have hproper := (build_eq_ok build_borrowed).1.proper
  have hun : borrowed.linked.Uncaptured ⟨3⟩ :=
    hproper.uncaptured_of_arity_zero (arity?_linked (mem_entries borrowed 1 rfl))
  refine ⟨_, _, hB, by decide, hJ, by decide, ?_⟩
  exact (mem_supertypesOf_trans borrowed borrowed.linked build_borrowed .unbounded _ _ _ _ _ check_borrowed.2.1 hB
    (by decide) hJ (by decide)).2 hun uncaptured_borrowed_J fun hopen => absurd hopen (by decide)

/-- A supertype of a supertype is missing from the supertypes of a reference without parameters. -/
def Table.Gap (t : Table) (r q q' : TypeRef) : Prop :=
  TypeSource.check t r = .ok () ∧ r.mentionsParam = false ∧ ∃ l l', supertypesOf t r .unbounded = .ok l ∧ q ∈ l ∧
    supertypesOf t q .unbounded = .ok l' ∧ q' ∈ l' ∧ q' ∉ l

/-- `A` lists `J<>`, though `L<L<T>>` with the parameter of `I` and not that of `J`. `I<A>` lists `L<I<A>>`, where
    `J<A>` above it and `B` below it list `L<I<>>`. -/
theorem gaps_borrowed :
    borrowed.build.value = .ok borrowed.linked ∧
      borrowed.linked.Gap ⟨⟨2⟩, []⟩ (.opened ⟨5⟩ 1) ⟨⟨6⟩, [.type ⟨6⟩ [.param ⟨⟨5⟩, 0⟩]]⟩ ∧
      borrowed.linked.Gap ⟨⟨4⟩, [.type ⟨2⟩ []]⟩ ⟨⟨5⟩, [.type ⟨2⟩ []]⟩ ⟨⟨6⟩, [(TypeRef.opened ⟨4⟩ 1).toArg]⟩ ∧
      borrowed.linked.Gap ⟨⟨3⟩, []⟩ ⟨⟨4⟩, [.type ⟨2⟩ []]⟩ ⟨⟨6⟩, [.type ⟨4⟩ [.type ⟨2⟩ []]]⟩ := by
  obtain ⟨hA, hB, hI⟩ := check_borrowed
  refine ⟨build_borrowed, ⟨hA, by decide, _, _, supertypesOf_borrowed_A, by decide, supertypesOf_borrowed_J _, ?_⟩,
    ⟨hI, by decide, _, _, supertypesOf_borrowed_I, by decide, supertypesOf_borrowed_J _, ?_⟩,
    ⟨hB, by decide, _, _, supertypesOf_borrowed_B, by decide, supertypesOf_borrowed_I, ?_⟩⟩
  · decide
  · decide
  · decide

end Nominal
