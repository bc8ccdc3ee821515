import Nominal.Proofs.Declared

/-! Which universes have a table: those whose types are declared properly and once, whose bases and interfaces read as
    such, and in which no type is above itself. A cycle of bases and interfaces runs along bases only or along
    interfaces only, for interfaces have no bases; the climb along the bases finds the ones, and the others bring a
    symbol among its own interfaces. -/

namespace Nominal

namespace Universe

variable {u : Universe} {t : Table} {e : Entry} {s s' : Symbol} {d : Declaration}

open BuildM

/-! ### The linked types -/

theorem nodup_entries : (u.entries.map Prod.snd).Nodup := by
  have h : u.entries.map Prod.snd = (List.range' 2 u.types.length).map Symbol.mk := by
    rw [← List.zipIdx_map_snd, entries, numbered, List.map_map, List.map_map]
    rfl
  rw [h]
  exact List.Nodup.map (fun _ _ h => Symbol.mk.inj h) List.nodup_range'

theorem entry_unique {e' : Entry} (h : (e, s) ∈ u.entries) (h' : (e', s) ∈ u.entries) : e' = e := by
  have hi := (mem_numbered.mp h).2
  have hi' := (mem_numbered.mp h').2
  exact Option.some.inj (hi'.symm.trans hi)

theorem ne_root_of_mem (h : (e, s) ∈ u.entries) : s ≠ root := by
  have hle := (mem_numbered.mp h).1
  rintro rfl
  exact absurd hle (by decide)

/-- Updates of different symbols do not meet. -/
theorem get?_foldl_update {f : Entry → Symbol → Declaration → Declaration} (l : List (Entry × Symbol))
    (hnd : (l.map Prod.snd).Nodup) (t : Table) :
    (∀ e s, (e, s) ∈ l → (l.foldl (fun t p => t.update p.2 (f p.1 p.2)) t).get? s = (t.get? s).map (f e s)) ∧
      ∀ s, s ∉ l.map Prod.snd → (l.foldl (fun t p => t.update p.2 (f p.1 p.2)) t).get? s = t.get? s := by
  induction l generalizing t with
  | nil => simp
  | cons p l ih =>
    rw [List.map_cons, List.nodup_cons] at hnd
    obtain ⟨hmem, hout⟩ := ih hnd.2 (t.update p.2 (f p.1 p.2))
    refine ⟨fun e s hs => ?_, fun s hs => ?_⟩
    · rw [List.foldl_cons]
      rcases List.mem_cons.mp hs with rfl | hs
      · rw [hout _ hnd.1, Table.get?_update, if_pos rfl]
      · have hne : s ≠ p.2 := fun h => hnd.1 (h ▸ List.mem_map_of_mem hs)
        rw [hmem e s hs, Table.get?_update, if_neg hne]
    · rw [List.map_cons, List.mem_cons, not_or] at hs
      rw [List.foldl_cons, hout s hs.2, Table.get?_update, if_neg hs.1]

/-- The declaration of a type, after its base and interfaces are read. -/
theorem get?_linked (h : (e, s) ∈ u.entries) :
    ∃ d, u.linked.get? s = some d ∧ d.arity = e.params.length ∧ d.isRoot = false ∧
      d.interfaces = e.interfaces.filterMap (read? u.declared s) ∧
      d.base? = (e.base?.bind (read? u.declared s) <|> if e.kind = .cls then some ⟨root, []⟩ else none) := by
  obtain ⟨d, hd, hheads⟩ := u.holds_declared.new e s h
  have hget := (get?_foldl_update (f := fun e s => e.link u.declared s) u.entries nodup_entries u.declared).1 e s h
  have hlen := congrArg List.length hheads.params
  rw [List.length_map, List.length_map] at hlen
  have hinterfaces : (e.link u.declared s d).interfaces =
      d.interfaces ++ e.interfaces.filterMap (read? u.declared s) := rfl
  have hbase : (e.link u.declared s d).base? = (e.base?.bind (read? u.declared s) <|> d.base?) := rfl
  refine ⟨e.link u.declared s d, by rw [linked, hget, hd, Option.map_some], hlen, hheads.isRoot, ?_, ?_⟩
  · rw [hinterfaces, hheads.interfaces, List.nil_append]
  · rw [hbase, hheads.base?]

theorem get?_linked_root : ∃ d, u.linked.get? root = some d ∧ d.params = [] ∧ d.base? = none ∧ d.interfaces = [] ∧
    d.isRoot = true := by
  obtain ⟨d, hd, -, hparams, hbase, hinterfaces, hroot⟩ := u.holds_declared.rooted.declaration
  refine ⟨d, ?_, hparams, hbase, hinterfaces, hroot⟩
  have hout : root ∉ u.entries.map Prod.snd := by
    intro h
    obtain ⟨⟨e, s⟩, hes, hs⟩ := List.mem_map.mp h
    exact ne_root_of_mem hes hs
  rw [linked, (get?_foldl_update u.entries nodup_entries u.declared).2 root hout, hd]

theorem contains_linked : u.linked.contains s = true ↔ s = root ∨ ∃ e, (e, s) ∈ u.entries := by
  constructor
  · intro h
    rw [u.sameHeads_linked.contains] at h
    rcases u.holds_declared.only s h with h | h
    · exact Or.inl (contains_rooted h)
    · exact Or.inr h
  · rintro (rfl | ⟨e, h⟩)
    · obtain ⟨d, hd, -⟩ := u.get?_linked_root
      exact Table.contains_iff.mpr ⟨d, hd⟩
    · obtain ⟨d, hd, -⟩ := get?_linked h
      exact Table.contains_iff.mpr ⟨_, hd⟩

theorem size_linked : u.linked.size = u.types.length + 1 := by
  have hfold (es : List Entry) (t : Table) : (declareTypes t es).size = t.size + es.length := by
    induction es generalizing t with
    | nil => rfl
    | cons e es ih =>
      have hrest := ih (t.declare e.kind e.fullName e.params).1
      rw [size_declare] at hrest
      rw [declareTypes, List.foldl_cons, ← declareTypes, hrest, List.length_cons]
      omega
  rw [u.sameHeads_linked.size, declared, hfold, Nat.add_comm]
  rfl

/-! ### The graph of a universe -/

/-- The symbol belongs to an interface. -/
def IsInterface (u : Universe) (s : Symbol) : Prop := ∃ e, (e, s) ∈ u.entries ∧ e.kind = .interface

/-- The type `s` names a reference to `s'` as its base or among its interfaces. -/
def Edge (u : Universe) (s s' : Symbol) : Prop :=
  ∃ e text r, (e, s) ∈ u.entries ∧ (e.base? = some text ∨ text ∈ e.interfaces) ∧
    u.declared.parse text (some s) = .ok r ∧ r.symbol = s'

theorem isInterface_iff : isInterface u.declared s = true ↔ u.IsInterface s := by
  unfold isInterface
  constructor
  · intro h
    cases hd : u.declared.get? s with
    | none => simp [hd] at h
    | some d =>
      have hkind : d.kind = .interface := by simpa [hd] using h
      rcases u.holds_declared.only s (Table.contains_iff.mpr ⟨d, hd⟩) with hs | ⟨e, he⟩
      · obtain ⟨d', hd', hcls, -⟩ := u.holds_declared.rooted.declaration
        rw [contains_rooted hs, hd'] at hd
        cases hd
        rw [hcls] at hkind
        cases hkind
      · obtain ⟨d', hd', hheads⟩ := u.holds_declared.new e s he
        rw [hd'] at hd
        cases hd
        exact ⟨e, he, hheads.kind.symm.trans hkind⟩
  · rintro ⟨e, he, hkind⟩
    obtain ⟨d, hd, hheads⟩ := u.holds_declared.new e s he
    simp [hd, hheads.kind, hkind]

theorem not_isInterface_root : ¬u.IsInterface root := fun ⟨_, he, _⟩ => ne_root_of_mem he rfl

theorem Edge.extends (h : u.Edge s s') : u.linked.Extends s s' := by
  obtain ⟨e, text, r, he, htext, hr, hs⟩ := h
  obtain ⟨d, hd, -, -, hinterfaces, hbase⟩ := get?_linked he
  have hread := read?_eq_some.mpr hr
  refine ⟨d, hd, r, Declaration.mem_relations.mpr ?_, hs⟩
  rw [hinterfaces, hbase]
  rcases htext with hb | hi
  · exact Or.inr (by simp [hb, hread])
  · exact Or.inl (List.mem_filterMap.mpr ⟨text, hi, hread⟩)

theorem not_extends_root : ¬u.linked.Extends root s := by
  rintro ⟨d, hd, r, hr, -⟩
  obtain ⟨d', hd', -, hb, hi, -⟩ := u.get?_linked_root
  rw [hd'] at hd
  cases hd
  rw [Declaration.mem_relations, hb, hi] at hr
  simp at hr

theorem interface_cases {r : TypeRef} (he : (e, s) ∈ u.entries) (hd : u.linked.get? s = some d)
    (hr : r ∈ d.interfaces) :
    ∃ text ∈ e.interfaces, u.declared.parse text (some s) = .ok r := by
  obtain ⟨d', hd', -, -, hinterfaces, -⟩ := get?_linked he
  cases hd.symm.trans hd'
  rw [hinterfaces, List.mem_filterMap] at hr
  obtain ⟨text, htext, hread⟩ := hr
  exact ⟨text, htext, read?_eq_some.mp hread⟩

theorem base_cases {r : TypeRef} (he : (e, s) ∈ u.entries) (hd : u.linked.get? s = some d) (hr : d.base? = some r) :
    (∃ text, e.base? = some text ∧ u.declared.parse text (some s) = .ok r) ∨ (e.kind = .cls ∧ r = ⟨root, []⟩) := by
  obtain ⟨d', hd', -, -, -, hbase⟩ := get?_linked he
  cases hd.symm.trans hd'
  rw [hbase] at hr
  cases hread : e.base?.bind (read? u.declared s) with
  | some r' =>
    obtain ⟨text, htext, hread'⟩ := Option.bind_eq_some_iff.mp hread
    rw [hread] at hr
    cases hr
    exact Or.inl ⟨text, htext, read?_eq_some.mp hread'⟩
  | none =>
    rw [hread] at hr
    split at hr
    · cases hr
      exact Or.inr ⟨‹_›, rfl⟩
    · cases hr

/-- Where what stands above a type comes from: from its written interfaces, from its written base, or from its kind. -/
theorem relation_cases {r : TypeRef} (he : (e, s) ∈ u.entries) (hd : u.linked.get? s = some d) (hr : r ∈ d.relations) :
    (r ∈ d.interfaces ∧ ∃ text ∈ e.interfaces, u.declared.parse text (some s) = .ok r) ∨
      (d.base? = some r ∧
        ((∃ text, e.base? = some text ∧ u.declared.parse text (some s) = .ok r) ∨ (e.kind = .cls ∧ r = ⟨root, []⟩))) :=
  (Declaration.mem_relations.mp hr).imp (fun hi => ⟨hi, interface_cases he hd hi⟩) fun hb => ⟨hb, base_cases he hd hb⟩

/-- Above a type stand what it names, and the root if it names no base. -/
theorem extends_cases (h : u.linked.Extends s s') : u.Edge s s' ∨ s' = root := by
  obtain ⟨d, hd, r, hr, rfl⟩ := h
  rcases contains_linked.mp (Table.contains_iff.mpr ⟨d, hd⟩) with rfl | ⟨e, he⟩
  · exact absurd ⟨d, hd, r, hr, rfl⟩ not_extends_root
  · obtain ⟨-, text, htext, hread⟩ | ⟨-, ⟨text, htext, hread⟩ | ⟨-, hroot⟩⟩ := relation_cases he hd hr
    · exact Or.inl ⟨e, text, r, he, Or.inr htext, hread, rfl⟩
    · exact Or.inl ⟨e, text, r, he, Or.inl htext, hread, rfl⟩
    · exact Or.inr (congrArg TypeRef.symbol hroot)

theorem closed_linked (u : Universe) : u.linked.Closed := by
  intro s s' h
  rcases extends_cases h with ⟨e, text, r, -, -, hr, rfl⟩ | rfl
  · have hcheck := TypeSource.checkArg_type_iff.mp (Table.parse_check u.holds_declared.rooted.indexed hr)
    obtain ⟨d, hd, -⟩ := Option.map_eq_some_iff.mp hcheck.1
    rw [u.sameHeads_linked.contains]
    exact Table.contains_iff.mpr ⟨d, hd⟩
  · exact contains_linked.mpr (Or.inl rfl)

/-- The type `s` names a reference to `s'`, which is not the root, as its base or among its interfaces. -/
def Rises (u : Universe) (s s' : Symbol) : Prop := u.Edge s s' ∧ s' ≠ root

theorem rises_of_extends (h : Relation.TransGen u.linked.Extends s s') (hs : s' ≠ root) :
    Relation.TransGen u.Rises s s' := by
  induction h with
  | single hstep => exact .single ⟨(extends_cases hstep).resolve_right hs, hs⟩
  | @tail m s' _ hstep ih =>
    have hm : m ≠ root := fun h => not_extends_root (h ▸ hstep)
    exact (ih hm).tail ⟨(extends_cases hstep).resolve_right hs, hs⟩

theorem edges_of_extends (h : Relation.TransGen u.linked.Extends s s') (hs : s' ≠ root) :
    Relation.TransGen u.Edge s s' :=
  Relation.TransGen.mono (fun _ _ => And.left) s s' (rises_of_extends h hs)

theorem acyclic_linked_iff : u.linked.Acyclic ↔ ∀ s, ¬Relation.TransGen u.Edge s s := by
  constructor
  · exact fun h s hs => h s (Relation.TransGen.mono (fun _ _ => Edge.extends) s s hs)
  · intro h s hs
    obtain ⟨m, hsm, -⟩ := Relation.TransGen.head'_iff.mp hs
    exact h s (edges_of_extends hs fun hroot => not_extends_root (hroot ▸ hsm))

theorem isInterface_of_mem_interfaces (hreads : ∀ p ∈ u.entries, Reads u.declared p.1 p.2) (he : (e, s) ∈ u.entries)
    (hd : u.linked.get? s = some d) {r : TypeRef} (hr : r ∈ d.interfaces) : u.IsInterface r.symbol := by
  obtain ⟨text, htext, hread⟩ := interface_cases he hd hr
  obtain ⟨r', hr', hint⟩ := (hreads (e, s) he).2 text htext
  cases hread.symm.trans hr'
  exact isInterface_iff.mp hint

theorem base?_of_isInterface (hreads : ∀ p ∈ u.entries, Reads u.declared p.1 p.2) (h : u.IsInterface s) :
    TypeSource.base? u.linked s = none := by
  obtain ⟨e, he, hkind⟩ := h
  refine Option.eq_none_iff_forall_ne_some.mpr fun r hr => ?_
  obtain ⟨d, hd, hr⟩ := Option.bind_eq_some_iff.mp hr
  obtain ⟨text, htext, -⟩ | ⟨hcls, -⟩ := base_cases he hd hr
  · exact ((hreads (e, s) he).1 text htext).1 hkind
  · cases hkind.symm.trans hcls

/-! ### Cycles -/

/-- The symbol extends a reference to another one. -/
def Inherits (t : Table) (s s' : Symbol) : Prop := ∃ d b, t.get? s = some d ∧ d.base? = some b ∧ b.symbol = s'

/-- Interfaces are above by implementation only, and other types by extension of other types only. -/
theorem extends_kinds (hreads : ∀ p ∈ u.entries, Reads u.declared p.1 p.2) (h : u.linked.Extends s s') :
    (u.linked.Implements s s' ∧ u.IsInterface s') ∨
      (Inherits u.linked s s' ∧ ¬u.IsInterface s ∧ ¬u.IsInterface s') := by
  obtain ⟨d, hd, r, hr, rfl⟩ := h
  rcases contains_linked.mp (Table.contains_iff.mpr ⟨d, hd⟩) with rfl | ⟨e, he⟩
  · exact absurd ⟨d, hd, r, hr, rfl⟩ not_extends_root
  · obtain ⟨hbase, -⟩ := hreads (e, s) he
    have hself (hkind : e.kind ≠ .interface) : ¬u.IsInterface s := by
      rintro ⟨e', he', hk⟩
      exact hkind (entry_unique he he' ▸ hk)
    obtain ⟨hi, -⟩ | ⟨hb, ⟨text, htext, hread⟩ | ⟨hcls, hroot⟩⟩ := relation_cases he hd hr
    · exact Or.inl ⟨⟨d, hd, r, hi, rfl⟩, isInterface_of_mem_interfaces hreads he hd hi⟩
    · obtain ⟨hkind, r', hr', hint⟩ := hbase text htext
      cases hread.symm.trans hr'
      refine Or.inr ⟨⟨d, r, hd, hb, rfl⟩, hself hkind, fun h => ?_⟩
      rw [isInterface_iff.mpr h] at hint
      cases hint
    · refine Or.inr ⟨⟨d, r, hd, hb, rfl⟩, hself (by simp [hcls]), ?_⟩
      rw [hroot]
      exact not_isInterface_root

theorem inherits_of_extends (hreads : ∀ p ∈ u.entries, Reads u.declared p.1 p.2) {a b : Symbol}
    (h : Relation.TransGen u.linked.Extends a b) (hb : ¬u.IsInterface b) :
    Relation.TransGen (Inherits u.linked) a b := by
  induction h with
  | single hab =>
    obtain ⟨-, hb'⟩ | ⟨hab, -, -⟩ := extends_kinds hreads hab
    · exact absurd hb' hb
    · exact .single hab
  | @tail m b _ hmb ih =>
    obtain ⟨-, hb'⟩ | ⟨hmb, hm, -⟩ := extends_kinds hreads hmb
    · exact absurd hb' hb
    · exact (ih hm).tail hmb

theorem implements_of_extends (hreads : ∀ p ∈ u.entries, Reads u.declared p.1 p.2) {a b : Symbol}
    (h : Relation.TransGen u.linked.Extends a b) (ha : u.IsInterface a) :
    Relation.TransGen u.linked.Implements a b := by
  induction h using Relation.TransGen.head_induction_on with
  | single hab =>
    obtain ⟨hab, -⟩ | ⟨-, ha', -⟩ := extends_kinds hreads hab
    · exact .single hab
    · exact absurd ha ha'
  | head ham _ ih =>
    obtain ⟨ham, hm⟩ | ⟨-, ha', -⟩ := extends_kinds hreads ham
    · exact .head ham (ih hm)
    · exact absurd ha ha'

theorem isRoot_linked (hs : s ≠ root) : TypeSource.isRoot u.linked s = false := by
  show ((u.linked.get? s).map Declaration.isRoot).getD false = false
  cases hd : u.linked.get? s with
  | none => rfl
  | some d =>
    rcases contains_linked.mp (Table.contains_iff.mpr ⟨d, hd⟩) with h | ⟨e, he⟩
    · exact absurd h hs
    · obtain ⟨d', hd', -, hroot, -⟩ := get?_linked he
      cases hd.symm.trans hd'
      exact hroot

/-- A walk along bases from symbol to symbol is a climb from any reference to the first. -/
theorem climb_of_inherits {r : TypeRef} (h : Relation.TransGen (Inherits u.linked) r.symbol s) (hs : s ≠ root) :
    ∃ b, Relation.TransGen (BaseChain.Below u.linked) r b ∧ b.symbol = s := by
  have hstep {r : TypeRef} {s : Symbol} (h : Inherits u.linked r.symbol s) (hs : s ≠ root) :
      ∃ b, BaseChain.Below u.linked r b ∧ b.symbol = s := by
    obtain ⟨d, b, hd, hb, rfl⟩ := h
    exact ⟨r.instantiate b, BaseChain.below_iff.mpr ⟨d, b, hd, hb, isRoot_linked hs, rfl⟩, rfl⟩
  induction h with
  | single hab =>
    obtain ⟨b, hb, hbs⟩ := hstep hab hs
    exact ⟨b, .single hb, hbs⟩
  | @tail m s _ hms ih =>
    have hm : m ≠ root := by
      obtain ⟨d, b, hd, hb, -⟩ := hms
      rintro rfl
      exact not_extends_root ⟨d, hd, b, Declaration.mem_relations.mpr (Or.inr hb), rfl⟩
    obtain ⟨c, hc, rfl⟩ := ih hm
    obtain ⟨b, hb, hbs⟩ := hstep hms hs
    exact ⟨b, hc.tail hb, hbs⟩

/-! ### The third pass -/

theorem wholeTable_of_small (h : t.size < Profile.ceiling) : (wholeTable t).maxDepth = t.size + 1 :=
  Nat.min_eq_left h

theorem wholeTable_of_large (h : ¬t.size < Profile.ceiling) : wholeTable t = .unbounded := by
  unfold wholeTable Profile.unbounded
  rw [Nat.min_eq_right (by omega)]

theorem interfaces_of_clear (hs : t.contains s = true) (h : Clear t s) : t.interfaces s = t.flattened s := by
  have hok : t.interfacesWithin s .unbounded = .ok (t.flattened s) := by
    by_cases hsize : t.size < Profile.ceiling
    · exact Table.interfacesWithin_of_size hsize (Nat.le_refl _)
    · obtain ⟨d, hd⟩ := Table.contains_iff.mp hs
      obtain ⟨l, hl⟩ := h.supertypes (.opened s d.arity) (by simp [TypeSource.definition?, TypeSource.arity?, hd])
      obtain ⟨found, hfound, -, -⟩ := supertypesOf_eq_ok hl
      rw [wholeTable_of_large hsize] at hfound
      have hfound : t.interfacesWithin s .unbounded = .ok found := hfound
      rw [hfound, Table.interfacesWithin_eq_flattened hfound]
  unfold Table.interfaces
  rw [hok]

theorem acyclic_of_clear (hreads : ∀ p ∈ u.entries, Reads u.declared p.1 p.2)
    (hclear : ∀ p ∈ u.entries, Clear u.linked p.2) : u.linked.Acyclic := by
  intro s hs
  obtain ⟨m, hsm, -⟩ := Relation.TransGen.head'_iff.mp hs
  have hroot : s ≠ root := fun h => not_extends_root (h ▸ hsm)
  obtain ⟨e, he⟩ := (contains_linked.mp hsm.contains).resolve_left hroot
  have hclear : Clear u.linked s := hclear (e, s) he
  by_cases hint : u.IsInterface s
  · -- A cycle of interfaces brings the symbol among its own interfaces.
    obtain ⟨i, hi, his⟩ := Table.exists_mem_flattened (implements_of_extends hreads hs hint)
    rw [← interfaces_of_clear hsm.contains hclear] at hi
    exact hclear.interfaces i hi his
  · -- A cycle of bases brings the climb back to its start.
    obtain ⟨d, hd⟩ := Table.contains_iff.mp hsm.contains
    obtain ⟨l, hl⟩ := hclear.supertypes (.opened s d.arity) (by simp [TypeSource.definition?, TypeSource.arity?, hd])
    obtain ⟨-, -, hchain, -⟩ := supertypesOf_eq_ok hl
    obtain ⟨b, hb, hbs⟩ := climb_of_inherits (r := .opened s d.arity) (inherits_of_extends hreads hs hint) hroot
    exact BaseChain.not_mem_passed hchain hb (hbs ▸ List.mem_singleton.mpr rfl)

theorem clear_of_acyclic (hac : u.linked.Acyclic) (hsize : u.linked.size < Profile.ceiling) : Clear u.linked s := by
  refine ⟨fun r hr => ?_, fun i hi his => ?_⟩
  · refine supertypesOf_of_rank hac u.closed_linked ?_ (Nat.le_refl _)
    rw [wholeTable_of_small hsize]
    have hpos : 1 ≤ u.linked.size := by
      rw [size_linked]
      omega
    exact Nat.le_succ_of_le (Table.rank_le_size hpos)
  · have hi : i ∈ u.linked.flattened s := by
      unfold Table.interfaces at hi
      split at hi
      · rw [← Table.interfacesWithin_eq_flattened ‹_›]
        exact hi
      · simp at hi
    have hreach := Table.reaches_of_mem_flattened hi
    rw [his] at hreach
    exact hac s hreach

/-- Nothing but a cycle fails the third pass. -/
theorem supertypesOf_error {r : TypeRef} {f : Failure} (hsize : u.linked.size < Profile.ceiling)
    (hs : u.linked.contains r.symbol = true) (h : supertypesOf u.linked r (wholeTable u.linked) = .error f) :
    ∃ c, f = .inheritanceCycle c := by
  have hfound : TypeSource.interfacesWithin u.linked r.symbol (wholeTable u.linked) =
      .ok (u.linked.flattened r.symbol) :=
    Table.interfacesWithin_of_size (by rw [wholeTable_of_small hsize]; omega) (Nat.le_refl _)
  have hchain := @BaseChain.failure?_of_size u.linked (wholeTable u.linked).maxDepth
    ((wholeTable u.linked).maxDepth - 1) [r.symbol] r u.closed_linked (by simp) (by simpa using hs) (by
      rw [wholeTable_of_small hsize, List.length_singleton]
      omega)
  unfold supertypesOf Ancestry.supertypes Ancestry.ofRef at h
  rcases hchain with hchain | ⟨c, hchain⟩
  · simp [hfound, Except.map, BaseChain.above, hchain] at h
  · refine ⟨c, ?_⟩
    simpa [hfound, Except.map, BaseChain.above, hchain] using h.symm

/-! ### Well-formed universes -/

/-- Every type is declared properly and once, bases and interfaces read as such, and no type is above itself. -/
structure WellFormed (u : Universe) : Prop where
  checked : ∀ e ∈ u.types, e.check = .ok ()
  notRoot : ∀ e ∈ u.types, e.fullName ≠ Table.rootName
  nodup : (u.types.map Entry.fullName).Nodup
  unbased : ∀ e ∈ u.types, e.kind = .interface → e.base? = none
  bases : ∀ e s, (e, s) ∈ u.entries → ∀ text, e.base? = some text →
    ∃ r, u.declared.parse text (some s) = .ok r ∧ ¬u.IsInterface r.symbol
  interfaces : ∀ e s, (e, s) ∈ u.entries → ∀ text ∈ e.interfaces,
    ∃ r, u.declared.parse text (some s) = .ok r ∧ u.IsInterface r.symbol
  acyclic : ∀ s, ¬Relation.TransGen u.Edge s s

theorem mem_types_iff : e ∈ u.types ↔ ∃ s, (e, s) ∈ u.entries := by
  constructor
  · intro he
    obtain ⟨i, hi⟩ := List.mem_iff_getElem?.mp he
    exact ⟨⟨i + 2⟩, mem_numbered.mpr ⟨by simp, by simpa using hi⟩⟩
  · rintro ⟨s, hs⟩
    exact List.mem_of_getElem? (mem_numbered.mp hs).2

theorem passes_iff_wellFormed (hsize : u.linked.size < Profile.ceiling) : u.Passes ↔ u.WellFormed := by
  have hint (r : TypeRef) : isInterface u.declared r.symbol = false ↔ ¬u.IsInterface r.symbol := by
    rw [← isInterface_iff, Bool.not_eq_true]
  constructor
  · rintro ⟨⟨hchecked, hnotRoot, -, hnodup⟩, hreads, hclear⟩
    refine ⟨hchecked, hnotRoot, hnodup, fun e he hkind => ?_, fun e s he text htext => ?_, fun e s he text htext => ?_,
      acyclic_linked_iff.mp (acyclic_of_clear hreads hclear)⟩
    · obtain ⟨s, hs⟩ := mem_types_iff.mp he
      cases hb : e.base? with
      | none => rfl
      | some text => exact absurd hkind ((hreads (e, s) hs).1 text hb).1
    · obtain ⟨-, r, hr, hkind⟩ := (hreads (e, s) he).1 text htext
      exact ⟨r, hr, (hint r).mp hkind⟩
    · obtain ⟨r, hr, hkind⟩ := (hreads (e, s) he).2 text htext
      exact ⟨r, hr, isInterface_iff.mp hkind⟩
  · rintro ⟨hchecked, hnotRoot, hnodup, hunbased, hbases, hinterfaces, hacyclic⟩
    refine ⟨⟨hchecked, hnotRoot, by simp, hnodup⟩, fun ⟨e, s⟩ he => ⟨fun text htext => ⟨fun hkind => ?_, ?_⟩, ?_⟩,
      fun p _ => clear_of_acyclic (acyclic_linked_iff.mpr hacyclic) hsize⟩
    · have hnone := hunbased e (mem_types_iff.mpr ⟨s, he⟩) hkind
      rw [htext] at hnone
      cases hnone
    · obtain ⟨r, hr, hkind⟩ := hbases e s he text htext
      exact ⟨r, hr, (hint r).mpr hkind⟩
    · intro text htext
      obtain ⟨r, hr, hkind⟩ := hinterfaces e s he text htext
      exact ⟨r, hr, isInterface_iff.mpr hkind⟩

theorem build_of_wellFormed (hsize : u.linked.size < Profile.ceiling) (h : u.WellFormed) :
    u.build.value = .ok u.linked :=
  build_of_passes ((passes_iff_wellFormed hsize).mpr h)

/-- No type is above itself if every type names only types of smaller height. -/
theorem acyclic_of_height (height : Symbol → Nat) (h : ∀ s s', u.Edge s s' → height s' < height s) (s : Symbol) :
    ¬Relation.TransGen u.Edge s s := by
  have hlt {s s' : Symbol} (hs : Relation.TransGen u.Edge s s') : height s' < height s := by
    induction hs with
    | single hstep => exact h _ _ hstep
    | tail _ hstep ih => exact Nat.lt_trans (h _ _ hstep) ih
  exact fun hs => Nat.lt_irrefl _ (hlt hs)

/-- A universe without bases has a table if what is written in it reads as interfaces of smaller height. -/
theorem build_of_interfaces (hsize : u.linked.size < Profile.ceiling) (hchecked : ∀ e ∈ u.types, e.check = .ok ())
    (hroot : ∀ e ∈ u.types, e.fullName ≠ Table.rootName) (hnodup : (u.types.map Entry.fullName).Nodup)
    (hbases : ∀ e ∈ u.types, e.base? = none) (height : Symbol → Nat)
    (hreads : ∀ e s, (e, s) ∈ u.entries → ∀ text ∈ e.interfaces, ∃ r, u.declared.parse text (some s) = .ok r ∧
      u.IsInterface r.symbol ∧ height r.symbol < height s) : u.build.value = .ok u.linked := by
  refine build_of_wellFormed hsize ⟨hchecked, hroot, hnodup, fun e he _ => hbases e he, ?_, ?_, ?_⟩
  · intro e s he text htext
    cases (hbases e (mem_types_iff.mpr ⟨s, he⟩)).symm.trans htext
  · intro e s he text htext
    obtain ⟨r, hr, hint, -⟩ := hreads e s he text htext
    exact ⟨r, hr, hint⟩
  · refine acyclic_of_height height ?_
    rintro s s' ⟨e, text, r, he, htext | htext, hr, rfl⟩
    · cases (hbases e (mem_types_iff.mpr ⟨s, he⟩)).symm.trans htext
    · obtain ⟨r', hr', -, hlt⟩ := hreads e s he text htext
      cases hr.symm.trans hr'
      exact hlt

theorem arity?_linked (h : (e, s) ∈ u.entries) : TypeSource.arity? u.linked s = some e.params.length := by
  obtain ⟨d, hd, harity, -⟩ := get?_linked h
  exact Option.map_eq_some_iff.mpr ⟨d, hd, harity⟩

/-- A universe has a table if and only if it is well-formed, and no universe is turned down because a search for what is
    above its types reaches a limit. -/
theorem build_ok_iff_wellFormed (u : Universe) (h : u.types.length < UInt32.size - 2) :
    ((∃ t, u.build.value = .ok t) ↔ u.WellFormed) ∧
      ∀ name limit, u.build.value ≠ .error (.badInheritance name (.tooDeep limit)) ∧
        u.build.value ≠ .error (.badInheritance name (.exhausted limit)) := by
  have hsize : u.linked.size < Profile.ceiling := by
    rw [UInt32.size] at h
    rw [size_linked, Profile.ceiling]
    omega
  -- Whatever turns a universe down is no search that reached a limit.
  have hcases := u.build_cases
    (P := fun err => ∀ limit, err.failure? ≠ some (.tooDeep limit) ∧ err.failure? ≠ some (.exhausted limit))
    (fun err herr limit => by simp [herr])
    (fun p hp r f hr hf limit => by
      have hs : u.linked.contains r.symbol = true := by
        obtain ⟨n, -, rfl⟩ := Option.map_eq_some_iff.mp hr
        exact contains_linked.mpr (Or.inr ⟨p.1, hp⟩)
      obtain ⟨c, rfl⟩ := supertypesOf_error hsize hs hf
      simp [UniverseError.failure?])
  rw [← passes_iff_wellFormed hsize]
  rcases hcases with ⟨hpass, hok⟩ | ⟨hpass, err, herr, hlimit⟩
  · refine ⟨⟨fun _ => hpass, fun _ => ⟨_, hok⟩⟩, fun name limit => ?_⟩
    simp [hok]
  · refine ⟨⟨fun ⟨t, ht⟩ => ?_, fun h => absurd h hpass⟩, fun name limit => ?_⟩
    · rw [herr] at ht
      cases ht
    · rw [herr]
      have hl := hlimit limit
      constructor
      · rintro ⟨⟩
        exact hl.1 rfl
      · rintro ⟨⟩
        exact hl.2 rfl

/-- Two interfaces, each of which lists the other. -/
def mutualInterfaces : Universe :=
  ⟨[{ name := "A", kind := .interface, interfaces := ["B"] }, { name := "B", kind := .interface, interfaces := ["A"] }]⟩

/-- An interface, a class that implements it, and a container that extends the class. -/
def crates : Universe :=
  ⟨[{ name := "IItem", kind := .interface }, { name := "Item", kind := .cls, interfaces := ["IItem"] },
    { name := "Crate", kind := .cls, params := ["T"], base? := some "Item" }]⟩

theorem parse_crates : crates.declared.parse "IItem" (some ⟨3⟩) = .ok ⟨⟨2⟩, []⟩ ∧
    crates.declared.parse "Item" (some ⟨4⟩) = .ok ⟨⟨3⟩, []⟩ := by
  have hreg : ∀ e ∈ crates.types, FullName.Regular e.fullName := by decide
  exact ⟨parse_declared_bare hreg (by decide +kernel) (mem_entries crates 1 rfl) (by decide) (by decide),
    parse_declared_bare hreg (by decide +kernel) (mem_entries crates 2 rfl) (by decide) (by decide)⟩

theorem wellFormed_crates : crates.WellFormed := by
  have hbases : ∀ p ∈ crates.entries, ∀ text, p.1.base? = some text → p.2 = ⟨4⟩ ∧ text = "Item" := by decide
  have hinterfaces : ∀ p ∈ crates.entries, ∀ text ∈ p.1.interfaces, p.2 = ⟨3⟩ ∧ text = "IItem" := by decide
  obtain ⟨hinterface, hbase⟩ := parse_crates
  refine ⟨by decide +kernel, by decide, by decide, by decide, ?_, ?_, ?_⟩
  · intro e s he text htext
    obtain ⟨rfl, rfl⟩ := hbases (e, s) he text htext
    refine ⟨_, hbase, ?_⟩
    rintro ⟨e', he', hkind⟩
    cases entry_unique (mem_entries crates 1 rfl) he'
    cases hkind
  · intro e s he text htext
    obtain ⟨rfl, rfl⟩ := hinterfaces (e, s) he text htext
    exact ⟨_, hinterface, ⟨_, mem_entries crates 0 rfl, rfl⟩⟩
  · refine acyclic_of_height Symbol.id ?_
    rintro s s' ⟨e, text, r, he, htext | htext, hr, rfl⟩
    · obtain ⟨rfl, rfl⟩ := hbases (e, s) he text htext
      cases hr.symm.trans hbase
      decide
    · obtain ⟨rfl, rfl⟩ := hinterfaces (e, s) he text htext
      cases hr.symm.trans hinterface
      decide

theorem build_crates : crates.build.value = .ok crates.linked :=
  build_of_wellFormed (by rw [size_linked]; decide) wellFormed_crates

/-- The universe with a base and an interface has a table, and the one with the two interfaces has none. -/
theorem exists_build_crates_not_mutualInterfaces :
    (crates.types.length < UInt32.size - 2 ∧ ∃ t, crates.build.value = .ok t) ∧
      mutualInterfaces.types.length < UInt32.size - 2 ∧ ¬∃ t, mutualInterfaces.build.value = .ok t := by
  have hreg : ∀ e ∈ mutualInterfaces.types, FullName.Regular e.fullName := by decide
  have hA := mem_entries mutualInterfaces 0 rfl
  have hB := mem_entries mutualInterfaces 1 rfl
  have hAB : mutualInterfaces.Edge ⟨2⟩ ⟨3⟩ :=
    ⟨_, "B", _, hA, Or.inr (by decide), parse_declared_bare hreg (by decide +kernel) hA (by decide) (by decide), rfl⟩
  have hBA : mutualInterfaces.Edge ⟨3⟩ ⟨2⟩ :=
    ⟨_, "A", _, hB, Or.inr (by decide), parse_declared_bare hreg (by decide +kernel) hB (by decide) (by decide), rfl⟩
  have hbuilt := (build_ok_iff_wellFormed crates (by decide)).1.mpr wellFormed_crates
  refine ⟨⟨by decide, hbuilt⟩, by decide, fun hok => ?_⟩
  have hwf := (build_ok_iff_wellFormed mutualInterfaces (by decide)).1.mp hok
  exact hwf.acyclic ⟨2⟩ (.head hAB (.single hBA))

end Universe

end Nominal
