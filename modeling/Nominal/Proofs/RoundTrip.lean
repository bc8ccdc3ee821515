import Nominal.Proofs.Printing
import Nominal.Proofs.Reordering

/-! Reading undoes writing. In the table of a universe, every symbol is found by its full name, every parameter is found
    in the scope of its owner, and all these names are made of words. So a well-formed reference is read from its own
    text, unless a parameter in scope takes the place of a type that is written with its bare name. -/

namespace Nominal

/-! ### Names of parameters -/

theorem Table.nameOf?_of_spaceOf? {t : Table} {s : Symbol} (h : t.spaceOf? s = some "") :
    t.nameOf? s = some (t.fullName s) := by
  obtain ⟨d, hd, -⟩ := Option.map_eq_some_iff.mp h
  simp [Table.fullName, h, Table.baseName, Table.nameOf?, hd]

theorem Table.paramName?_of_paramNamed? {t : Table} {s : Symbol} {name : String} {p : Param} (hf : t.names.Faithful)
    (h : t.paramNamed? s name = some p) : p.owner = s ∧ t.paramName? p = some name := by
  simp only [Table.paramNamed?, Option.bind_eq_bind, Option.bind_eq_some_iff] at h
  obtain ⟨a, ha, d, hd, i, hi, hp⟩ := h
  cases hp
  obtain ⟨hlt, hget, -⟩ := List.idxOf?_eq_some_iff.mp hi
  have htext := (hf.get?_iff name a).mp ha
  refine ⟨rfl, ?_⟩
  have hparam : d.params[i]? = some a := by rw [List.getElem?_eq_getElem hlt, hget]
  simp [Table.paramName?, hd, hparam, NamePool.text, htext]

namespace Universe

open BuildM Expression

variable {u : Universe} {e : Entry} {s : Symbol}

theorem checkParams_ok {owner : String} {seen ps : List String} (h : checkParams owner seen ps = .ok ()) :
    (∀ p ∈ ps, isWord p = true ∧ p ∉ seen) ∧ ps.Nodup := by
  induction ps generalizing seen with
  | nil => exact ⟨nofun, .nil⟩
  | cons p ps ih =>
    rw [checkParams] at h
    split at h
    · cases h
    · split at h
      · cases h
      · rename_i hword hseen
        obtain ⟨hps, hnodup⟩ := ih h
        refine ⟨List.forall_mem_cons.mpr ⟨⟨by simpa using hword, hseen⟩, fun q hq => ?_⟩,
          List.nodup_cons.mpr ⟨?_, hnodup⟩⟩
        · exact ⟨(hps q hq).1, fun hmem => (hps q hq).2 (List.mem_cons_of_mem _ hmem)⟩
        · exact fun hmem => (hps p hmem).2 List.mem_cons_self

theorem Entry.isDottedWords_fullName (h : e.check = .ok ()) : isDottedWords e.fullName = true := by
  obtain ⟨hname, hspace, -⟩ := Entry.of_check h
  have hbare : isDottedWords e.name = true := by
    rw [isDottedWords, dotParts_of_not_mem (not_mem_of_isWord hname)]
    simpa [isWord] using hname
  unfold Entry.fullName
  cases hspace? : e.space? with
  | none => exact hbare
  | some space =>
    by_cases hempty : space = ""
    · simpa [hempty] using hbare
    · have hwords : isDottedWords space = true := by simpa [hspace?, hempty] using hspace
      simp only [hempty, if_false]
      unfold isDottedWords at hwords hbare ⊢
      simp only [String.toList_append, List.append_assoc]
      rw [show ".".toList ++ e.name.toList = '.' :: e.name.toList from rfl, dotParts_append, List.all_append, hwords,
        hbare]
      rfl

/-! ### Names of the types of a universe -/

theorem paramName?_linked (he : (e, s) ∈ u.entries) (i : Nat) : u.linked.paramName? ⟨s, i⟩ = e.params[i]? := by
  obtain ⟨d, hget, hheads⟩ := u.holds_declared.new e s he
  have htext := congrArg (·[i]?) hheads.params
  simp only [List.getElem?_map] at htext
  rw [u.sameHeads_linked.paramName?]
  cases ha : d.params[i]? with
  | none =>
    rw [ha] at htext
    simp [Table.paramName?, hget, ha, Option.map_eq_none_iff.mp htext.symm]
  | some a =>
    rw [ha] at htext
    obtain ⟨name, hname, htext⟩ := Option.map_eq_some_iff.mp htext.symm
    simp [Table.paramName?, hget, ha, NamePool.text, ← htext, hname]

/-- A type that is written without brackets is not taken for a parameter of `s`, unless it is outside of all namespaces
    and has the name of one. -/
theorem param?_fullName {q : Symbol} (hq : u.linked.contains q = true)
    (hclear : u.linked.spaceOf? q = some "" → ∀ i, u.linked.paramName? ⟨s, i⟩ ≠ u.linked.nameOf? q) :
    (Dotted.ofText (u.linked.fullName q)).param? u.linked (some s) = none := by
  obtain ⟨d, hget⟩ := Table.contains_iff.mp hq
  obtain ⟨space, hspace⟩ : ∃ space, u.linked.spaceOf? q = some space := by simp [Table.spaceOf?, hget]
  obtain ⟨name, hname⟩ : ∃ name, u.linked.nameOf? q = some name := by simp [Table.nameOf?, hget]
  have hfull : u.linked.fullName q = if space = "" then name else space ++ "." ++ name := by
    simp [Table.fullName, Table.baseName, hspace, hname]
  rw [Option.eq_none_iff_forall_ne_some]
  intro p hp
  rw [Dotted.param?, Option.ite_none_right_eq_some] at hp
  obtain ⟨hmore, hp⟩ := hp
  -- A single word has no dots, so there is no namespace in front of it.
  have hfirst := Dotted.first_ofText hmore
  have hdot := Dotted.not_mem_first_ofText (u.linked.fullName q)
  rw [hfirst, hfull] at hdot
  have hempty : space = "" := by
    by_contra hne
    simp [hne] at hdot
  rw [hfirst, hfull, if_pos hempty] at hp
  have hfaithful : u.linked.names.Faithful := by
    rw [u.sameHeads_linked.names]
    exact u.holds_declared.rooted.faithful
  obtain ⟨rfl, hcalled⟩ := Table.paramName?_of_paramNamed? hfaithful hp
  exact hclear (by rw [hspace, hempty]) p.index (hcalled.trans hname.symm)

section Names

variable (hd : Declarable [] u.types)

include hd

/-- A symbol has its own full name, which is made of words. -/
theorem fullName_cases (hs : u.linked.contains s = true) :
    (u.linked.fullName s, s) ∈ u.fullNames ∧ isDottedWords (u.linked.fullName s) = true := by
  rcases contains_linked.mp hs with rfl | ⟨e, he⟩
  · rw [fullName_linked_root]
    exact ⟨List.mem_append_right _ List.mem_cons_self, by decide +kernel⟩
  · have hcheck := hd.checked e (mem_types_iff.mpr ⟨s, he⟩)
    rw [fullName_linked (Entry.regular hcheck) he]
    refine ⟨List.mem_append_left _ (List.mem_reverse.mpr ?_), Entry.isDottedWords_fullName hcheck⟩
    exact List.mem_map.mpr ⟨(e, s), he, rfl⟩

theorem lookup?_fullName (hs : u.linked.contains s = true) : u.linked.lookup? (u.linked.fullName s) = some s := by
  have hlookup := (lookup_eq_some_iff_mem (nodup_fullNames hd)).mpr (fullName_cases hd hs).1
  rw [u.sameHeads_linked.lookup?, lookup?_declared_eq hd.checked, hlookup]
  rfl

/-- A parameter is called by a word, and found by it in the scope of its owner. -/
theorem paramNamed?_paramName {p : Param} {n : Nat} (hn : TypeSource.arity? u.linked p.owner = some n)
    (hp : p.index < n) :
    ∃ name, u.linked.paramName? p = some name ∧ isWord name = true ∧ u.linked.paramNamed? p.owner name = some p := by
  obtain ⟨s, i⟩ := p
  obtain ⟨d, hget, -⟩ := Option.map_eq_some_iff.mp hn
  rcases contains_linked.mp (Table.contains_iff.mpr ⟨d, hget⟩) with rfl | ⟨e, he⟩
  · obtain ⟨d', hget', hparams, -⟩ := u.get?_linked_root
    have hzero : TypeSource.arity? u.linked root = some 0 :=
      Option.map_eq_some_iff.mpr ⟨d', hget', congrArg List.length hparams⟩
    cases hzero.symm.trans hn
    cases hp
  · cases (arity?_linked he).symm.trans hn
    obtain ⟨hwords, hnodup⟩ := checkParams_ok (Entry.of_check (hd.checked e (mem_types_iff.mpr ⟨s, he⟩))).2.2
    have hi : i < e.params.length := hp
    refine ⟨e.params[i], ?_, (hwords _ (List.getElem_mem hi)).1, ?_⟩
    · rw [paramName?_linked he, List.getElem?_eq_getElem hi]
    · have hindex : e.params.idxOf? e.params[i] = some i := by
        refine List.idxOf?_eq_some_iff.mpr ⟨hi, rfl, fun j hj heq => ?_⟩
        exact absurd (hnodup.getElem_inj_iff.mp heq) (by omega)
      rw [u.sameHeads_linked.paramNamed?, paramNamed?_declared he, hindex]
      rfl

/-- In the table of a universe, the names in a well-formed reference lead back to where they come from. -/
theorem legible {scope? : Option Symbol} {a : TypeArg} (ha : TypeSource.checkArg u.linked a = .ok ())
    (hparams : ∀ p, TypeArg.Occurs p a → scope? = some p.owner)
    (hclear : ∀ q, TypeSource.arity? u.linked q = some 0 →
      (Dotted.ofText (u.linked.fullName q)).param? u.linked scope? = none) :
    Legible (u.linked.naming true) u.linked scope? a := by
  induction a using TypeArg.args_induction with
  | param p =>
    obtain ⟨n, hn, hp⟩ := TypeSource.checkArg_param_iff.mp ha
    obtain ⟨name, hname, hword, hfound⟩ := paramNamed?_paramName hd hn hp
    have hcalled : (u.linked.naming true).param p = name := by simp [Table.naming, hname]
    refine .param (by rw [hcalled, hword]) ?_
    rw [hparams p .param, hcalled]
    exact hfound
  | type s as ih =>
    obtain ⟨harity, has⟩ := TypeSource.checkArg_type_iff.mp ha
    obtain ⟨d, hget, hlength⟩ := Option.map_eq_some_iff.mp harity
    have hs : u.linked.contains s = true := Table.contains_iff.mpr ⟨d, hget⟩
    refine .type (fullName_cases hd hs).2 (lookup?_fullName hd hs) ?_ (fun hnil => ?_) fun a ha => ?_
    · exact congrArg (Option.getD · 0) harity
    · exact hclear s (by rw [harity, hnil]; rfl)
    · exact ih a ha (has a ha) fun p hp => hparams p (.type ha hp)

end Names

end Universe

/-- In the table of a universe, a well-formed reference with up to 128 nested lists of arguments is read from its text
    with full names: anywhere, if no parameter occurs in it, and in the scope of `s`, if only parameters of `s` do and
    none of them has the name of a type outside of all namespaces that takes no arguments. -/
theorem parse_format {u : Universe} {t : Table} (hbuild : u.build.value = .ok t) {ty : TypeRef}
    (hvalid : TypeSource.check t ty = .ok ()) (hnested : ty.toArg.brackets ≤ 128) :
    ((∀ p, ¬ TypeArg.Occurs p ty.toArg) → t.parse (t.format true ty) = .ok ty) ∧
      ∀ s, (∀ p, TypeArg.Occurs p ty.toArg → p.owner = s) →
        (∀ q, TypeSource.arity? t q = some 0 → t.spaceOf? q = some "" → ∀ i, t.paramName? ⟨s, i⟩ ≠ t.nameOf? q) →
        t.parse (t.format true ty) (some s) = .ok ty := by
  obtain ⟨hpass, rfl⟩ := Universe.build_eq_ok hbuild
  refine ⟨fun hparams => ?_, fun s hparams hclear => ?_⟩
  · refine Table.parse_render (Universe.legible hpass.declarable hvalid (fun p hp => absurd hp (hparams p)) ?_) hnested
    intro q _
    simp [Expression.Dotted.param?]
  · refine Table.parse_render (Universe.legible hpass.declarable hvalid (fun p hp => by rw [hparams p hp]) ?_) hnested
    intro q hq
    obtain ⟨d, hget, -⟩ := Option.map_eq_some_iff.mp hq
    exact Universe.param?_fullName (Table.contains_iff.mpr ⟨d, hget⟩) (hclear q hq)

/-- Types in and outside of namespaces. One has the name of a parameter of another, behind its namespace. -/
def shelves : Universe :=
  ⟨[{ name := "Item", kind := .cls }, { name := "T", space? := some "Store.Goods", kind := .cls },
    { name := "Box", space? := some "Store", kind := .cls, params := ["T"] },
    { name := "Pair", kind := .cls, params := ["K", "V"] }]⟩

open Universe in
theorem build_shelves : shelves.build.value = .ok shelves.linked := by
  refine build_of_interfaces (by rw [size_linked]; decide) (by decide +kernel) (by decide) (by decide) (by decide)
    Symbol.id fun e s he text htext => ?_
  have hnone : ∀ e ∈ shelves.types, e.interfaces = [] := by decide
  rw [hnone e (mem_types_iff.mpr ⟨s, he⟩)] at htext
  cases htext

/-- A box of pairs of what the box is for and of a type that has the name of its parameter. -/
def boxedPairs : TypeRef := ⟨⟨4⟩, [.type ⟨5⟩ [.param ⟨⟨4⟩, 0⟩, .type ⟨3⟩ []]]⟩

open Universe in
theorem check_boxedPairs : TypeSource.check shelves.linked boxedPairs = .ok () := by
  have hgoods := arity?_linked (mem_entries shelves 1 rfl)
  have hbox := arity?_linked (mem_entries shelves 2 rfl)
  have hpair := arity?_linked (mem_entries shelves 3 rfl)
  simp only [TypeSource.check, boxedPairs, TypeRef.toArg, TypeSource.checkArg_type_iff, TypeSource.checkArg_param_iff,
    List.forall_mem_cons]
  exact ⟨hbox, ⟨hpair, ⟨1, hbox, by decide⟩, ⟨hgoods, List.forall_mem_nil _⟩, List.forall_mem_nil _⟩,
    List.forall_mem_nil _⟩

open Universe in
theorem format_boxedPairs : shelves.linked.format true boxedPairs = "Store.Box<Pair<T, Store.Goods.T>>" := by
  have hgoods : shelves.linked.fullName ⟨3⟩ = "Store.Goods.T" := fullName_linked (by decide) (mem_entries shelves 1 rfl)
  have hbox : shelves.linked.fullName ⟨4⟩ = "Store.Box" := fullName_linked (by decide) (mem_entries shelves 2 rfl)
  have hpair : shelves.linked.fullName ⟨5⟩ = "Pair" := fullName_linked (by decide) (mem_entries shelves 3 rfl)
  have hparam : shelves.linked.paramName? ⟨⟨4⟩, 0⟩ = some "T" := paramName?_linked (mem_entries shelves 2 rfl) 0
  simp only [Table.format, TypeRef.render, boxedPairs, TypeRef.toArg, TypeArg.render, TypeArg.renderRest, Table.naming,
    if_true, hgoods, hbox, hpair, hparam]
  decide

open Universe in
theorem parse_format_shelves :
    shelves.build.value = .ok shelves.linked ∧ TypeSource.check shelves.linked boxedPairs = .ok () ∧
      shelves.linked.parse "Store.Box<Pair<T, Store.Goods.T>>" (some ⟨4⟩) = .ok boxedPairs := by
  refine ⟨build_shelves, check_boxedPairs, ?_⟩
  rw [← format_boxedPairs]
  refine (parse_format build_shelves check_boxedPairs (by decide)).2 ⟨4⟩ (fun p hp => ?_) fun q hq hspace i => ?_
  · have hparam : p = ⟨⟨4⟩, 0⟩ := by
      simpa [boxedPairs, TypeRef.toArg, TypeArg.occurs_type_iff, TypeArg.occurs_param_iff] using hp
    rw [hparam]
  · -- Full names are compared, and no full name is `T`.
    obtain ⟨d, hget, -⟩ := Option.map_eq_some_iff.mp hq
    have hfull : shelves.linked.fullName q ∉ ["T"] := by
      rcases contains_linked.mp (Table.contains_iff.mpr ⟨d, hget⟩) with rfl | ⟨e, he⟩
      · rw [fullName_linked_root]
        decide
      · have hnames : ∀ e ∈ shelves.types, FullName.Regular e.fullName ∧ e.fullName ∉ ["T"] := by decide
        obtain ⟨hregular, hname⟩ := hnames e (mem_types_iff.mpr ⟨q, he⟩)
        rw [fullName_linked hregular he]
        exact hname
    rw [paramName?_linked (mem_entries shelves 2 rfl) i, Table.nameOf?_of_spaceOf? hspace]
    exact fun h => hfull (List.mem_of_getElem? h)

end Nominal
