import Nominal.Proofs.Loading

/-! The table in which the types of a universe are declared, before anything is linked: what it holds, and what names
    mean in it. A full name leads to the latest type of that name, and the parameters of a type are found in its
    scope. -/

namespace Nominal

namespace Universe

variable {u : Universe} {t : Table} {e : Entry} {s : Symbol} {d : Declaration}

open BuildM

/-! ### What is declared -/

/-- The symbol of the root. -/
def root : Symbol := ⟨1⟩

/-- The declaration of `e` before it is linked, with its names in a pool. -/
structure Entry.Heads (names : NamePool) (e : Entry) (d : Declaration) : Prop where
  kind : d.kind = e.kind
  space : names.text? d.name.space = some (FullName.parts e.fullName).1
  name : names.text? d.name.name = some (FullName.parts e.fullName).2
  params : d.params.map names.text? = e.params.map some
  base? : d.base? = if e.kind = .cls then some ⟨root, []⟩ else none
  interfaces : d.interfaces = []
  isRoot : d.isRoot = false

theorem Entry.Heads.grow {names names' : NamePool} (h : e.Heads names d) (hg : names.Grows names') :
    e.Heads names' d := by
  refine ⟨h.kind, hg _ _ h.space, hg _ _ h.name, ?_, h.base?, h.interfaces, h.isRoot⟩
  have hmap {atoms : List Atom} {texts : List String} (h : atoms.map names.text? = texts.map some) :
      atoms.map names'.text? = texts.map some := by
    induction atoms generalizing texts with
    | nil => simpa using h
    | cons a atoms ih =>
      cases texts with
      | nil => simp at h
      | cons x texts =>
        rw [List.map_cons, List.map_cons, List.cons.injEq] at h
        rw [List.map_cons, List.map_cons, hg a x h.1, ih h.2]
  exact hmap h.params

/-- What stays true of a table while types are declared. -/
structure Rooted (t : Table) : Prop where
  root? : t.root? = some root
  indexed : t.Indexed
  faithful : t.names.Faithful
  declaration : ∃ d, t.get? root = some d ∧ d.kind = .cls ∧ d.params = [] ∧ d.base? = none ∧ d.interfaces = [] ∧
    d.isRoot = true
  named : ∀ d, t.get? root = some d → t.names.text? d.name.space = some (FullName.parts Table.rootName).1 ∧
    t.names.text? d.name.name = some (FullName.parts Table.rootName).2

theorem Rooted.start : Rooted .rooted := by
  have hempty (names : NamePool) : Table.Indexed { Table.empty with names } := by
    intro a s hs
    simp [Table.empty] at hs
  obtain ⟨hf, -, hspace, hname⟩ := FullName.ofText_stores NamePool.Faithful.common Table.rootName
  refine ⟨rfl, (hempty _).register, (hf.intern _).faithful, ?_, fun d hd => ?_⟩
  · exact ⟨_, Table.get?_register.trans (if_pos rfl), rfl, rfl, rfl, rfl, rfl⟩
  · cases (Table.get?_register.trans (if_pos rfl)).symm.trans hd
    exact ⟨(hf.intern _).grows _ _ hspace, (hf.intern _).grows _ _ hname⟩

/-- One type more: the old declarations stay, and the new one says what `e` says. -/
theorem Rooted.declare (ht : Rooted t) (e : Entry) :
    Rooted (t.declare e.kind e.fullName e.params).1 ∧
      t.names.Grows (t.declare e.kind e.fullName e.params).1.names ∧
      ∃ d, e.Heads (t.declare e.kind e.fullName e.params).1.names d ∧
        ∀ s, (t.declare e.kind e.fullName e.params).1.get? s = if s = t.nextSymbol then some d else t.get? s := by
  obtain ⟨names, name, atoms, h, hnames⟩ := t.declare_eq_register e.kind e.fullName e.params
  obtain ⟨hf, hg, hparams, hspace, hname⟩ := hnames ht.faithful
  have hstore := hf.intern (name.text names)
  have hheads : e.Heads names
      { kind := e.kind, name, params := atoms, base? := if e.kind = .cls then t.root?.map (⟨·, []⟩) else none } :=
    ⟨rfl, hspace, hname, hparams, by simp [ht.root?], rfl, rfl⟩
  have hget (s : Symbol) := @Table.get?_register { t with names } s
    { kind := e.kind, name, params := atoms, base? := if e.kind = .cls then t.root?.map (⟨·, []⟩) else none }
  rw [h]
  obtain ⟨d, hd, hroot⟩ := ht.declaration
  have hkept := (hget root).trans ((if_neg (Table.ne_nextSymbol (Table.contains_iff.mpr ⟨d, hd⟩))).trans hd)
  refine ⟨⟨ht.root?, Table.Indexed.register (t := { t with names }) ht.indexed, hstore.faithful, ⟨d, hkept, hroot⟩,
    fun d' hd' => ?_⟩, hg.trans hstore.grows, _, hheads.grow hstore.grows, hget⟩
  cases hkept.symm.trans hd'
  obtain ⟨hspace, hname⟩ := ht.named d hd
  exact ⟨(hg.trans hstore.grows) _ _ hspace, (hg.trans hstore.grows) _ _ hname⟩

theorem mem_numbered {n : Nat} {es : List Entry} : (e, s) ∈ numbered n es ↔ n ≤ s.id ∧ es[s.id - n]? = some e := by
  have h : (e, s) ∈ numbered n es ↔ (e, s.id) ∈ es.zipIdx n := by
    simp only [numbered, List.mem_map, Prod.exists, Prod.mk.injEq]
    constructor
    · rintro ⟨e', k, hk, rfl, rfl⟩
      exact hk
    · intro hk
      exact ⟨e, s.id, hk, rfl, rfl⟩
  rw [h, List.mk_mem_zipIdx_iff_le_and_getElem?_sub]

theorem mem_entries (u : Universe) (i : Nat) (h : u.types[i]? = some e) : (e, ⟨i + 2⟩) ∈ u.entries :=
  mem_numbered.mpr ⟨Nat.le_add_left 2 i, h⟩

/-- What is declared after types are declared in order: what was there before, and the types. -/
structure Holds (t t' : Table) (l : List (Entry × Symbol)) : Prop where
  rooted : Rooted t'
  grows : t.names.Grows t'.names
  old : ∀ s, t.contains s = true → t'.get? s = t.get? s
  new : ∀ e s, (e, s) ∈ l → ∃ d, t'.get? s = some d ∧ e.Heads t'.names d
  only : ∀ s, t'.contains s = true → t.contains s = true ∨ ∃ e, (e, s) ∈ l

theorem holds_declareTypes (ht : Rooted t) (es : List Entry) :
    Holds t (declareTypes t es) (numbered (t.size + 1) es) := by
  induction es generalizing t with
  | nil => exact ⟨ht, .refl _, fun _ _ => rfl, by simp [numbered], fun s hs => Or.inl hs⟩
  | cons e es ih =>
    obtain ⟨ht', hg, d, hd, hget⟩ := ht.declare e
    have hrest := ih ht'
    rw [size_declare] at hrest
    have hcontains (s : Symbol) : (t.declare e.kind e.fullName e.params).1.contains s = true ↔
        s = t.nextSymbol ∨ t.contains s = true := by
      simp only [Table.contains, hget]
      split <;> simp [*]
    rw [numbered_cons]
    refine ⟨hrest.rooted, hg.trans hrest.grows, fun s hs => ?_, fun e' s hs => ?_, fun s hs => ?_⟩
    · exact (hrest.old s ((hcontains s).mpr (Or.inr hs))).trans ((hget s).trans (if_neg (Table.ne_nextSymbol hs)))
    · rcases List.mem_cons.mp hs with heq | hs
      · cases heq
        refine ⟨d, (hrest.old _ ((hcontains _).mpr (Or.inl rfl))).trans ((hget _).trans (if_pos rfl)), ?_⟩
        exact hd.grow hrest.grows
      · exact hrest.new e' s hs
    · rcases hrest.only s hs with hs | ⟨e', he'⟩
      · rcases (hcontains s).mp hs with rfl | hs
        · exact Or.inr ⟨e, List.mem_cons_self⟩
        · exact Or.inl hs
      · exact Or.inr ⟨e', List.mem_cons_of_mem _ he'⟩

theorem holds_declared (u : Universe) : Holds .rooted u.declared u.entries := holds_declareTypes .start u.types

theorem contains_rooted (h : Table.rooted.contains s = true) : s = root := by
  rcases Table.contains_register.mp h with h | h
  · exact h
  · simp [Table.contains, Table.get?, Table.empty] at h

/-! ### What names mean -/

theorem named_rooted : Table.rooted.Named [(Table.rootName, root)] := by
  obtain ⟨hf, -, hspace, hname⟩ := FullName.ofText_stores NamePool.Faithful.common Table.rootName
  have hempty : Table.Named { Table.empty with names := (FullName.ofText .common Table.rootName).1 } [] := .empty hf
  have htext := FullName.text_eq_join hf hspace hname
  rw [FullName.join_parts (by decide)] at htext
  have hregister := hempty.register
    (d := { kind := .cls, name := (FullName.ofText .common Table.rootName).2, params := [], isRoot := true })
  rw [htext] at hregister
  exact hregister

theorem named_declareTypes {l : List (String × Symbol)} {es : List Entry} (ht : t.Named l)
    (hes : ∀ e ∈ es, FullName.Regular e.fullName) :
    (declareTypes t es).Named (((numbered (t.size + 1) es).map fun p => (p.1.fullName, p.2)).reverse ++ l) := by
  induction es generalizing t l with
  | nil => exact ht
  | cons e es ih =>
    obtain ⟨names, name, atoms, h, hnames⟩ := t.declare_eq_register e.kind e.fullName e.params
    obtain ⟨hf, hg, -, hspace, hname⟩ := hnames ht.faithful
    have hgrown : Table.Named { t with names } l := ht.grow hf hg
    have hnew := hgrown.register
      (d := { kind := e.kind, name, params := atoms, base? := if e.kind = .cls then t.root?.map (⟨·, []⟩) else none })
    rw [← h, FullName.text_of_parts hf (hes e List.mem_cons_self) hspace hname] at hnew
    have hrest := ih hnew fun e' he' => hes e' (List.mem_cons_of_mem e he')
    rw [size_declare] at hrest
    rw [numbered_cons, List.map_cons, List.reverse_cons, List.append_assoc]
    exact hrest

theorem called_rooted : Table.rooted.Called [((FullName.parts Table.rootName).2, root)] := by
  obtain ⟨hf, -, -, hname⟩ := FullName.ofText_stores NamePool.Faithful.common Table.rootName
  have hempty : Table.Called { Table.empty with names := (FullName.ofText .common Table.rootName).1 } [] := .empty hf
  have hregister := hempty.register
    (d := { kind := .cls, name := (FullName.ofText .common Table.rootName).2, params := [], isRoot := true }) hname
  exact hregister

theorem called_declareTypes {l : List (String × Symbol)} {es : List Entry} (ht : t.Called l) :
    (declareTypes t es).Called
      (l ++ (numbered (t.size + 1) es).map fun p => ((FullName.parts p.1.fullName).2, p.2)) := by
  induction es generalizing t l with
  | nil => simpa [numbered, declareTypes] using ht
  | cons e es ih =>
    obtain ⟨names, name, atoms, h, hnames⟩ := t.declare_eq_register e.kind e.fullName e.params
    obtain ⟨hf, hg, -, -, hname⟩ := hnames ht.faithful
    have hgrown : Table.Called { t with names } l := ht.grow hf hg
    have hnew := hgrown.register
      (d := { kind := e.kind, name, params := atoms,
              base? := if e.kind = .cls then t.root?.map (⟨·, []⟩) else none }) hname
    rw [← h] at hnew
    have hrest := ih hnew
    rw [size_declare] at hrest
    rw [numbered_cons, List.map_cons, List.append_cons]
    exact hrest

/-- The full names of all types and of the root, with their symbols and numbers of parameters, the latest first. -/
def vocabulary (u : Universe) : List (String × Symbol × Nat) :=
  (u.entries.map fun p => (p.1.fullName, p.2, p.1.params.length)).reverse ++ [(Table.rootName, root, 0)]

/-- In its scope, a type finds its parameters by name, the first of a name first. -/
theorem paramNamed?_declared (h : (e, s) ∈ u.entries) (name : String) :
    u.declared.paramNamed? s name = (e.params.idxOf? name).map (⟨s, ·⟩) := by
  obtain ⟨d, hd, hheads⟩ := u.holds_declared.new e s h
  have hf := u.holds_declared.rooted.faithful
  unfold Table.paramNamed?
  cases hn : u.declared.names.get? name with
  | some a =>
    have ha := (hf.get?_iff name a).mp hn
    rw [hd, ← hf.idxOf?_eq ha hheads.params]
    show ((d.params.idxOf? a).bind fun i => some (⟨s, i⟩ : Param)) = _
    cases d.params.idxOf? a <;> rfl
  | none =>
    have hnot : name ∉ e.params := by
      intro hmem
      have hsome : some name ∈ d.params.map u.declared.names.text? := by
        rw [hheads.params]
        exact List.mem_map_of_mem hmem
      obtain ⟨a, -, ha⟩ := List.mem_map.mp hsome
      rw [(hf.get?_iff name a).mpr ha] at hn
      cases hn
    rw [List.idxOf?_eq_none_iff.mpr hnot]
    rfl

theorem arity_of_mem_vocabulary {name : String} {n : Nat} (h : (name, s, n) ∈ u.vocabulary) :
    (u.declared.get? s).map Declaration.arity = some n := by
  rw [vocabulary, List.mem_append, List.mem_reverse, List.mem_map, List.mem_singleton] at h
  rcases h with ⟨⟨e, s⟩, hes, h⟩ | h
  · cases h
    obtain ⟨d, hd, hheads⟩ := u.holds_declared.new _ _ hes
    have hlen := congrArg List.length hheads.params
    rw [List.length_map, List.length_map] at hlen
    rw [hd, Option.map_some, Declaration.arity, hlen]
  · cases h
    obtain ⟨d, hd, -, hparams, -⟩ := u.holds_declared.rooted.declaration
    rw [hd, Option.map_some, Declaration.arity, hparams, List.length_nil]

theorem lookup?_declared {name : String} {n : Nat} (hreg : ∀ e ∈ u.types, FullName.Regular e.fullName)
    (h : u.vocabulary.lookup name = some (s, n)) : u.declared.lookup? name = some s := by
  have hnamed : u.declared.Named (u.vocabulary.map fun p => (p.1, p.2.1)) := by
    have hnames : u.declared.Named ((u.entries.map fun p => (p.1.fullName, p.2)).reverse ++ [(Table.rootName, root)]) :=
      named_declareTypes named_rooted hreg
    simpa [vocabulary, List.map_reverse, Function.comp_def] using hnames
  have hlookup (l : List (String × Symbol × Nat)) (h : l.lookup name = some (s, n)) :
      (l.map fun p => (p.1, p.2.1)).lookup name = some s := by
    induction l with
    | nil => simp at h
    | cons p l ih =>
      rw [List.lookup_cons] at h
      rw [List.map_cons, List.lookup_cons]
      cases hp : name == p.1 <;> simp_all
  exact hnamed.lookup? (hlookup _ h)

open Expression in
theorem param?_declared (h : (e, s) ∈ u.entries) (n : Nat) (name : String) :
    Context.param? ⟨u.declared, some s, n⟩ name =
      if '.' ∈ name.toList then none else (e.params.idxOf? name).map (⟨s, ·⟩) := by
  rw [Context.param?, Option.bind_some, paramNamed?_declared h]

open Expression in
theorem resolve_declared (hreg : ∀ e ∈ u.types, FullName.Regular e.fullName) {name : String} {n : Nat}
    (h : u.vocabulary.lookup name = some (s, n)) (scope? : Option Symbol) (last column : Nat) :
    Context.resolve ⟨u.declared, scope?, last⟩ name column = .ok (s, n) := by
  obtain ⟨before, after, hmem, -⟩ := List.lookup_eq_some_iff.mp h
  have harity : (u.declared.get? s).map Declaration.arity = some n :=
    arity_of_mem_vocabulary (hmem ▸ List.mem_append_right before List.mem_cons_self)
  simp only [Context.resolve, lookup?_declared hreg h, harity, Option.getD_some]

open Expression in
/-- A name that stands alone and is no parameter in scope means the type of that name. -/
theorem parse_declared_bare {s' : Symbol} {text : String} (hreg : ∀ e ∈ u.types, FullName.Regular e.fullName)
    (htokens : tokenize 1 text.toList = .ok [⟨.word text, 1⟩]) (hscope : (e, s) ∈ u.entries) (hparam : text ∉ e.params)
    (hname : u.vocabulary.lookup text = some (s', 0)) : u.declared.parse text (some s) = .ok ⟨s', []⟩ := by
  have hp (last : Nat) : Context.param? ⟨u.declared, some s, last⟩ text = none := by
    rw [param?_declared hscope, List.idxOf?_eq_none_iff.mpr hparam]
    split <;> rfl
  exact Table.parse_of_reads htokens (Context.reads_bare (by simp) (Context.bare_type (hp _)
    (resolve_declared hreg hname (some s) _ 1)))

end Universe

end Nominal
