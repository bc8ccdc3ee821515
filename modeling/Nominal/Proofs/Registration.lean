import Nominal.Proofs.Hierarchy
import Nominal.Proofs.Names

/-! What a table holds after a declaration is added or changed. Declarations only ever come behind those that are there,
    and a change concerns one symbol and leaves all names as they are. -/

namespace Nominal

/-- A declaration without what it implements and extends. -/
def Declaration.unlinked (d : Declaration) : Declaration := { d with base? := none, interfaces := [] }

namespace Table

variable {t t' : Table} {s q : Symbol} {d : Declaration}

/-! ### Added declarations -/

/-- Every name leads to a declaration. -/
def Indexed (t : Table) : Prop :=
  ∀ (a : Atom) (s : Symbol), t.byFullName[a]? = some s ∨ t.byName[a]? = some s → t.contains s = true

theorem Indexed.lookup? {name : String} (h : t.Indexed) (hs : t.lookup? name = some s) : t.contains s = true := by
  obtain ⟨a, -, hs⟩ := Option.bind_eq_some_iff.mp hs
  refine h a s ?_
  cases ha : t.byFullName[a]? with
  | none => simp_all
  | some q => simp_all

theorem get?_register : (t.register d).1.get? s = if s = t.nextSymbol then some d else t.get? s := by
  have hs : s = t.nextSymbol ↔ s.id = t.declarations.size + 1 := by
    cases s
    simp [nextSymbol]
  unfold register get? Symbol.isValid
  by_cases h0 : s.id = 0
  · have hne : s ≠ t.nextSymbol := fun h => by have := hs.mp h; omega
    simp [h0, hne]
  · have hidx : s.id - 1 = t.declarations.size ↔ s = t.nextSymbol := by rw [hs]; omega
    simp only [Array.getElem?_push, hidx]
    simp [h0]

theorem contains_register : (t.register d).1.contains s = true ↔ s = t.nextSymbol ∨ t.contains s = true := by
  simp only [contains, get?_register]
  split <;> simp [*]

theorem ne_nextSymbol (hs : t.contains s = true) : s ≠ t.nextSymbol := by
  obtain ⟨d, hd⟩ := contains_iff.mp hs
  obtain ⟨-, hd⟩ := get?_eq_some_iff.mp hd
  obtain ⟨hlt, -⟩ := Array.getElem?_eq_some_iff.mp hd
  rintro rfl
  exact absurd hlt (by simp [nextSymbol])

theorem Indexed.register (h : t.Indexed) : (t.register d).1.Indexed := by
  intro a s hs
  rw [contains_register]
  rcases hs with hs | hs
  · simp only [Table.register, Std.HashMap.getElem?_insert] at hs
    split at hs
    · cases hs
      exact Or.inl rfl
    · exact Or.inr (h a s (Or.inl hs))
  · simp only [Table.register, Std.HashMap.getElem?_insertIfNew] at hs
    split at hs
    · cases hs
      exact Or.inl rfl
    · exact Or.inr (h a s (Or.inr hs))

theorem size_register : (t.register d).1.size = t.size + 1 := by
  simp [register, size]

/-- Declaring a type stores its names and registers it without interfaces, and with the root as base if it is a
    class. -/
theorem declare_eq_register (t : Table) (kind : Kind) (dotted : String) (params : List String) :
    ∃ names name atoms,
      t.declare kind dotted params = { t with names }.register
        { kind, name, params := atoms, base? := if kind = Kind.cls then t.root?.map (⟨·, []⟩) else none } ∧
      (t.names.Faithful → names.Faithful ∧ t.names.Grows names ∧ atoms.map names.text? = params.map some ∧
        names.text? name.space = some (FullName.parts dotted).1 ∧
        names.text? name.name = some (FullName.parts dotted).2) := by
  refine ⟨((FullName.ofText t.names dotted).1.internAll params).1, (FullName.ofText t.names dotted).2,
    ((FullName.ofText t.names dotted).1.internAll params).2, rfl, fun h => ?_⟩
  obtain ⟨hf, hg, hspace, hname⟩ := FullName.ofText_stores h dotted
  obtain ⟨hf', hg', hparams⟩ := hf.internAll params
  exact ⟨hf', hg.trans hg', hparams, hg' _ _ hspace, hg' _ _ hname⟩

/-! ### Names of declarations -/

/-- By the pool and the index, names lead to the symbols that `l` pairs them with, those at its head first. -/
structure Leads (names : NamePool) (index : Std.HashMap Atom Symbol) (l : List (String × Symbol)) : Prop where
  faithful : names.Faithful
  known : ∀ (a : Atom) (s : Symbol), index[a]? = some s → ∃ x, names.text? a = some x
  found : ∀ x, ((names.get? x).bind fun a => index[a]?) = l.lookup x

namespace Leads

variable {names names' : NamePool} {index : Std.HashMap Atom Symbol} {l : List (String × Symbol)} {a : Atom}
  {x : String}

theorem empty (h : names.Faithful) : Leads names ∅ [] := ⟨h, fun a s hs => by simp at hs, fun x => by simp⟩

theorem grow (h : Leads names index l) (hf : names'.Faithful) (hg : names.Grows names') : Leads names' index l := by
  refine ⟨hf, fun a s hs => ?_, fun x => ?_⟩
  · obtain ⟨x, hx⟩ := h.known a s hs
    exact ⟨x, hg a x hx⟩
  · rw [← h.found]
    cases hx : names.get? x with
    | some a => rw [hg.get? h.faithful hf hx]
    | none =>
      -- A number that is new to the pool leads nowhere yet.
      rw [Option.bind_none, Option.bind_eq_none_iff]
      intro a ha
      cases hs : index[a]? with
      | none => rfl
      | some s =>
        obtain ⟨y, hy⟩ := h.known a s hs
        have hyx := (hg a y hy).symm.trans ((hf.get?_iff x a).mp ha)
        cases hyx
        rw [(h.faithful.get?_iff x a).mpr hy] at hx
        cases hx

theorem insert (h : Leads names index l) (ha : names.text? a = some x) (s : Symbol) :
    Leads names (index.insert a s) ((x, s) :: l) := by
  have hx := (h.faithful.get?_iff x a).mpr ha
  refine ⟨h.faithful, fun b q hq => ?_, fun y => ?_⟩
  · rw [Std.HashMap.getElem?_insert] at hq
    split at hq
    · rename_i hab
      exact ⟨x, eq_of_beq hab ▸ ha⟩
    · exact h.known b q hq
  · rw [List.lookup_cons]
    by_cases hy : y = x
    · subst hy
      simp [hx]
    · rw [show (y == x) = false by simpa using hy, ← h.found]
      cases hb : names.get? y with
      | none => rfl
      | some b =>
        have hne := h.faithful.atom_ne ha hb hy
        simp [Std.HashMap.getElem?_insert, hne]

theorem insertIfNew (h : Leads names index l) (ha : names.text? a = some x) (s : Symbol) :
    Leads names (index.insertIfNew a s) (l ++ [(x, s)]) := by
  have hx := (h.faithful.get?_iff x a).mpr ha
  refine ⟨h.faithful, fun b q hq => ?_, fun y => ?_⟩
  · rw [Std.HashMap.getElem?_insertIfNew] at hq
    split at hq
    · rename_i hab
      exact ⟨x, eq_of_beq hab.1 ▸ ha⟩
    · exact h.known b q hq
  · rw [List.lookup_append, ← h.found]
    by_cases hy : y = x
    · subst hy
      rw [hx, Option.bind_some, Option.bind_some, Std.HashMap.getElem?_insertIfNew]
      by_cases hmem : a ∈ index <;> simp [hmem]
    · rw [List.lookup_cons, show (y == x) = false by simpa using hy, List.lookup_nil, Option.or_none]
      cases hb : names.get? y with
      | none => rfl
      | some b =>
        have hne := h.faithful.atom_ne ha hb hy
        simp [Std.HashMap.getElem?_insertIfNew, hne]

end Leads

/-- Full names lead to the symbols that `l` pairs them with, the latest first. -/
def Named (t : Table) (l : List (String × Symbol)) : Prop := Leads t.names t.byFullName l

/-- Bare names lead to the symbols that `l` pairs them with, the earliest first. -/
def Called (t : Table) (l : List (String × Symbol)) : Prop := Leads t.names t.byName l

variable {l l' : List (String × Symbol)}

theorem lookup?_eq (h : t.Named l) (h' : t.Called l') (name : String) :
    t.lookup? name = (l.lookup name).or (l'.lookup name) := by
  rw [← h.found, ← h'.found, lookup?]
  cases t.names.get? name with
  | none => rfl
  | some a => exact Option.orElse_eq_or

theorem Named.lookup? {name : String} (h : t.Named l) (hs : l.lookup name = some s) : t.lookup? name = some s := by
  rw [← h.found, Option.bind_eq_some_iff] at hs
  obtain ⟨a, ha, hs⟩ := hs
  simp [Table.lookup?, ha, hs]

theorem Named.register (h : t.Named l) : Named (t.register d).1 ((d.name.text t.names, t.nextSymbol) :: l) := by
  have hstore := h.faithful.intern (d.name.text t.names)
  exact (h.grow hstore.faithful hstore.grows).insert hstore.text? t.nextSymbol

theorem Called.register {name : String} (h : t.Called l) (hname : t.names.text? d.name.name = some name) :
    Called (t.register d).1 (l ++ [(name, t.nextSymbol)]) := by
  have hstore := h.faithful.intern (d.name.text t.names)
  exact (h.grow hstore.faithful hstore.grows).insertIfNew (hstore.grows _ _ hname) t.nextSymbol

/-! ### Changed declarations -/

theorem get?_update {f : Declaration → Declaration} :
    (t.update s f).get? q = if q = s then (t.get? q).map f else t.get? q := by
  by_cases hs : s.id = 0
  · -- No declaration has the number zero, and an update of it changes nothing.
    have hnone : t.get? s = none := by simp [get?, Symbol.isValid, hs]
    have hsame : t.update s f = t := by simp [update, Symbol.isValid, hs]
    rw [hsame]
    split
    · simp_all
    · rfl
  · have hq : q = s ↔ q.id = s.id := by
      cases q
      cases s
      simp
    by_cases h0 : q.id = 0
    · simp [get?, Symbol.isValid, h0]
    · have hidx : s.id - 1 = q.id - 1 ↔ q = s := by rw [hq]; omega
      have hq' : (q.id != 0) = true := by simpa using h0
      have hs' : (s.id != 0) = true := by simpa using hs
      simp only [get?, update, Symbol.isValid, hq', hs', Array.getElem?_modify, hidx, if_true]

theorem update_update {f g : Declaration → Declaration} : (t.update s f).update s g = t.update s (g ∘ f) := by
  unfold update
  split
  · simp only [Table.mk.injEq, true_and, and_true]
    ext i h h'
    · simp
    · simp only [Array.getElem_modify]
      split <;> rfl
  · rfl

theorem update_id : t.update s id = t := by
  unfold update
  split
  · have h : t.declarations.modify (s.id - 1) id = t.declarations := by
      ext i h h'
      · simp
      · simp only [Array.getElem_modify]
        split <;> rfl
    rw [h]
  · rfl

theorem size_update {f : Declaration → Declaration} : (t.update s f).size = t.size := by
  unfold update size
  split <;> simp

/-- The tables declare the same types under the same names, whatever these implement and extend. -/
structure SameHeads (t t' : Table) : Prop where
  names : t'.names = t.names
  byFullName : t'.byFullName = t.byFullName
  byName : t'.byName = t.byName
  size : t'.size = t.size
  heads : ∀ s, (t'.get? s).map Declaration.unlinked = (t.get? s).map Declaration.unlinked

theorem SameHeads.refl (t : Table) : SameHeads t t := ⟨rfl, rfl, rfl, rfl, fun _ => rfl⟩

theorem SameHeads.trans {t'' : Table} (h : SameHeads t t') (h' : SameHeads t' t'') : SameHeads t t'' :=
  ⟨h'.names.trans h.names, h'.byFullName.trans h.byFullName, h'.byName.trans h.byName, h'.size.trans h.size,
    fun s => (h'.heads s).trans (h.heads s)⟩

theorem SameHeads.update {f : Declaration → Declaration} (hf : ∀ d, (f d).unlinked = d.unlinked) :
    SameHeads t (t.update s f) := by
  refine ⟨?_, ?_, ?_, size_update, fun q => ?_⟩
  · unfold Table.update
    split <;> rfl
  · unfold Table.update
    split <;> rfl
  · unfold Table.update
    split <;> rfl
  · rw [get?_update]
    split
    · simp only [Option.map_map, Function.comp_def, hf]
    · rfl

/-- What can be said about a declaration without its links is the same in both tables. -/
theorem SameHeads.map_get? {α : Type} (h : SameHeads t t') {f : Declaration → α}
    (hf : ∀ d, f d.unlinked = f d) (s : Symbol) : (t'.get? s).map f = (t.get? s).map f := by
  have heads := congrArg (Option.map f) (h.heads s)
  simpa only [Option.map_map, Function.comp_def, hf] using heads

theorem SameHeads.contains (h : SameHeads t t') : t'.contains s = t.contains s := by
  have heads := congrArg Option.isSome (h.heads s)
  simpa only [Table.contains, Option.isSome_map] using heads

theorem SameHeads.lookup? (h : SameHeads t t') (name : String) : t'.lookup? name = t.lookup? name := by
  simp only [Table.lookup?, h.names, h.byFullName, h.byName]

theorem SameHeads.spaceOf? (h : SameHeads t t') (s : Symbol) : t'.spaceOf? s = t.spaceOf? s := by
  unfold Table.spaceOf?
  rw [h.names]
  exact h.map_get? (fun _ => rfl) s

theorem SameHeads.nameOf? (h : SameHeads t t') (s : Symbol) : t'.nameOf? s = t.nameOf? s := by
  unfold Table.nameOf?
  rw [h.names]
  exact h.map_get? (fun _ => rfl) s

theorem SameHeads.paramNamed? (h : SameHeads t t') (owner : Symbol) (name : String) :
    t'.paramNamed? owner name = t.paramNamed? owner name := by
  have hparams := h.map_get? (f := Declaration.params) (fun _ => rfl) owner
  simp only [Table.paramNamed?, h.names]
  cases hd : t.get? owner <;> cases hd' : t'.get? owner <;> simp_all

theorem SameHeads.paramName? (h : SameHeads t t') (p : Param) : t'.paramName? p = t.paramName? p := by
  have hparams := h.map_get? (f := Declaration.params) (fun _ => rfl) p.owner
  simp only [Table.paramName?, h.names]
  cases hd : t.get? p.owner <;> cases hd' : t'.get? p.owner <;> simp_all

end Table

end Nominal
