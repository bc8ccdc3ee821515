import Mathlib.Data.List.Forall2
import Nominal.Proofs.Registration

/-! A table is a list of declarations. Beside the table, a plain list is kept of what is registered, with the dotted
    names as they were written. Whatever is done to the table, its declarations are those of the list, and a name leads
    to the last item with this full name, or else to the first item with this bare name. The pool of names and the two
    indexes stay out of sight. -/

namespace Nominal

namespace Table

/-- What is done with a table. Names can be read long before a declaration is registered under them. -/
inductive Request where
  | intern (text : String)
  | name (dotted : String)
  | declare (kind : Kind) (dotted : String) (params : List String)
  | register (held : Nat) (d : Declaration)
  | setBase (s : Symbol) (base? : Option TypeRef)
  | addInterface (s : Symbol) (i : TypeRef)
  | lookup (name : String)
  | parse (text : String) (scope? : Option Symbol)

/-- A table, and the names that were read with it so far. -/
structure Session where
  table : Table
  held : List (String × FullName) := []

namespace Session

/-- One request. A declaration is registered under a name that was read before, given by its place; looking up and
    parsing leave the table as it is. -/
def step (s : Session) : Request → Session
  | .intern text => { s with table.names := (s.table.names.intern text).1 }
  | .name dotted =>
    let (names, name) := FullName.ofText s.table.names dotted
    { table := { s.table with names }, held := s.held ++ [(dotted, name)] }
  | .declare kind dotted params => { s with table := (s.table.declare kind dotted params).1 }
  | .register held d => (s.held[held]?).elim s fun p => { s with table := (s.table.register { d with name := p.2 }).1 }
  | .setBase q base? => { s with table := s.table.setBase q base? }
  | .addInterface q i => { s with table := s.table.addInterface q i }
  | .lookup _ => s
  | .parse _ _ => s

end Session

/-- A declaration, the dotted name that it was registered under, and the names of its parameters where they were given
    as texts. -/
structure Item where
  dotted : String
  declaration : Declaration
  params? : Option (List String) := none

namespace Item

/-- The full name; a dot in front of all else is not part of it. -/
def fullName (item : Item) : String := FullName.join (FullName.parts item.dotted).1 (FullName.parts item.dotted).2

def bareName (item : Item) : String := (FullName.parts item.dotted).2

/-- The item of a new type, with the numbers that its names get in the pool. -/
def declared (t : Table) (kind : Kind) (dotted : String) (params : List String) : Item :=
  let (names, name) := FullName.ofText t.names dotted
  { dotted
    declaration :=
      { kind, name, params := (names.internAll params).2, base? := if kind = .cls then t.root?.map (⟨·, []⟩) else none }
    params? := some params }

/-- The root. -/
def root : Item :=
  { dotted := rootName
    declaration := { kind := .cls, name := (FullName.ofText .common rootName).2, params := [], isRoot := true }
    params? := some [] }

end Item

/-- Items in the order in which they were registered. -/
abbrev Ledger := List Item

namespace Ledger

/-- Items with their symbols, which count from one. -/
def numbered (l : Ledger) : List (Item × Symbol) := l.zipIdx.map fun p => (p.1, ⟨p.2 + 1⟩)

/-- The declaration of a symbol. -/
def get? (l : Ledger) (q : Symbol) : Option Declaration :=
  if q.id = 0 then none else (l[q.id - 1]?).map Item.declaration

/-- Changes the declaration of a symbol, if it has one. -/
def change (l : Ledger) (q : Symbol) (f : Declaration → Declaration) : Ledger :=
  l.mapIdx fun i item => if q.id = i + 1 then { item with declaration := f item.declaration } else item

/-- The last symbol with a full name or else the first one with a bare name. -/
def lookup? (l : Ledger) (name : String) : Option Symbol :=
  ((l.numbered.reverse.find? fun p => p.1.fullName == name).or
    (l.numbered.find? fun p => p.1.bareName == name)).map Prod.snd

/-- One request: new items come last, and changes concern one item each. -/
def step (s : Session) (l : Ledger) : Request → Ledger
  | .declare kind dotted params => l ++ [.declared s.table kind dotted params]
  | .register held d => (s.held[held]?).elim l fun p => l ++ [{ dotted := p.1, declaration := { d with name := p.2 } }]
  | .setBase q base? => l.change q fun d => { d with base? }
  | .addInterface q i => l.change q fun d => { d with interfaces := d.interfaces ++ [i] }
  | .intern _ | .name _ | .lookup _ | .parse _ _ => l

end Ledger

/-- The empty table or the table with the root. -/
def start (rooted : Bool) : Session × Ledger :=
  if rooted then (⟨Table.rooted, []⟩, [.root]) else (⟨Table.empty, []⟩, [])

/-- A table and its list after several requests. -/
def run (p : Session × Ledger) (requests : List Request) : Session × Ledger :=
  requests.foldl (fun p r => (p.1.step r, p.2.step p.1 r)) p

/-! ### Symbols of items -/

namespace Ledger

variable {l : Ledger} {q : Symbol} {f : Declaration → Declaration}

theorem numbered_concat (item : Item) : numbered (l ++ [item]) = l.numbered ++ [(item, ⟨l.length + 1⟩)] := by
  simp [numbered, List.zipIdx_append]

theorem getElem?_change (i : Nat) :
    (l.change q f)[i]? =
      (l[i]?).map fun item => if q.id = i + 1 then { item with declaration := f item.declaration } else item :=
  List.getElem?_mapIdx

/-- A change leaves all names with their symbols. -/
theorem map_numbered_change {α : Type} {g : Item → α} (hg : ∀ item d, g { item with declaration := d } = g item) :
    (l.change q f).numbered.map (fun p => (g p.1, p.2)) = l.numbered.map fun p => (g p.1, p.2) := by
  refine List.ext_getElem? fun i => ?_
  simp only [numbered, List.getElem?_map, List.getElem?_zipIdx, getElem?_change, Option.map_map]
  refine congrArg (Option.map · l[i]?) (funext fun item => ?_)
  by_cases hq : q.id = i + 1 <;> simp [hq, hg]

theorem mem_change {item : Item} (h : item ∈ l.change q f) :
    ∃ item' ∈ l, item.dotted = item'.dotted ∧ item.params? = item'.params? ∧
      (item.declaration = item'.declaration ∨ item.declaration = f item'.declaration) := by
  obtain ⟨i, hi⟩ := List.mem_iff_getElem?.mp h
  rw [getElem?_change] at hi
  obtain ⟨item', hitem', rfl⟩ := Option.map_eq_some_iff.mp hi
  refine ⟨item', List.mem_of_getElem? hitem', ?_⟩
  split
  · exact ⟨rfl, rfl, .inr rfl⟩
  · exact ⟨rfl, rfl, .inl rfl⟩

theorem lookup_map {g : Item → String} {name : String} (l : List (Item × Symbol)) :
    (l.map fun p => (g p.1, p.2)).lookup name = (l.find? fun p => g p.1 == name).map Prod.snd := by
  induction l with
  | nil => rfl
  | cons p l ih =>
    rw [List.map_cons, List.lookup_cons, List.find?_cons, ih]
    by_cases h : g p.1 = name
    · simp [h]
    · have hleft : (g p.1 == name) = false := by simpa using h
      have hright : (name == g p.1) = false := by simpa using Ne.symm h
      rw [hleft, hright]

end Ledger

/-! ### What every request keeps -/

/-- In the pool, a name reads as the dotted one. -/
def Reads (names : NamePool) (dotted : String) (name : FullName) : Prop :=
  names.text? name.space = some (FullName.parts dotted).1 ∧ names.text? name.name = some (FullName.parts dotted).2

theorem Reads.grow {names names' : NamePool} {dotted : String} {name : FullName} (h : Reads names dotted name)
    (hg : names.Grows names') : Reads names' dotted name := ⟨hg _ _ h.1, hg _ _ h.2⟩

/-- In the pool, the name and the parameters of an item read as they were written. -/
structure Item.Written (names : NamePool) (item : Item) : Prop where
  name : Reads names item.dotted item.declaration.name
  params : ∀ texts, item.params? = some texts →
    List.Forall₂ (fun a text => names.text? a = some text) item.declaration.params texts

theorem Item.Written.grow {names names' : NamePool} {item : Item} (h : item.Written names) (hg : names.Grows names') :
    item.Written names' :=
  ⟨h.name.grow hg, fun texts htexts => (h.params texts htexts).imp hg⟩

/-- The table is the list: it has the same declarations, and names lead to the symbols of the items that have them. -/
structure Keeps (s : Session) (l : Ledger) : Prop where
  declarations : s.table.declarations.toList = l.map Item.declaration
  named : s.table.Named (l.numbered.map fun p => (p.1.fullName, p.2)).reverse
  called : s.table.Called (l.numbered.map fun p => (p.1.bareName, p.2))
  items : ∀ item ∈ l, item.Written s.table.names
  held : ∀ p ∈ s.held, Reads s.table.names p.1 p.2

namespace Keeps

variable {s : Session} {l : Ledger} {dotted : String} {d : Declaration}

theorem faithful (h : Keeps s l) : s.table.names.Faithful := h.named.faithful

theorem nextSymbol (h : Keeps s l) : s.table.nextSymbol = ⟨l.length + 1⟩ := by
  rw [Table.nextSymbol, ← Array.length_toList, h.declarations, List.length_map]

/-- More names in the pool change nothing. -/
theorem grow {names : NamePool} (h : Keeps s l) (hf : names.Faithful) (hg : s.table.names.Grows names) :
    Keeps { s with table := { s.table with names } } l where
  declarations := h.declarations
  named := h.named.grow hf hg
  called := h.called.grow hf hg
  items item hitem := (h.items item hitem).grow hg
  held p hp := (h.held p hp).grow hg

theorem hold {name : FullName} (h : Keeps s l) (hname : Reads s.table.names dotted name) :
    Keeps { s with held := s.held ++ [(dotted, name)] } l where
  declarations := h.declarations
  named := h.named
  called := h.called
  items := h.items
  held p hp := by
    rcases List.mem_append.mp hp with hp | hp
    · exact h.held p hp
    · rw [List.mem_singleton.mp hp]
      exact hname

theorem register {params? : Option (List String)} (h : Keeps s l)
    (hnew : Item.Written s.table.names ⟨dotted, d, params?⟩) :
    Keeps { s with table := (s.table.register d).1 } (l ++ [⟨dotted, d, params?⟩]) := by
  have hgrows := (h.faithful.intern (d.name.text s.table.names)).grows
  have hfull := h.named.register (d := d)
  have hbare := h.called.register hnew.name.2
  rw [h.nextSymbol] at hfull hbare
  rw [FullName.text_eq_join h.faithful hnew.name.1 hnew.name.2] at hfull
  refine ⟨?_, ?_, ?_, fun item hitem => ?_, fun p hp => (h.held p hp).grow hgrows⟩
  · simp [Table.register, h.declarations]
  · rw [Ledger.numbered_concat, List.map_append, List.reverse_append]
    exact hfull
  · rw [Ledger.numbered_concat, List.map_append]
    exact hbare
  · rcases List.mem_append.mp hitem with hitem | hitem
    · exact (h.items item hitem).grow hgrows
    · rw [List.mem_singleton.mp hitem]
      exact hnew.grow hgrows

theorem update {f : Declaration → Declaration} (h : Keeps s l) (hf : ∀ d, (f d).unlinked = d.unlinked) (q : Symbol) :
    Keeps { s with table := s.table.update q f } (l.change q f) := by
  have hheads : SameHeads s.table (s.table.update q f) := .update hf
  have hreads {dotted : String} {name : FullName} (hname : Reads s.table.names dotted name) :
      Reads (s.table.update q f).names dotted name := by rwa [hheads.names]
  refine ⟨?_, ?_, ?_, fun item hitem => ?_, fun p hp => hreads (h.held p hp)⟩
  · refine List.ext_getElem? fun i => ?_
    have hget : s.table.declarations[i]? = (l[i]?).map Item.declaration := by
      rw [← Array.getElem?_toList, h.declarations, List.getElem?_map]
    rw [List.getElem?_map, Ledger.getElem?_change, Array.getElem?_toList, Option.map_map]
    unfold Table.update Symbol.isValid
    by_cases hq : q.id = 0
    · simp [hq, hget, Function.comp_def]
    · have hi : q.id - 1 = i ↔ q.id = i + 1 := by omega
      by_cases hqi : q.id = i + 1 <;> simp [hq, hi, hqi, hget, Array.getElem?_modify, Function.comp_def]
  · rw [Ledger.map_numbered_change fun _ _ => rfl, Named, hheads.names, hheads.byFullName]
    exact h.named
  · rw [Ledger.map_numbered_change fun _ _ => rfl, Called, hheads.names, hheads.byName]
    exact h.called
  · obtain ⟨item', hitem', hdotted, hparams, hd⟩ := Ledger.mem_change hitem
    have hunlinked : item.declaration.unlinked = item'.declaration.unlinked := by
      rcases hd with hd | hd
      · rw [hd]
      · rw [hd, hf]
    have hname : item.declaration.name = item'.declaration.name := congrArg (·.name) hunlinked
    have hatoms : item.declaration.params = item'.declaration.params := congrArg (·.params) hunlinked
    have hwritten := h.items item' hitem'
    refine ⟨?_, fun texts htexts => ?_⟩
    · rw [hdotted, hname]
      exact hreads hwritten.name
    · rw [hatoms, hheads.names]
      exact hwritten.params texts (hparams ▸ htexts)

theorem step (h : Keeps s l) (r : Request) : Keeps (s.step r) (l.step s r) := by
  cases r with
  | intern text => exact h.grow (h.faithful.intern text).faithful (h.faithful.intern text).grows
  | name dotted =>
    obtain ⟨hf, hg, hname⟩ := FullName.ofText_stores h.faithful dotted
    exact (h.grow hf hg).hold hname
  | declare kind dotted params =>
    obtain ⟨hf, hg, hname⟩ := FullName.ofText_stores h.faithful dotted
    obtain ⟨hf', hg', hparams⟩ := hf.internAll params
    rw [← List.forall₂_eq_eq_eq, List.forall₂_map_left_iff, List.forall₂_map_right_iff] at hparams
    refine (h.grow hf' (hg.trans hg')).register ⟨Reads.grow hname hg', fun texts htexts => ?_⟩
    exact Option.some.inj htexts ▸ hparams
  | register held d =>
    show Keeps ((s.held[held]?).elim _ _) ((s.held[held]?).elim _ _)
    cases hp : s.held[held]? with
    | none => exact h
    | some p => exact h.register (d := { d with name := p.2 }) ⟨h.held p (List.mem_of_getElem? hp), nofun⟩
  | setBase q base? => exact h.update (f := fun d => { d with base? }) (fun _ => rfl) q
  | addInterface q i => exact h.update (f := fun d => { d with interfaces := d.interfaces ++ [i] }) (fun _ => rfl) q
  | lookup name => exact h
  | parse text scope? => exact h

theorem run {p : Session × Ledger} (h : Keeps p.1 p.2) (requests : List Request) :
    Keeps (Table.run p requests).1 (Table.run p requests).2 := by
  induction requests generalizing p with
  | nil => exact h
  | cons r requests ih => exact ih (h.step r)

theorem empty : Keeps ⟨.empty, []⟩ [] :=
  ⟨rfl, .empty .common, .empty .common, nofun, nofun⟩

theorem start (rooted : Bool) : Keeps (Table.start rooted).1 (Table.start rooted).2 := by
  cases rooted with
  | false => exact empty
  | true =>
    obtain ⟨hf, hg, hname⟩ := FullName.ofText_stores .common rootName
    have hroot : Keeps _ ([] ++ [Item.root]) :=
      (empty.grow hf hg).register ⟨hname, fun texts htexts => Option.some.inj htexts ▸ .nil⟩
    exact ⟨hroot.declarations, hroot.named, hroot.called, hroot.items, hroot.held⟩

theorem get? (h : Keeps s l) (q : Symbol) : s.table.get? q = l.get? q := by
  unfold Table.get? Ledger.get? Symbol.isValid
  rw [← Array.getElem?_toList, h.declarations, List.getElem?_map]
  by_cases hq : q.id = 0 <;> simp [hq]

theorem size (h : Keeps s l) : s.table.size = l.length := by
  rw [Table.size, ← Array.length_toList, h.declarations, List.length_map]

theorem lookup? (h : Keeps s l) (name : String) : s.table.lookup? name = l.lookup? name := by
  rw [Table.lookup?_eq h.named h.called, ← List.map_reverse, Ledger.lookup_map, Ledger.lookup_map, Ledger.lookup?]
  exact Option.map_or.symm

end Keeps

theorem update_of_unknown {t : Table} {q : Symbol} (h : t.contains q = false) (f : Declaration → Declaration) :
    t.update q f = t := by
  have hnone : t.get? q = none := by simpa [Table.contains] using h
  unfold Table.update
  split
  · rename_i hvalid
    rw [Table.get?, if_pos hvalid, Array.getElem?_eq_none_iff] at hnone
    have hsame : t.declarations.modify (q.id - 1) f = t.declarations := by
      refine Array.ext (by simp) fun i hi hi' => ?_
      rw [Array.getElem_modify, if_neg (by omega)]
    rw [hsame]
  · rfl

/-- The table is no different from the list: the symbols count from one, each has the declaration of its item, names and
    parameters read as they were written, names are found as in the list, whatever is declared or registered next gets
    the symbol of the place that the list has for it, and nothing can be done to a symbol that has no item. -/
structure Refines (t : Table) (l : Ledger) : Prop where
  symbols : t.symbols = (List.range l.length).map fun i => ⟨i + 1⟩
  get? : ∀ q, t.get? q = l.get? q
  names : ∀ item ∈ l, item.declaration.name.text t.names = item.fullName ∧
    t.names.text item.declaration.name.name = item.bareName
  params : ∀ item ∈ l, ∀ texts, item.params? = some texts → item.declaration.params.map t.names.text = texts
  lookup? : ∀ name, t.lookup? name = l.lookup? name
  declare : ∀ kind dotted params, (t.declare kind dotted params).2 = ⟨l.length + 1⟩
  register : ∀ d, (t.register d).2 = ⟨l.length + 1⟩
  unknown : ∀ q, t.contains q = false → (∀ base?, t.setBase q base? = t) ∧ ∀ i, t.addInterface q i = t

theorem Keeps.refines {s : Session} {l : Ledger} (h : Keeps s l) : Refines s.table l where
  symbols := by rw [Table.symbols, h.size]
  get? := h.get?
  names item hitem := by
    obtain ⟨hspace, hname⟩ := (h.items item hitem).name
    exact ⟨FullName.text_eq_join h.faithful hspace hname, NamePool.text_of_text? hname⟩
  params item hitem texts htexts := by
    rw [← List.forall₂_eq_eq_eq, List.forall₂_map_left_iff]
    exact ((h.items item hitem).params texts htexts).imp fun _ _ => NamePool.text_of_text?
  lookup? := h.lookup?
  declare _ _ _ := h.nextSymbol
  register _ := h.nextSymbol
  unknown q hq := ⟨fun base? => update_of_unknown hq _, fun i => update_of_unknown hq _⟩

/-- Whatever is asked for, and in whatever order, the table refines the list. -/
theorem refines_run (rooted : Bool) (requests : List Request) :
    Refines (run (start rooted) requests).1.table (run (start rooted) requests).2 :=
  ((Keeps.start rooted).run requests).refines

example :
    let t := (run (start true)
      [.declare .cls "A.X" ["T", "U"], .declare .interface "B.X" [], .declare .struct "A.X" ["T"]]).1.table
    t.lookup? "A.X" = some ⟨4⟩ ∧ t.lookup? "X" = some ⟨2⟩ ∧ t.lookup? "Object" = some ⟨1⟩ ∧ t.lookup? "A" = none ∧
      ∃ d, t.get? ⟨2⟩ = some d ∧ d.params.map t.names.text = ["T", "U"] ∧ d.base? = some ⟨⟨1⟩, []⟩ := by
  intro t
  have h := ((Keeps.start true).run
    [.declare .cls "A.X" ["T", "U"], .declare .interface "B.X" [], .declare .struct "A.X" ["T"]]).refines
  simp only [t, h.lookup?, h.get?]
  refine ⟨by decide +kernel, by decide +kernel, by decide +kernel, by decide +kernel, _, rfl, ?_, rfl⟩
  exact h.params _ (List.mem_cons_of_mem _ List.mem_cons_self) _ rfl

end Table

end Nominal
