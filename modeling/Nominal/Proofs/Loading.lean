import Nominal.Proofs.Ancestry
import Nominal.Proofs.Expression
import Nominal.Proofs.Search
import Nominal.Universe.Build

/-! What the passes over a universe do. The first one succeeds if every type is declared properly and once, and leaves
    the table `Universe.declared`; the second one succeeds if every base and interface reads as one in that table, and
    leaves the table `Universe.linked`; the third one leaves the table as it is. Each step is described by when it
    succeeds and by what it leaves (`BuildM.Yields`). -/

namespace Nominal

namespace Universe

/-- What a text reads as in the scope of a symbol, if it reads as anything. -/
def read? (t : Table) (s : Symbol) (text : String) : Option TypeRef := (t.parse text (some s)).toOption

theorem read?_eq_some {t : Table} {s : Symbol} {text : String} {r : TypeRef} :
    read? t s text = some r ↔ t.parse text (some s) = .ok r := by
  unfold read?
  cases t.parse text (some s) <;> simp [Except.toOption]

/-- A declaration with the base that is written, if one is. -/
def Entry.linkBase (t : Table) (e : Entry) (s : Symbol) (d : Declaration) : Declaration :=
  { d with base? := e.base?.bind (read? t s) <|> d.base? }

/-- A declaration with further interfaces as they are written. -/
def linkInterfaces (t : Table) (s : Symbol) (texts : List String) (d : Declaration) : Declaration :=
  { d with interfaces := d.interfaces ++ texts.filterMap (read? t s) }

/-- A declaration with the base and the interfaces that are written. -/
def Entry.link (t : Table) (e : Entry) (s : Symbol) : Declaration → Declaration :=
  linkInterfaces t s e.interfaces ∘ e.linkBase t s

namespace BuildM

variable {P : UniverseError → Prop} {α β : Type} {c c' : Prop} {t t' : Table} {b : Build} {e : Entry} {s : Symbol}

/-! ### Steps of a build -/

/-- The step succeeds exactly if `c` holds, and then it answers `a` and leaves the table `t`. Otherwise its error
    satisfies `P`. -/
def Yields (P : UniverseError → Prop) (c : Prop) (a : α) (t : Table) (x : BuildM α) (b : Build) : Prop :=
  (c ∧ ∃ events, x b = (.ok a, ⟨t, events⟩)) ∨ (¬c ∧ ∃ err b', x b = (.error err, b') ∧ P err)

namespace Yields

variable {a : α} {a' : β} {x : BuildM α} {f : α → BuildM β}

theorem of_iff (h : Yields P c a t x b) (hc : c ↔ c') : Yields P c' a t x b := by
  rw [← propext hc]
  exact h

theorem pure : Yields P True a b.table (Pure.pure a) b := Or.inl ⟨trivial, b.events, rfl⟩

theorem bind (hx : Yields P c a t x b) (hf : c → ∀ events, Yields P c' a' t' (f a) ⟨t, events⟩) :
    Yields P (c ∧ c') a' t' (x >>= f) b := by
  rcases hx with ⟨hc, events, hx⟩ | ⟨hc, err, b', hx, hp⟩
  · have hrun : (x >>= f) b = f a ⟨t, events⟩ := Attempt.bind_of_ok hx
    rcases hf hc events with ⟨hc', events', hf⟩ | ⟨hc', err, b', hf, hp⟩
    · exact Or.inl ⟨⟨hc, hc'⟩, events', hrun.trans hf⟩
    · exact Or.inr ⟨fun h => hc' h.2, err, b', hrun.trans hf, hp⟩
  · exact Or.inr ⟨fun h => hc h.1, err, b', Attempt.bind_of_error hx, hp⟩

theorem require {ok : Bool} {err : UniverseError} (hp : P err) :
    Yields P (ok = true) () b.table (Attempt.require ok err) b := by
  cases ok with
  | true => exact Or.inl ⟨rfl, b.events, rfl⟩
  | false => exact Or.inr ⟨Bool.false_ne_true, err, b, rfl, hp⟩

theorem check {r : Except UniverseError Unit} (hp : ∀ err, r = .error err → P err) :
    Yields P (r = .ok ()) () b.table (Attempt.ofExcept r) b := by
  cases r with
  | ok => exact Or.inl ⟨rfl, b.events, rfl⟩
  | error err => exact Or.inr ⟨nofun, err, b, rfl, hp err rfl⟩

theorem succeed (hf : Yields P c a' t' (f a) b) : Yields P c a' t' (Attempt.ofExcept (.ok a) >>= f) b := hf

theorem fail {err : UniverseError} (hc : ¬c) (hp : P err) : Yields P c a' t' (Attempt.ofExcept (.error err) >>= f) b :=
  Or.inr ⟨hc, err, b, rfl, hp⟩

theorem view {g : Build → α} : Yields P True (g b) b.table (Attempt.view g) b := Or.inl ⟨trivial, b.events, rfl⟩

theorem change {g : Build → Build} : Yields P True () (g b).table (Attempt.change g) b :=
  Or.inl ⟨trivial, (g b).events, rfl⟩

/-- Steps in a row, each of which leaves the table as `step` says. -/
theorem forM {l : List α} {y : α → BuildM Unit} {cond : α → Prop} {step : Table → α → Table} (inv : Table → Prop)
    (hy : ∀ x ∈ l, ∀ t events, inv t → Yields P (cond x) () (step t x) (y x) ⟨t, events⟩)
    (hinv : ∀ x ∈ l, ∀ t, inv t → inv (step t x)) (hb : inv b.table) :
    Yields P (∀ x ∈ l, cond x) () (l.foldl step b.table) (l.forM y) b := by
  induction l generalizing b with
  | nil => exact pure.of_iff (by simp)
  | cons x l ih =>
    have hx := hy x List.mem_cons_self b.table b.events hb
    refine of_iff (hx.bind fun _ events => ?_) List.forall_mem_cons.symm
    exact ih (fun z hz => hy z (List.mem_cons_of_mem x hz)) (fun z hz => hinv z (List.mem_cons_of_mem x hz))
      (hinv x List.mem_cons_self _ hb)

end Yields

/-! ### Declaring types -/

theorem checkParams_error {owner : String} {seen params : List String} {err : UniverseError}
    (h : checkParams owner seen params = .error err) : err.failure? = none := by
  induction params generalizing seen with
  | nil => cases h
  | cons p rest ih =>
    unfold checkParams at h
    split at h
    · cases h
      rfl
    · split at h
      · cases h
        rfl
      · exact ih h

theorem check_error {err : UniverseError} (h : e.check = .error err) : err.failure? = none := by
  unfold Entry.check at h
  dsimp only at h
  split at h
  · cases h
    rfl
  · split at h
    · cases h
      rfl
    · cases hp : checkParams e.fullName [] e.params with
      | error err' =>
        rw [hp] at h
        cases h
        exact checkParams_error hp
      | ok =>
        rw [hp] at h
        dsimp only at h
        split at h
        · cases h
          rfl
        · cases h

theorem declare_yields (hP : ∀ err, err.failure? = none → P err) (seen : List String) :
    Yields P (e.check = .ok () ∧ e.fullName ≠ Table.rootName ∧ e.fullName ∉ seen) b.table.nextSymbol
      (b.table.declare e.kind e.fullName e.params).1 (declare seen e) b := by
  unfold declare
  refine .bind (.check fun err h => hP err (check_error h)) fun _ _ => ?_
  refine .of_iff (.bind (.require (hP _ rfl)) fun _ _ => ?_) (by rw [decide_eq_true_iff])
  refine .of_iff (.bind (.require (hP _ rfl)) fun _ _ => ?_) (by rw [decide_eq_true_iff, and_true])
  refine .of_iff (.bind .view fun _ _ => ?_) (Iff.of_eq (true_and True))
  exact .of_iff (.bind .change fun _ _ => .bind .change fun _ _ => .pure) (by simp)

/-- The types from a symbol on, each with its own. -/
def numbered (n : Nat) (es : List Entry) : List (Entry × Symbol) := (es.zipIdx n).map fun p => (p.1, ⟨p.2⟩)

theorem numbered_cons (n : Nat) (e : Entry) (es : List Entry) :
    numbered n (e :: es) = (e, ⟨n⟩) :: numbered (n + 1) es := by
  simp [numbered, List.zipIdx_cons]

/-- Types with proper declarations and names, none of which is the root's or in `seen` or used twice. -/
structure Declarable (seen : List String) (es : List Entry) : Prop where
  checked : ∀ e ∈ es, e.check = .ok ()
  notRoot : ∀ e ∈ es, e.fullName ≠ Table.rootName
  unseen : ∀ e ∈ es, e.fullName ∉ seen
  nodup : (es.map Entry.fullName).Nodup

theorem declarable_cons {seen : List String} {es : List Entry} :
    Declarable seen (e :: es) ↔
      (e.check = .ok () ∧ e.fullName ≠ Table.rootName ∧ e.fullName ∉ seen) ∧ Declarable (e.fullName :: seen) es := by
  constructor
  · rintro ⟨hc, hr, hu, hn⟩
    rw [List.forall_mem_cons] at hc hr hu
    rw [List.map_cons, List.nodup_cons] at hn
    refine ⟨⟨hc.1, hr.1, hu.1⟩, hc.2, hr.2, fun e' he' hmem => ?_, hn.2⟩
    rcases List.mem_cons.mp hmem with heq | hmem
    · exact hn.1 (heq ▸ List.mem_map_of_mem he')
    · exact hu.2 e' he' hmem
  · rintro ⟨⟨hc, hr, hu⟩, hc', hr', hu', hn'⟩
    refine ⟨List.forall_mem_cons.mpr ⟨hc, hc'⟩, List.forall_mem_cons.mpr ⟨hr, hr'⟩,
      List.forall_mem_cons.mpr ⟨hu, fun e' he' hmem => hu' e' he' (List.mem_cons_of_mem _ hmem)⟩, ?_⟩
    rw [List.map_cons, List.nodup_cons]
    refine ⟨fun hmem => ?_, hn'⟩
    obtain ⟨e', he', heq⟩ := List.mem_map.mp hmem
    exact hu' e' he' (heq ▸ List.mem_cons_self)

/-- The table after types are declared in order. -/
def declareTypes (t : Table) (es : List Entry) : Table :=
  es.foldl (fun t e => (t.declare e.kind e.fullName e.params).1) t

theorem size_declare (t : Table) (kind : Kind) (dotted : String) (params : List String) :
    (t.declare kind dotted params).1.size = t.size + 1 := by
  unfold Table.declare
  exact Table.size_register

theorem declareAll_yields (hP : ∀ err, err.failure? = none → P err) (seen : List String) (es : List Entry) :
    Yields P (Declarable seen es) (numbered (b.table.size + 1) es) (declareTypes b.table es)
      (declareAll seen es) b := by
  induction es generalizing seen b with
  | nil => exact Yields.pure.of_iff ⟨fun _ => ⟨by simp, by simp, by simp, by simp⟩, fun _ => trivial⟩
  | cons e es ih =>
    rw [numbered_cons]
    refine .of_iff (.bind (declare_yields hP seen) fun _ events => ?_) declarable_cons.symm
    have hrest := @ih ⟨(b.table.declare e.kind e.fullName e.params).1, events⟩ (e.fullName :: seen)
    rw [size_declare] at hrest
    exact .of_iff (.bind hrest fun _ _ => .pure) (Iff.of_eq (and_true _))

/-! ### Reading bases and interfaces -/

variable {D : Table}

theorem isInterface_congr (h : Table.SameHeads D t) : isInterface t s = isInterface D s := by
  have hkind := h.map_get? (f := Declaration.kind) (fun _ => rfl) s
  unfold isInterface
  cases hd : D.get? s <;> cases hd' : t.get? s <;> simp_all

/-- The base of `e`, if it has one, reads as something that may be extended. -/
def BaseReads (D : Table) (e : Entry) (s : Symbol) : Prop :=
  ∀ text, e.base? = some text →
    e.kind ≠ .interface ∧ ∃ r, D.parse text (some s) = .ok r ∧ isInterface D r.symbol = false

/-- The text reads as an interface. -/
def InterfaceReads (D : Table) (s : Symbol) (text : String) : Prop :=
  ∃ r, D.parse text (some s) = .ok r ∧ isInterface D r.symbol = true

theorem resolveBase_yields (hP : ∀ err, err.failure? = none → P err) (hD : Table.SameHeads D b.table) :
    Yields P (BaseReads D e s) () (b.table.update s (e.linkBase D s)) (resolveBase e s) b := by
  unfold resolveBase BaseReads
  cases hb : e.base? with
  | none =>
    have hid : e.linkBase D s = id := by
      funext d
      simp [Entry.linkBase, hb]
    rw [hid, Table.update_id]
    exact .of_iff .pure (by simp)
  | some text =>
    refine .of_iff (c := e.kind ≠ .interface ∧ ∃ r, D.parse text (some s) = .ok r ∧ isInterface D r.symbol = false) ?_
      (by simp)
    refine .of_iff (.bind (.require (hP _ rfl)) fun _ _ => ?_) (by rw [decide_eq_true_iff])
    refine .of_iff (.bind .view fun _ _ => ?_) (Iff.of_eq (true_and _))
    show Yields _ _ _ _ (Attempt.ofExcept ((b.table.parse text (some s)).mapError _) >>= _) _
    rw [hD.parse]
    cases hr : D.parse text (some s) with
    | error err => exact .fail (by simp) (hP _ rfl)
    | ok r =>
      refine .succeed ?_
      have hlink : e.linkBase D s = fun d => { d with base? := some r } := by
        funext d
        simp [Entry.linkBase, hb, read?_eq_some.mpr hr]
      rw [hlink]
      refine .of_iff (.bind (.require (hP _ rfl)) fun _ _ => .change) ?_
      show (!isInterface b.table r.symbol) = true ∧ True ↔ _
      simp [isInterface_congr hD]

theorem resolveInterface_yields (hP : ∀ err, err.failure? = none → P err) (hD : Table.SameHeads D b.table)
    (text : String) :
    Yields P (InterfaceReads D s text) () (b.table.update s (linkInterfaces D s [text]))
      (resolveInterface e s text) b := by
  unfold resolveInterface InterfaceReads
  refine .of_iff (.bind .view fun _ _ => ?_) (Iff.of_eq (true_and _))
  show Yields _ _ _ _ (Attempt.ofExcept ((b.table.parse text (some s)).mapError _) >>= _) _
  rw [hD.parse]
  cases hr : D.parse text (some s) with
  | error err => exact .fail (by simp) (hP _ rfl)
  | ok r =>
    refine .succeed ?_
    have hlink : linkInterfaces D s [text] = fun d => { d with interfaces := d.interfaces ++ [r] } := by
      funext d
      simp [linkInterfaces, read?_eq_some.mpr hr]
    rw [hlink]
    refine .of_iff (.bind (.require (hP _ rfl)) fun _ _ => .change) ?_
    show isInterface b.table r.symbol = true ∧ True ↔ _
    simp [isInterface_congr hD]

theorem foldl_linkInterfaces (t : Table) (texts : List String) :
    texts.foldl (fun t text => t.update s (linkInterfaces D s [text])) t = t.update s (linkInterfaces D s texts) := by
  induction texts generalizing t with
  | nil =>
    have hid : linkInterfaces D s [] = id := by
      funext d
      simp [linkInterfaces]
    rw [List.foldl_nil, hid, Table.update_id]
  | cons text texts ih =>
    have hcons : linkInterfaces D s (text :: texts) = linkInterfaces D s texts ∘ linkInterfaces D s [text] := by
      funext d
      cases hr : read? D s text <;> simp [linkInterfaces, hr]
    rw [List.foldl_cons, ih, Table.update_update, hcons]

/-- What the second pass asks of a type. -/
def Reads (D : Table) (e : Entry) (s : Symbol) : Prop :=
  BaseReads D e s ∧ ∀ text ∈ e.interfaces, InterfaceReads D s text

theorem resolve_yields (hP : ∀ err, err.failure? = none → P err) (hD : Table.SameHeads D b.table) :
    Yields P (Reads D e s) () (b.table.update s (e.link D s)) (resolve e s) b := by
  unfold resolve
  refine .bind (resolveBase_yields hP hD) fun _ events => ?_
  have hbase : Table.SameHeads D (b.table.update s (e.linkBase D s)) := hD.trans (.update fun _ => rfl)
  rw [Entry.link, ← Table.update_update, ← foldl_linkInterfaces]
  refine .forM (Table.SameHeads D) (fun text _ t events ht => ?_)
    (fun text _ t ht => ht.trans (.update fun _ => rfl)) hbase
  exact resolveInterface_yields hP ht text

/-! ### Checking inheritance -/

/-- What the third pass asks of a symbol. -/
structure Clear (t : Table) (s : Symbol) : Prop where
  supertypes : ∀ r, TypeSource.definition? t s = some r → ∃ l, supertypesOf t r (wholeTable t) = .ok l
  interfaces : ∀ i ∈ t.interfaces s, i.symbol ≠ s

theorem checkInheritance_yields (hP : ∀ err, err.failure? = none → P err)
    (hf : ∀ r f, TypeSource.definition? b.table s = some r →
      supertypesOf b.table r (wholeTable b.table) = .error f → P (.badInheritance e.fullName f)) :
    Yields P (Clear b.table s) () b.table (checkInheritance e s) b := by
  unfold checkInheritance
  have hloop (b' : Build) : Yields P (∀ i ∈ b.table.interfaces s, i.symbol ≠ s) () b'.table
      (Attempt.require (!(b.table.interfaces s).any (·.symbol = s)) (.interfaceLoop e.fullName)) b' :=
    .of_iff (.require (hP _ rfl)) (by simp)
  refine .of_iff (.bind .view fun _ events => ?_) (Iff.of_eq (true_and _))
  dsimp only
  cases hr : TypeSource.definition? b.table s with
  | none => exact .of_iff (hloop _) ⟨fun h => ⟨by simp [hr], h⟩, fun h => h.interfaces⟩
  | some r =>
    refine .of_iff (.bind .change fun _ events => ?_) (Iff.of_eq (true_and _))
    show Yields _ _ _ _ (Attempt.ofExcept ((supertypesOf b.table r (wholeTable b.table)).mapError _) >>= _) _
    cases hs : supertypesOf b.table r (wholeTable b.table) with
    | error f => exact .fail (fun h => by obtain ⟨l, hl⟩ := h.supertypes r hr; simp_all) (hf r f hr hs)
    | ok l =>
      refine .succeed (.of_iff (hloop _) ⟨fun h => ⟨fun r' hr' => ?_, h⟩, fun h => h.interfaces⟩)
      cases hr.symm.trans hr'
      exact ⟨l, hs⟩

end BuildM

/-! ### The whole build -/

open BuildM

/-- Every type with its symbol. The root has the first one. -/
def entries (u : Universe) : List (Entry × Symbol) := numbered 2 u.types

/-- The table in which all types are declared and nothing else is said about them. -/
def declared (u : Universe) : Table := declareTypes .rooted u.types

/-- The table in which all types are declared with the bases and interfaces that are written. -/
def linked (u : Universe) : Table :=
  u.entries.foldl (fun t p => t.update p.2 (p.1.link u.declared p.2)) u.declared

/-- What the three passes ask of a universe. -/
structure Passes (u : Universe) : Prop where
  declarable : Declarable [] u.types
  reads : ∀ p ∈ u.entries, Reads u.declared p.1 p.2
  clear : ∀ p ∈ u.entries, Clear u.linked p.2

theorem sameHeads_linked (u : Universe) : Table.SameHeads u.declared u.linked := by
  have hfold (l : List (Entry × Symbol)) (t : Table) (ht : Table.SameHeads u.declared t) :
      Table.SameHeads u.declared (l.foldl (fun t p => t.update p.2 (p.1.link u.declared p.2)) t) := by
    induction l generalizing t with
    | nil => exact ht
    | cons p l ih => exact ih _ (ht.trans (.update fun _ => rfl))
  exact hfold u.entries u.declared (.refl _)

theorem all_yields {P : UniverseError → Prop} (u : Universe) (hP : ∀ err, err.failure? = none → P err)
    (hf : ∀ p ∈ u.entries, ∀ r f, TypeSource.definition? u.linked p.2 = some r →
      supertypesOf u.linked r (wholeTable u.linked) = .error f → P (.badInheritance p.1.fullName f)) :
    Yields P u.Passes () u.linked (all u) .start := by
  have hpasses : u.Passes ↔ Declarable [] u.types ∧ (∀ p ∈ u.entries, Reads u.declared p.1 p.2) ∧
      (∀ p ∈ u.entries, Clear u.linked p.2) ∧ True :=
    ⟨fun h => ⟨h.declarable, h.reads, h.clear, trivial⟩, fun ⟨h₁, h₂, h₃, _⟩ => ⟨h₁, h₂, h₃⟩⟩
  refine .of_iff (.bind (declareAll_yields hP [] u.types) fun _ events => ?_) hpasses.symm
  have hlinks : Yields P (∀ p ∈ u.entries, Reads u.declared p.1 p.2) () u.linked
      (u.entries.forM fun p => resolve p.1 p.2) ⟨u.declared, events⟩ :=
    .forM (Table.SameHeads u.declared) (fun p _ t events ht => resolve_yields hP ht)
      (fun p _ t ht => ht.trans (.update fun _ => rfl)) (.refl _)
  refine .bind hlinks fun _ events => ?_
  have hsame (l : List (Entry × Symbol)) : l.foldl (fun t _ => t) u.linked = u.linked := by
    induction l with
    | nil => rfl
    | cons p l ih => exact ih
  have hchecks : Yields P (∀ p ∈ u.entries, Clear u.linked p.2) () (u.entries.foldl (fun t _ => t) u.linked)
      (u.entries.forM fun p => checkInheritance p.1 p.2) ⟨u.linked, events⟩ := by
    refine .forM (· = u.linked) (fun p hp t events ht => ?_) (fun _ _ _ ht => ht) rfl
    subst ht
    exact checkInheritance_yields (b := ⟨u.linked, events⟩) hP (hf p hp)
  rw [hsame] at hchecks
  exact .bind hchecks fun _ _ => .change

theorem build_cases {P : UniverseError → Prop} (u : Universe) (hP : ∀ err, err.failure? = none → P err)
    (hf : ∀ p ∈ u.entries, ∀ r f, TypeSource.definition? u.linked p.2 = some r →
      supertypesOf u.linked r (wholeTable u.linked) = .error f → P (.badInheritance p.1.fullName f)) :
    (u.Passes ∧ u.build.value = .ok u.linked) ∨ (¬u.Passes ∧ ∃ err, u.build.value = .error err ∧ P err) := by
  unfold build
  rcases all_yields u hP hf with ⟨hpass, events, h⟩ | ⟨hpass, err, b, h, hp⟩
  · exact Or.inl ⟨hpass, by rw [h]⟩
  · exact Or.inr ⟨hpass, err, by rw [h], hp⟩

theorem build_of_passes {u : Universe} (h : u.Passes) : u.build.value = .ok u.linked := by
  rcases u.build_cases (P := fun _ => True) (fun _ _ => trivial) (fun _ _ _ _ _ _ => trivial) with ⟨-, hok⟩ | ⟨hpass, -⟩
  · exact hok
  · exact absurd h hpass

theorem build_eq_ok {u : Universe} {t : Table} (h : u.build.value = .ok t) : u.Passes ∧ t = u.linked := by
  rcases u.build_cases (P := fun _ => True) (fun _ _ => trivial) (fun _ _ _ _ _ _ => trivial) with
    ⟨hpass, hok⟩ | ⟨-, err, herr, -⟩
  · cases h.symm.trans hok
    exact ⟨hpass, rfl⟩
  · cases h.symm.trans herr

end Universe

end Nominal
