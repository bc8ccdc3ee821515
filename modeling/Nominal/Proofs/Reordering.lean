import Mathlib.Data.Prod.Basic
import Mathlib.Logic.Equiv.Defs
import Nominal.Proofs.Equivariance
import Nominal.Proofs.Nominality
import Nominal.Proofs.Tokens
import Nominal.Table.Naming

/-! The order of the declarations in a universe does not matter, as long as no two of them have the same bare name.
    Other orders give the types other symbols. Names then lead to the new symbols, so expressions read as before under
    the new symbols, and the tables mirror each other. -/

namespace Nominal

/-! ### Names -/

section Lookup

variable {l l' : List (String × Symbol)} {x : String} {s : Symbol} {f : Symbol → Symbol}

theorem lookup_eq_some_iff_mem (h : (l.map Prod.fst).Nodup) : l.lookup x = some s ↔ (x, s) ∈ l := by
  induction l with
  | nil => simp
  | cons p l ih =>
    rw [List.map_cons, List.nodup_cons] at h
    rw [List.lookup_cons, List.mem_cons]
    by_cases hx : x = p.1
    · have hout : (x, s) ∉ l := fun hmem => h.1 (List.mem_map.mpr ⟨_, hmem, hx⟩)
      simp [hx, Prod.ext_iff, eq_comm, hx ▸ hout]
    · simp [hx, ih h.2, Prod.ext_iff, beq_false_of_ne hx]

/-- If the names are different, their order does not matter. -/
theorem lookup_of_perm (hnd : (l.map Prod.fst).Nodup) (hperm : l'.Perm (l.map (Prod.map id f))) (x : String) :
    l'.lookup x = (l.lookup x).map f := by
  have hnd' : (l'.map Prod.fst).Nodup := by
    have hkeys := hperm.map Prod.fst
    rw [List.map_map] at hkeys
    exact hkeys.nodup_iff.mpr hnd
  ext s'
  rw [lookup_eq_some_iff_mem hnd', hperm.mem_iff, Option.map_eq_some_iff]
  simp only [lookup_eq_some_iff_mem hnd, List.mem_map, Prod.exists, Prod.map_apply, id, Prod.mk.injEq]
  constructor
  · rintro ⟨y, s, hs, rfl, rfl⟩
    exact ⟨s, hs, rfl⟩
  · rintro ⟨s, hs, rfl⟩
    exact ⟨x, s, hs, rfl, rfl⟩

end Lookup

namespace Universe

variable {u u' : Universe} {e : Entry} {s s' : Symbol}

open BuildM

theorem Entry.of_check (h : e.check = .ok ()) :
    isWord e.name = true ∧ (e.space?.getD "" ≠ "" → isDottedWords (e.space?.getD "") = true) ∧
      checkParams e.fullName [] e.params = .ok () := by
  unfold Entry.check at h
  dsimp only at h
  split at h
  · cases h
  · rename_i hname
    split at h
    · cases h
    · rename_i hspace
      refine ⟨by simpa using hname, by simpa using hspace, ?_⟩
      cases hparams : checkParams e.fullName [] e.params with
      | error err =>
        rw [hparams] at h
        cases h
      | ok => rfl

/-- The full name of a proper declaration splits into its namespace and its name. -/
theorem Entry.splitLastDot_fullName (h : e.check = .ok ()) :
    splitLastDot e.fullName.toList = none ∧ e.fullName = e.name ∨
      ∃ space, space ≠ "" ∧ splitLastDot e.fullName.toList = some (space.toList, e.name.toList) := by
  have hname := not_mem_of_isWord (Entry.of_check h).1
  unfold Entry.fullName
  split
  · rename_i space _
    split
    · exact Or.inl ⟨FullName.splitLastDot_of_not_mem hname, rfl⟩
    · refine Or.inr ⟨space, ‹_›, ?_⟩
      have hsplit := @FullName.splitLastDot_append space.toList e.name.toList hname
      simpa using hsplit
  · exact Or.inl ⟨FullName.splitLastDot_of_not_mem hname, rfl⟩

theorem Entry.regular (h : e.check = .ok ()) : FullName.Regular e.fullName := by
  unfold FullName.Regular
  rcases Entry.splitLastDot_fullName h with ⟨hs, -⟩ | ⟨space, hne, hs⟩
  · simp [hs]
  · simpa [hs] using hne

theorem Entry.parts_fullName (h : e.check = .ok ()) : (FullName.parts e.fullName).2 = e.name := by
  unfold FullName.parts
  rcases Entry.splitLastDot_fullName h with ⟨hs, hn⟩ | ⟨space, hne, hs⟩
  · rw [hs]
    exact hn
  · rw [hs]
    simp

theorem fullName_linked_eq (s : Symbol) : u.linked.fullName s = u.declared.fullName s := by
  unfold Table.fullName Table.baseName
  rw [u.sameHeads_linked.spaceOf?, u.sameHeads_linked.nameOf?]

theorem fullName_of_texts {t : Table} {d : Declaration} {space name : String} (hd : t.get? s = some d)
    (hs : t.names.text? d.name.space = some space) (hn : t.names.text? d.name.name = some name) :
    t.fullName s = FullName.join space name := by
  simp [Table.fullName, Table.spaceOf?, Table.baseName, Table.nameOf?, hd, NamePool.text, hs, hn, FullName.join]

theorem fullName_linked (hreg : FullName.Regular e.fullName) (he : (e, s) ∈ u.entries) :
    u.linked.fullName s = e.fullName := by
  obtain ⟨d, hd, hheads⟩ := u.holds_declared.new e s he
  rw [fullName_linked_eq, fullName_of_texts hd hheads.space hheads.name, FullName.join_parts hreg]

theorem fullName_linked_root : u.linked.fullName root = Table.rootName := by
  obtain ⟨d, hd, -⟩ := u.holds_declared.rooted.declaration
  obtain ⟨hspace, hname⟩ := u.holds_declared.rooted.named d hd
  rw [fullName_linked_eq, fullName_of_texts hd hspace hname, FullName.join_parts (by decide)]

/-! ### Symbols -/

theorem exists_mem_entries_iff : (∃ e, (e, s) ∈ u.entries) ↔ 2 ≤ s.id ∧ s.id - 2 < u.types.length := by
  constructor
  · rintro ⟨e, he⟩
    obtain ⟨hle, he⟩ := mem_numbered.mp he
    exact ⟨hle, (List.getElem?_eq_some_iff.mp he).1⟩
  · rintro ⟨hle, hlt⟩
    exact ⟨u.types[s.id - 2], mem_numbered.mpr ⟨hle, List.getElem?_eq_getElem hlt⟩⟩

theorem symbol_unique (hnd : u.types.Nodup) (h : (e, s) ∈ u.entries) (h' : (e, s') ∈ u.entries) : s = s' := by
  obtain ⟨hle, he⟩ := mem_numbered.mp h
  obtain ⟨hle', he'⟩ := mem_numbered.mp h'
  obtain ⟨hlt, he⟩ := List.getElem?_eq_some_iff.mp he
  obtain ⟨hlt', he'⟩ := List.getElem?_eq_some_iff.mp he'
  have hidx := hnd.getElem_inj_iff.mp (he.trans he'.symm)
  obtain ⟨n⟩ := s
  obtain ⟨n'⟩ := s'
  simp only at hle hle' hidx
  congr 1
  omega

/-- The symbol in the second universe of the type that has a symbol in the first one. -/
def transfer (u u' : Universe) (s : Symbol) : Symbol :=
  if 2 ≤ s.id then
    match u.types[s.id - 2]? with
    | some e => ⟨u'.types.idxOf e + 2⟩
    | none => s
  else s

theorem transfer_mem (hsub : ∀ e ∈ u.types, e ∈ u'.types) (h : (e, s) ∈ u.entries) :
    (e, transfer u u' s) ∈ u'.entries := by
  have hmem := hsub e (mem_types_iff.mpr ⟨s, h⟩)
  obtain ⟨hle, he⟩ := mem_numbered.mp h
  rw [transfer, if_pos hle, he]
  exact mem_entries u' _ (List.getElem?_idxOf hmem)

theorem transfer_of_not_mem (h : ¬∃ e, (e, s) ∈ u.entries) : transfer u u' s = s := by
  unfold transfer
  split
  · split
    · rename_i hle _ e he
      exact absurd ⟨e, mem_numbered.mpr ⟨hle, he⟩⟩ h
    · rfl
  · rfl

theorem transfer_transfer (hnd : u.types.Nodup) (hperm : u'.types.Perm u.types) (s : Symbol) :
    transfer u' u (transfer u u' s) = s := by
  by_cases h : ∃ e, (e, s) ∈ u.entries
  · obtain ⟨e, he⟩ := h
    have hthere := transfer_mem (fun e he => hperm.mem_iff.mpr he) he
    exact symbol_unique hnd (transfer_mem (fun e he => hperm.mem_iff.mp he) hthere) he
  · have h' : ¬∃ e, (e, s) ∈ u'.entries := by
      rw [exists_mem_entries_iff, hperm.length_eq, ← exists_mem_entries_iff]
      exact h
    rw [transfer_of_not_mem h, transfer_of_not_mem h']

/-- The full names of the types and of the root, the latest first. -/
def fullNames (u : Universe) : List (String × Symbol) :=
  (u.entries.map fun p => (p.1.fullName, p.2)).reverse ++ [(Table.rootName, root)]

/-- The bare names of the types. -/
def bareNames (u : Universe) : List (String × Symbol) := u.entries.map fun p => (p.1.name, p.2)

theorem map_entries {α : Type} (g : Entry → α) :
    (u.entries.map fun p => (g p.1, p.2)).map Prod.fst = u.types.map g := by
  rw [List.map_map, entries, numbered, List.map_map]
  calc
    _ = ((u.types.zipIdx 2).map Prod.fst).map g := by
      rw [List.map_map]
      rfl
    _ = u.types.map g := by rw [List.zipIdx_map_fst]

theorem nodup_fullNames (hd : Declarable [] u.types) : (u.fullNames.map Prod.fst).Nodup := by
  rw [fullNames, List.map_append, List.map_reverse, map_entries, List.nodup_append]
  refine ⟨List.nodup_reverse.mpr hd.nodup, List.nodup_singleton _, fun x hx y hy => ?_⟩
  obtain ⟨e, he, rfl⟩ := List.mem_map.mp (List.mem_reverse.mp hx)
  rw [List.mem_singleton.mp hy]
  exact hd.notRoot e he

theorem nodup_bareNames (h : (u.types.map Entry.name).Nodup) : (u.bareNames.map Prod.fst).Nodup := by
  rw [bareNames, map_entries]
  exact h

theorem lookup?_declared_eq (hc : ∀ e ∈ u.types, e.check = .ok ()) (x : String) :
    u.declared.lookup? x =
      (u.fullNames.lookup x).or (((FullName.parts Table.rootName).2, root) :: u.bareNames |>.lookup x) := by
  have hnamed : u.declared.Named u.fullNames := named_declareTypes named_rooted fun e he => Entry.regular (hc e he)
  have hcalled : u.declared.Called (((FullName.parts Table.rootName).2, root) :: u.bareNames) := by
    have hbare : u.bareNames = u.entries.map fun p => ((FullName.parts p.1.fullName).2, p.2) := by
      refine List.map_congr_left fun p hp => ?_
      rw [Entry.parts_fullName (hc p.1 (mem_types_iff.mpr ⟨p.2, hp⟩))]
    rw [hbare]
    exact called_declareTypes called_rooted
  exact Table.lookup?_eq hnamed hcalled x

/-- The types of the second universe are those of the first, under other symbols. -/
structure Carries (π : Equiv.Perm Symbol) (u u' : Universe) : Prop where
  types : u'.types.Perm u.types
  root : π root = root
  entries : ∀ e s, (e, π s) ∈ u'.entries ↔ (e, s) ∈ u.entries

theorem exists_carries (hnd : u.types.Nodup) (hperm : u'.types.Perm u.types) : ∃ π, Carries π u u' := by
  have hnd' : u'.types.Nodup := hperm.nodup_iff.mpr hnd
  let π : Equiv.Perm Symbol :=
    ⟨transfer u u', transfer u' u, transfer_transfer hnd hperm, transfer_transfer hnd' hperm.symm⟩
  refine ⟨π, hperm, rfl, fun e s => ⟨fun h => ?_, transfer_mem fun e he => hperm.mem_iff.mpr he⟩⟩
  have hback : (e, transfer u' u (π s)) ∈ u.entries := transfer_mem (fun e he => hperm.mem_iff.mp he) h
  rw [show transfer u' u (π s) = s from π.symm_apply_apply s] at hback
  exact hback

namespace Carries

variable {π : Equiv.Perm Symbol} (h : Carries π u u')

include h

theorem symm : Carries π.symm u' u where
  types := h.types.symm
  root := by rw [Equiv.symm_apply_eq, h.root]
  entries e s := by rw [← h.entries, Equiv.apply_symm_apply]

theorem perm : u'.entries.Perm (u.entries.map (Prod.map id π)) := by
  have hnd {u : Universe} : u.entries.Nodup := List.Nodup.of_map _ nodup_entries
  refine (List.perm_ext_iff_of_nodup hnd (hnd.map (Function.injective_id.prodMap π.injective))).mpr fun ⟨e, s'⟩ => ?_
  obtain ⟨s, rfl⟩ := π.surjective s'
  rw [h.entries]
  simp

theorem map_perm {α : Type} (g : Entry → α) :
    (u'.entries.map fun p => (g p.1, p.2)).Perm ((u.entries.map fun p => (g p.1, p.2)).map (Prod.map id π)) := by
  have hmap := h.perm.map fun p => (g p.1, p.2)
  simpa [Function.comp_def] using hmap

theorem fullNames : u'.fullNames.Perm (u.fullNames.map (Prod.map id π)) := by
  have hlast : (Table.rootName, π Universe.root) = (Table.rootName, Universe.root) := by rw [h.root]
  rw [Universe.fullNames, Universe.fullNames, List.map_append, List.map_reverse, List.map_singleton]
  refine .append ?_ (.of_eq (congrArg (fun p => [p]) hlast.symm))
  exact (List.reverse_perm _).trans ((h.map_perm Entry.fullName).trans (List.reverse_perm _).symm)

/-- Names lead to the new symbols. -/
theorem lookup? (hd : Declarable [] u.types) (hnames : (u.types.map Entry.name).Nodup) (x : String) :
    u'.declared.lookup? x = (u.declared.lookup? x).map π := by
  have hchecked : ∀ e ∈ u'.types, e.check = .ok () := fun e he => hd.checked e (h.types.mem_iff.mp he)
  have hfull := lookup_of_perm (nodup_fullNames hd) h.fullNames x
  have hbare := lookup_of_perm (nodup_bareNames hnames) (h.map_perm Entry.name) x
  rw [lookup?_declared_eq hchecked, lookup?_declared_eq hd.checked, hfull, List.lookup_cons, List.lookup_cons]
  unfold bareNames
  rw [hbare]
  cases u.fullNames.lookup x with
  | some s => rfl
  | none =>
    cases x == (FullName.parts Table.rootName).2 with
    | true => exact congrArg some h.root.symm
    | false => rfl

theorem contains (s : Symbol) : u'.linked.contains (π s) = u.linked.contains s := by
  have hroot : π s = Universe.root ↔ s = Universe.root := π.injective.eq_iff' h.root
  rw [Bool.eq_iff_iff, contains_linked, contains_linked]
  simp only [h.entries, hroot]

/-- A symbol belongs to the root, to one type in both universes, or to nothing. -/
theorem symbol_cases (s : Symbol) : s = Universe.root ∨ (∃ e, (e, s) ∈ u.entries ∧ (e, π s) ∈ u'.entries) ∨
    (u.linked.get? s = none ∧ u'.linked.get? (π s) = none) := by
  cases hs : u.linked.contains s with
  | true =>
    rcases contains_linked.mp hs with hroot | ⟨e, he⟩
    · exact Or.inl hroot
    · exact Or.inr (Or.inl ⟨e, he, (h.entries e s).mpr he⟩)
  | false =>
    have hs' := (h.contains s).trans hs
    exact Or.inr (Or.inr ⟨by simpa [Table.contains] using hs, by simpa [Table.contains] using hs'⟩)

theorem arity? (s : Symbol) : TypeSource.arity? u'.linked (π s) = TypeSource.arity? u.linked s := by
  rcases h.symbol_cases s with rfl | ⟨e, he, he'⟩ | ⟨hs, hs'⟩
  · obtain ⟨d, hd, hparams, -⟩ := u.get?_linked_root
    obtain ⟨d', hd', hparams', -⟩ := u'.get?_linked_root
    simp [TypeSource.arity?, h.root, hd, hd', Declaration.arity, hparams, hparams']
  · rw [arity?_linked he, arity?_linked he']
  · simp [TypeSource.arity?, hs, hs']

theorem isInterface (s : Symbol) : isInterface u'.declared (π s) = isInterface u.declared s := by
  rw [Bool.eq_iff_iff, isInterface_iff, isInterface_iff]
  unfold IsInterface
  simp only [h.entries]

/-! ### Reading -/

section Reading

variable (hd : Declarable [] u.types) (hnames : (u.types.map Entry.name).Nodup)

include hd hnames

open Expression in
/-- In the scope of a type, names mean what they did. -/
theorem agrees (he : (e, s) ∈ u.entries) (n : Nat) :
    Context.Agrees π ⟨u.declared, some s, n⟩ ⟨u'.declared, some (π s), n⟩ where
  lastColumn := rfl
  param? name := by
    rw [param?_declared he, param?_declared ((h.entries e s).mpr he)]
    split
    · rfl
    · cases e.params.idxOf? name <;> rfl
  resolve name column := by
    unfold Context.resolve
    rw [h.lookup? hd hnames]
    cases u.declared.lookup? name with
    | none => rfl
    | some q =>
      have harity : TypeSource.arity? u'.declared (π q) = TypeSource.arity? u.declared q := by
        rw [← arity?_linked_eq, ← arity?_linked_eq, h.arity?]
      exact congrArg (fun n => Except.ok (π q, n.getD 0)) harity

theorem read? (he : (e, s) ∈ u.entries) (text : String) :
    read? u'.declared (π s) text = (read? u.declared s text).map (TypeRef.rename π) := by
  unfold Universe.read?
  rw [Table.parse_rename text (h.agrees hd hnames he)]
  cases u.declared.parse text (some s) <;> rfl

theorem parse_ok (he : (e, s) ∈ u.entries) {text : String} {r : TypeRef} (hr : u.declared.parse text (some s) = .ok r) :
    u'.declared.parse text (some (π s)) = .ok (r.rename π) := by
  rw [Table.parse_rename text (h.agrees hd hnames he), hr]
  rfl

theorem reads (he : (e, s) ∈ u.entries) (hr : Reads u.declared e s) : Reads u'.declared e (π s) := by
  obtain ⟨hbase, hinterfaces⟩ := hr
  refine ⟨fun text htext => ?_, fun text htext => ?_⟩
  · obtain ⟨hkind, r, hr, hint⟩ := hbase text htext
    exact ⟨hkind, r.rename π, h.parse_ok hd hnames he hr, (h.isInterface r.symbol).trans hint⟩
  · obtain ⟨r, hr, hint⟩ := hinterfaces text htext
    exact ⟨r.rename π, h.parse_ok hd hnames he hr, (h.isInterface r.symbol).trans hint⟩

end Reading

/-- The tables mirror each other. -/
theorem mirrors (hd : Declarable [] u.types) (hnames : (u.types.map Entry.name).Nodup) :
    u.linked.Mirrors π u'.linked := by
  intro s
  rcases h.symbol_cases s with rfl | ⟨e, he, he'⟩ | ⟨hs, hs'⟩
  · obtain ⟨d, hget, hparams, hbase, hinterfaces, hroot⟩ := u.get?_linked_root
    obtain ⟨d', hget', hparams', hbase', hinterfaces', hroot'⟩ := u'.get?_linked_root
    refine Or.inr ⟨d, d', hget, h.root.symm ▸ hget', ?_, ?_, ?_, ?_⟩
    · rw [Declaration.arity, Declaration.arity, hparams, hparams']
    · rw [hbase, hbase']
      rfl
    · rw [hinterfaces, hinterfaces']
      rfl
    · rw [hroot, hroot']
  · obtain ⟨d, hget, harity, hroot, hinterfaces, hbase⟩ := get?_linked he
    obtain ⟨d', hget', harity', hroot', hinterfaces', hbase'⟩ := get?_linked he'
    have hread := h.read? hd hnames he
    refine Or.inr ⟨d, d', hget, hget', ?_, ?_, ?_, ?_⟩
    · rw [harity, harity']
    · have hdefault : (if e.kind = .cls then some ⟨Universe.root, []⟩ else none) =
          Option.map (TypeRef.rename π) (if e.kind = .cls then some ⟨Universe.root, []⟩ else none) := by
        split
        · simp [TypeRef.rename, TypeArg.renameAll, h.root]
        · rfl
      rw [hbase, hbase']
      cases e.base? with
      | none => exact hdefault
      | some text =>
        rw [Option.bind_some, Option.bind_some, hread]
        cases Universe.read? u.declared s text with
        | none => exact hdefault
        | some r => rfl
    · rw [hinterfaces, hinterfaces', List.map_filterMap]
      congr 1
      funext text
      exact hread text
    · rw [hroot, hroot']
  · exact Or.inl ⟨hs, hs'⟩

theorem clear (hm : u.linked.Mirrors π u'.linked) (hc : Clear u.linked s) : Clear u'.linked (π s) := by
  have hsource := hm.source π.injective
  have hwhole : wholeTable u'.linked = wholeTable u.linked := by
    unfold wholeTable
    rw [size_linked, size_linked, h.types.length_eq]
  refine ⟨fun r' hr' => ?_, fun i hi => ?_⟩
  · rw [hsource.definition?] at hr'
    obtain ⟨r, hr, rfl⟩ := Option.map_eq_some_iff.mp hr'
    obtain ⟨l, hl⟩ := hc.supertypes r hr
    refine ⟨l.map (TypeRef.rename π), ?_⟩
    rw [hwhole, hsource.supertypesOf, hl]
    rfl
  · rw [hm.interfaces π.injective] at hi
    obtain ⟨j, hj, rfl⟩ := List.mem_map.mp hi
    exact fun hs => hc.interfaces j hj (π.injective hs)

/-- A universe passes if it passes in another order. -/
theorem passes (hnames : (u.types.map Entry.name).Nodup) (hp : u.Passes) : u'.Passes where
  declarable := by
    obtain ⟨hchecked, hroot, -, hnd⟩ := hp.declarable
    refine ⟨fun e he => hchecked e (h.types.mem_iff.mp he), fun e he => hroot e (h.types.mem_iff.mp he), by simp, ?_⟩
    exact (h.types.map Entry.fullName).nodup_iff.mpr hnd
  reads := by
    rintro ⟨e, s'⟩ he'
    obtain ⟨s, rfl⟩ := π.surjective s'
    exact h.reads hp.declarable hnames ((h.entries e s).mp he') (hp.reads (e, s) ((h.entries e s).mp he'))
  clear := by
    rintro ⟨e, s'⟩ he'
    obtain ⟨s, rfl⟩ := π.surjective s'
    exact h.clear (h.mirrors hp.declarable hnames) (hp.clear (e, s) ((h.entries e s).mp he'))

theorem fullName (hc : ∀ e ∈ u.types, e.check = .ok ()) (hs : u.linked.contains s = true) :
    u'.linked.fullName (π s) = u.linked.fullName s := by
  rcases contains_linked.mp hs with rfl | ⟨e, he⟩
  · rw [h.root, fullName_linked_root, fullName_linked_root]
  · have hreg := Entry.regular (hc e (mem_types_iff.mpr ⟨s, he⟩))
    rw [fullName_linked hreg he, fullName_linked hreg ((h.entries e s).mpr he)]

end Carries

end Universe

/-- The order of declarations with different bare names does not matter. In another order they have a table if they had
    one before, and up to a renaming of symbols that keeps the names and the root it answers every query as before. -/
theorem build_perm (u u' : Universe) (hperm : u'.types.Perm u.types)
    (hnames : (u.types.map Universe.Entry.name).Nodup) :
    ((∃ t, u.build.value = .ok t) ↔ ∃ t', u'.build.value = .ok t') ∧
    ∀ t t', u.build.value = .ok t → u'.build.value = .ok t' → ∃ π : Equiv.Perm Symbol,
      (∀ s, t'.contains (π s) = t.contains s) ∧ (∀ s, TypeSource.isRoot t' (π s) = TypeSource.isRoot t s) ∧
      (∀ s, t.contains s = true → t'.fullName (π s) = t.fullName s) ∧
      ∀ p a b, ((Unifier.ofProfile p).unify t' (a.rename π) (b.rename π)).result =
        renamed π (Unification.rename π) ((Unifier.ofProfile p).unify t a b).result := by
  have hnames' : (u'.types.map Universe.Entry.name).Nodup := (hperm.map Universe.Entry.name).nodup_iff.mpr hnames
  obtain ⟨π, hπ⟩ := Universe.exists_carries (List.Nodup.of_map _ hnames) hperm
  refine ⟨⟨fun ⟨t, ht⟩ => ?_, fun ⟨t', ht'⟩ => ?_⟩, fun t t' ht ht' => ⟨π, ?_⟩⟩
  · exact ⟨u'.linked, Universe.build_of_passes (hπ.passes hnames (Universe.build_eq_ok ht).1)⟩
  · exact ⟨u.linked, Universe.build_of_passes (hπ.symm.passes hnames' (Universe.build_eq_ok ht').1)⟩
  · obtain ⟨hpass, rfl⟩ := Universe.build_eq_ok ht
    obtain ⟨-, rfl⟩ := Universe.build_eq_ok ht'
    have hsource := (hπ.mirrors hpass.declarable hnames).source π.injective
    exact ⟨hπ.contains, hsource.isRoot, fun s hs => hπ.fullName hpass.declarable.checked hs, unify_rename hsource⟩

open Universe in
/-- The container may be declared before the class that it extends, and that one before its interface. -/
theorem build_perm_crates :
    let reversed : Universe := ⟨crates.types.reverse⟩
    ∃ t', reversed.build.value = .ok t' ∧ ∃ π : Equiv.Perm Symbol, t'.fullName (π ⟨2⟩) = "IItem" ∧
      ∀ p a b, ((Unifier.ofProfile p).unify t' (a.rename π) (b.rename π)).result =
        renamed π (Unification.rename π) ((Unifier.ofProfile p).unify crates.linked a b).result := by
  intro reversed
  obtain ⟨hiff, hsame⟩ := build_perm crates reversed (List.reverse_perm _) (by decide)
  obtain ⟨t', ht'⟩ := hiff.mp ⟨_, build_crates⟩
  obtain ⟨π, -, -, hname, hanswer⟩ := hsame _ t' build_crates ht'
  have hmem := mem_entries crates 0 rfl
  refine ⟨t', ht', π, ?_, hanswer⟩
  rw [hname _ (contains_linked.mpr (Or.inr ⟨_, hmem⟩)), fullName_linked (by decide) hmem]
  rfl

end Nominal
