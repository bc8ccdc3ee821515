import Nominal.Proofs.JsonText
import Nominal.Universe.Reader

/-! Universes outlive their JSON. A declaration is read from any object that says about it all there is to say, in
    whatever order, and that says nothing twice. What a universe is written as is such an object for each declaration,
    in which fields without anything to say are left out. -/

namespace Nominal

namespace Json.Read

variable {α δ : Type} {item : Reading α} {ts : List Token} {a : α}

/-- The reader finds `a` in the tokens and stops behind them, whatever follows. -/
def Reads (item : Reading α) (ts : List Token) (a : α) : Prop :=
  ∀ rest, ∃ h, item (ts ++ rest) = .ok (a, ⟨rest, h⟩)

theorem reads_text (s : String) : Reads text [.string s] s := fun _ => ⟨by simp, rfl⟩

theorem reads_text? (s : String) : Reads text? [.string s] (some s) := fun _ => ⟨by simp, rfl⟩

theorem Reads.value (h : Reads item ts a) : Reads (value item) (.colon :: ts) a := by
  intro rest
  obtain ⟨hlt, hread⟩ := h rest
  refine ⟨Nat.lt_succ_of_lt hlt, ?_⟩
  simp [Read.value, colon, hread, bind, Except.bind, pure, Except.pure]

/-! ### Sequences -/

theorem exists_tokens (j : Json) : ∃ t ts, j.tokens = t :: ts ∧ t ≠ .bracketClose := by
  cases j <;> exact ⟨_, _, rfl, nofun⟩

variable {write : α → Json} {as : List α}

theorem reads_moreItems (h : ∀ a ∈ as, Reads item (write a).tokens a) :
    Reads (moreItems item) (moreItemTokens (as.map write)) as := by
  induction as with
  | nil =>
    intro rest
    rw [List.map_nil, moreItemTokens, List.singleton_append]
    exact ⟨by simp, by rw [moreItems]⟩
  | cons a as ih =>
    rw [List.forall_mem_cons] at h
    intro rest
    obtain ⟨hlt, hread⟩ := h.1 (moreItemTokens (as.map write) ++ rest)
    obtain ⟨hlt', hmore⟩ := ih h.2 rest
    rw [List.map_cons, moreItemTokens, List.cons_append, List.cons_append, List.append_assoc]
    refine ⟨Nat.lt_succ_of_lt (Nat.lt_trans hlt' hlt), ?_⟩
    rw [moreItems]
    simp [hread, hmore, bind, Except.bind, pure, Except.pure]

theorem reads_items (h : ∀ a ∈ as, Reads item (write a).tokens a) :
    Reads (items item) (itemTokens (as.map write)) as := by
  cases as with
  | nil =>
    intro rest
    exact ⟨by simp [itemTokens], rfl⟩
  | cons a as =>
    rw [List.forall_mem_cons] at h
    intro rest
    obtain ⟨hlt, hread⟩ := h.1 (moreItemTokens (as.map write) ++ rest)
    obtain ⟨hlt', hmore⟩ := reads_moreItems h.2 rest
    rw [List.map_cons, itemTokens, List.append_assoc]
    -- No value starts with a closing bracket, so the list is not taken for an empty one.
    obtain ⟨t, ts, hts, ht⟩ := exists_tokens (write a)
    have hfirst : ((write a).tokens ++ (moreItemTokens (as.map write) ++ rest)).head? = some t := by simp [hts]
    generalize (write a).tokens ++ (moreItemTokens (as.map write) ++ rest) = full at *
    refine ⟨Nat.lt_trans hlt' hlt, ?_⟩
    unfold items
    split
    · cases hfirst
      exact absurd rfl ht
    · cases hfirst
    · simp [hread, hmore, bind, Except.bind, pure, Except.pure]

theorem reads_sequence (h : ∀ a ∈ as, Reads item (write a).tokens a) :
    Reads (sequence item) (Json.array (as.map write)).tokens as := by
  intro rest
  obtain ⟨hlt, hread⟩ := reads_items h rest
  rw [tokens, List.cons_append]
  refine ⟨Nat.lt_succ_of_lt hlt, ?_⟩
  simp [sequence, hread, bind, Except.bind, pure, Except.pure]

/-! ### Records -/

theorem Reads.field {member : δ → String → Reading δ} {d d' : δ} {key : String} {v : Json}
    (h : Reads (member d key) (.colon :: v.tokens) d') :
    Reads (field member d) (.string key :: .colon :: v.tokens) d' := by
  intro rest
  obtain ⟨hlt, hread⟩ := h rest
  rw [List.cons_append]
  refine ⟨Nat.lt_succ_of_lt hlt, ?_⟩
  rw [Read.field, hread]
  rfl

/-- Fields are gathered in drafts: an allowed field that is not among those so far turns their draft into the draft of
    all of them. -/
def Gathers (member : δ → String → Reading δ) (draft : List String → δ) (allowed : String → Json → Prop) : Prop :=
  ∀ ⦃keys key v⦄, allowed key v → key ∉ keys →
    Reads (member (draft keys) key) (.colon :: v.tokens) (draft (key :: keys))

section Fields

variable {member : δ → String → Reading δ} {draft : List String → δ} {allowed : String → Json → Prop}
  {fs : List (String × Json)} {keys : List String}

theorem Gathers.reads_moreFields (h : Gathers member draft allowed) (hfs : ∀ f ∈ fs, allowed f.1 f.2)
    (hnodup : (fs.map Prod.fst ++ keys).Nodup) :
    Reads (moreFields member (draft keys)) (moreFieldTokens fs) (draft ((fs.map Prod.fst).reverse ++ keys)) := by
  -- The keys that have been read are carried along: none of them comes again, and the draft knows all of them.
  induction fs generalizing keys with
  | nil =>
    intro rest
    rw [moreFieldTokens, List.singleton_append]
    exact ⟨by simp, by rw [moreFields]; rfl⟩
  | cons f fs ih =>
    obtain ⟨key, v⟩ := f
    rw [List.forall_mem_cons] at hfs
    rw [List.map_cons, List.cons_append] at hnodup
    have hkey : key ∉ keys := fun hkey => (List.nodup_cons.mp hnodup).1 (List.mem_append_right _ hkey)
    have hkeys : (draft ((((key, v) :: fs).map Prod.fst).reverse ++ keys)) =
        draft ((fs.map Prod.fst).reverse ++ key :: keys) := by simp
    rw [hkeys]
    intro rest
    obtain ⟨hlt, hread⟩ := (h hfs.1 hkey).field (moreFieldTokens fs ++ rest)
    obtain ⟨hlt', hmore⟩ := ih hfs.2 (List.perm_middle.nodup_iff.mpr hnodup) rest
    have htokens : moreFieldTokens ((key, v) :: fs) ++ rest =
        .comma :: (.string key :: .colon :: v.tokens ++ (moreFieldTokens fs ++ rest)) := by simp [moreFieldTokens]
    rw [htokens]
    refine ⟨Nat.lt_succ_of_lt (Nat.lt_trans hlt' hlt), ?_⟩
    rw [moreFields, hread]
    simp [hmore, bind, Except.bind, pure, Except.pure]

theorem Gathers.reads_fields (h : Gathers member draft allowed) (hfs : ∀ f ∈ fs, allowed f.1 f.2)
    (hnodup : (fs.map Prod.fst).Nodup) :
    Reads (fields member (draft [])) (fieldTokens fs) (draft (fs.map Prod.fst).reverse) := by
  cases fs with
  | nil => exact fun rest => ⟨by simp [fieldTokens], rfl⟩
  | cons f fs =>
    obtain ⟨key, v⟩ := f
    rw [List.forall_mem_cons] at hfs
    have hfirst : Reads (field member (draft [])) (.string key :: .colon :: v.tokens) (draft [key]) :=
      (h hfs.1 List.not_mem_nil).field
    have hmore : Reads (moreFields member (draft [key])) (moreFieldTokens fs)
        (draft ((fs.map Prod.fst).reverse ++ [key])) :=
      h.reads_moreFields hfs.2 ((List.perm_append_singleton key _).nodup_iff.mpr hnodup)
    intro rest
    obtain ⟨hlt, hread⟩ := hfirst (moreFieldTokens fs ++ rest)
    obtain ⟨hlt', hmore⟩ := hmore rest
    have htokens : fieldTokens ((key, v) :: fs) ++ rest =
        .string key :: .colon :: v.tokens ++ (moreFieldTokens fs ++ rest) := by simp [fieldTokens]
    rw [htokens, List.map_cons, List.reverse_cons]
    refine ⟨Nat.lt_trans hlt' hlt, ?_⟩
    rw [fields, hread]
    · simp [hmore, bind, Except.bind, pure, Except.pure]
    · nofun

end Fields

end Json.Read

namespace Universe

open Json.Read

variable {e : Entry} {fs : List (String × Json)} {keys : List String}

/-! ### Declarations -/

theorem reads_kind (k : Kind) : Reads kind [.string k.name] k := by
  intro rest
  cases k <;> exact ⟨by simp, rfl⟩

theorem reads_strings (ss : List String) : Reads (sequence text) (Json.strings ss).tokens ss :=
  reads_sequence fun s _ => reads_text s

/-- The fields that a declaration can have in an object. -/
inductive Entry.IsField (e : Entry) : String → Json → Prop
  | name : IsField e "name" (.string e.name)
  | space {s : String} (h : e.space? = some s) : IsField e "namespace" (.string s)
  | kind : IsField e "kind" (.string e.kind.name)
  | params : IsField e "params" (.strings e.params)
  | base {s : String} (h : e.base? = some s) : IsField e "base" (.string s)
  | interfaces : IsField e "interfaces" (.strings e.interfaces)

/-- The draft of a declaration of which the fields with these keys have been read. -/
def Entry.draft (e : Entry) (keys : List String) : Draft where
  name? := if "name" ∈ keys then some e.name else none
  space? := if "namespace" ∈ keys then some e.space? else none
  kind? := if "kind" ∈ keys then some e.kind else none
  params? := if "params" ∈ keys then some e.params else none
  base? := if "base" ∈ keys then some e.base? else none
  interfaces? := if "interfaces" ∈ keys then some e.interfaces else none

theorem reads_once {α : Type} {key : String} {before : Option α} {item : Reading α} {keep : α → Draft}
    {ts : List Json.Token} {a : α} (hbefore : before = none) (h : Reads item ts a) :
    Reads (once key before item keep) (.colon :: ts) (keep a) := by
  intro rest
  obtain ⟨hlt, hread⟩ := h.value rest
  refine ⟨hlt, ?_⟩
  rw [once, hbefore, if_neg (by simp), hread]
  rfl

theorem Entry.gathers (e : Entry) : Gathers Draft.member e.draft e.IsField := by
  intro keys key v hfield hkey
  unfold Draft.member
  cases hfield with
  | name =>
    have hdraft : { e.draft keys with name? := some e.name } = e.draft ("name" :: keys) := by simp [draft]
    rw [if_pos rfl, ← hdraft]
    exact reads_once (if_neg hkey) (reads_text e.name)
  | space hs =>
    have hdraft : { e.draft keys with space? := some e.space? } = e.draft ("namespace" :: keys) := by simp [draft]
    rw [if_neg (by decide), if_pos rfl, ← hdraft, hs]
    exact reads_once (if_neg hkey) (reads_text? _)
  | kind =>
    have hdraft : { e.draft keys with kind? := some e.kind } = e.draft ("kind" :: keys) := by simp [draft]
    rw [if_neg (by decide), if_neg (by decide), if_pos rfl, ← hdraft]
    exact reads_once (if_neg hkey) (reads_kind e.kind)
  | params =>
    have hdraft : { e.draft keys with params? := some e.params } = e.draft ("params" :: keys) := by simp [draft]
    rw [if_neg (by decide), if_neg (by decide), if_neg (by decide), if_pos rfl, ← hdraft]
    exact reads_once (if_neg hkey) (reads_strings e.params)
  | base hs =>
    have hdraft : { e.draft keys with base? := some e.base? } = e.draft ("base" :: keys) := by simp [draft]
    rw [if_neg (by decide), if_neg (by decide), if_neg (by decide), if_neg (by decide), if_pos rfl, ← hdraft, hs]
    exact reads_once (if_neg hkey) (reads_text? _)
  | interfaces =>
    have hdraft : { e.draft keys with interfaces? := some e.interfaces } = e.draft ("interfaces" :: keys) := by
      simp [draft]
    rw [if_neg (by decide), if_neg (by decide), if_neg (by decide), if_neg (by decide), if_neg (by decide), if_pos rfl,
      ← hdraft]
    exact reads_once (if_neg hkey) (reads_strings e.interfaces)

/-- An object describes a declaration if it says about it all there is to say, and nothing twice. A list without
    anything in it need not be mentioned. -/
structure Entry.DescribedBy (e : Entry) (fs : List (String × Json)) : Prop where
  isField : ∀ f ∈ fs, e.IsField f.1 f.2
  nodup : (fs.map Prod.fst).Nodup
  complete : ∀ ⦃key v⦄, e.IsField key v → v ≠ .array [] → key ∈ fs.map Prod.fst

theorem Entry.finish_draft (hkeys : ∀ ⦃key v⦄, e.IsField key v → v ≠ .array [] → key ∈ keys) :
    (e.draft keys).finish = .ok e := by
  have hname : "name" ∈ keys := hkeys .name nofun
  have hkind : "kind" ∈ keys := hkeys .kind nofun
  -- A text that is left out is none, and a list that is left out is empty, which is what the reader puts there.
  have htext {key : String} {s? : Option String} (h : ∀ s, s? = some s → key ∈ keys) :
      (if key ∈ keys then some s? else none).join = s? := by
    split
    · rfl
    · cases s? with
      | none => rfl
      | some s => exact absurd (h s rfl) ‹_›
  have hlist {key : String} {ss : List String} (h : Json.strings ss ≠ .array [] → key ∈ keys) :
      (if key ∈ keys then some ss else none).getD [] = ss := by
    split
    · rfl
    · cases ss with
      | nil => rfl
      | cons s ss => exact absurd (h nofun) ‹_›
  have hspace : (if "namespace" ∈ keys then some e.space? else none).join = e.space? :=
    htext fun s hs => hkeys (.space hs) nofun
  have hparams : (if "params" ∈ keys then some e.params else none).getD [] = e.params := hlist (hkeys .params)
  have hbase : (if "base" ∈ keys then some e.base? else none).join = e.base? := htext fun s hs => hkeys (.base hs) nofun
  have hinterfaces : (if "interfaces" ∈ keys then some e.interfaces else none).getD [] = e.interfaces :=
    hlist (hkeys .interfaces)
  simp only [Draft.finish, draft, if_pos hname, if_pos hkind, hspace, hparams, hbase, hinterfaces]

/-- A declaration is read from every object that describes it. -/
theorem Entry.DescribedBy.reads (h : e.DescribedBy fs) : Reads entry (Json.object fs).tokens e := by
  intro rest
  obtain ⟨hlt, hread⟩ := e.gathers.reads_fields h.isField h.nodup rest
  have hfinish : (e.draft (fs.map Prod.fst).reverse).finish = .ok e :=
    Entry.finish_draft fun key v hfield hv => List.mem_reverse.mpr (h.complete hfield hv)
  rw [Json.tokens, List.cons_append]
  refine ⟨Nat.lt_succ_of_lt hlt, ?_⟩
  have hstart : e.draft [] = {} := rfl
  rw [hstart] at hread
  simp [entry, hread, hfinish, Shorter.behind, bind, Except.bind, pure, Except.pure]

/-! ### Writing -/

/-- The fields that a declaration is written with. -/
def Entry.fields (e : Entry) : List (String × Json) :=
  [("name", .string e.name)] ++
  (e.space?.map fun s => ("namespace", Json.string s)).toList ++
  [("kind", .string e.kind.name)] ++
  (if e.params = [] then [] else [("params", .strings e.params)]) ++
  (e.base?.map fun s => ("base", Json.string s)).toList ++
  (if e.interfaces = [] then [] else [("interfaces", .strings e.interfaces)])

theorem Entry.toJson_eq (e : Entry) : e.toJson = .object e.fields := rfl

/-- A declaration is written with all that can be said about it but empty lists. -/
theorem Entry.mem_fields {f : String × Json} : f ∈ e.fields ↔ e.IsField f.1 f.2 ∧ f.2 ≠ .array [] := by
  constructor
  · intro hf
    simp only [fields, List.mem_append, List.mem_singleton, Option.mem_toList, Option.map_eq_some_iff] at hf
    rcases hf with ((((rfl | ⟨s, hs, rfl⟩) | rfl) | hf) | ⟨s, hs, rfl⟩) | hf
    · exact ⟨.name, nofun⟩
    · exact ⟨.space hs, nofun⟩
    · exact ⟨.kind, nofun⟩
    · split at hf
      · cases hf
      · cases List.mem_singleton.mp hf
        exact ⟨.params, by simpa [Json.strings] using ‹_›⟩
    · exact ⟨.base hs, nofun⟩
    · split at hf
      · cases hf
      · cases List.mem_singleton.mp hf
        exact ⟨.interfaces, by simpa [Json.strings] using ‹_›⟩
  · obtain ⟨key, v⟩ := f
    rintro ⟨hfield, hne⟩
    cases hfield with
    | name => simp [fields]
    | space hs => simp [fields, hs]
    | kind => simp [fields]
    | params =>
      have hparams : e.params ≠ [] := by simpa [Json.strings] using hne
      simp [fields, hparams, Json.strings]
    | base hs => simp [fields, hs]
    | interfaces =>
      have hinterfaces : e.interfaces ≠ [] := by simpa [Json.strings] using hne
      simp [fields, hinterfaces, Json.strings]

theorem Entry.describedBy_fields (e : Entry) : e.DescribedBy e.fields where
  isField f hf := (mem_fields.mp hf).1
  nodup := by
    unfold fields
    cases e.space? <;> cases e.base? <;> by_cases hp : e.params = [] <;> by_cases hi : e.interfaces = [] <;>
      simp [hp, hi]
  complete key v hfield hv := List.mem_map.mpr ⟨(key, v), mem_fields.mpr ⟨hfield, hv⟩, rfl⟩

/-! ### Universes -/

theorem gathers_types (u : Universe) :
    Gathers member (fun keys => if "types" ∈ keys then some u.types else none)
      fun key v => key = "types" ∧ v = .array (u.types.map Entry.toJson) := by
  rintro keys key v ⟨rfl, rfl⟩ hkey rest
  have hentries : ∀ e ∈ u.types, Reads entry e.toJson.tokens e := fun e _ => e.describedBy_fields.reads
  obtain ⟨hlt, hread⟩ := (reads_sequence hentries).value rest
  refine ⟨hlt, ?_⟩
  dsimp only
  rw [if_neg hkey, if_pos List.mem_cons_self, member, if_neg (by simp), if_neg (by simp), hread]
  rfl

theorem reads_document (u : Universe) : Reads document u.toJson.tokens u := by
  intro rest
  have hfields : Reads (Json.Read.fields member none) (Json.fieldTokens [("types", .array (u.types.map Entry.toJson))])
      (some u.types) := u.gathers_types.reads_fields (by simp) (by simp)
  obtain ⟨hlt, hread⟩ := hfields rest
  rw [toJson, Json.tokens, List.cons_append]
  refine ⟨Nat.lt_succ_of_lt hlt, ?_⟩
  simp [document, hread, bind, Except.bind, pure, Except.pure]

theorem ofTokens_toJson (u : Universe) : ofTokens u.toJson.tokens = .ok u := by
  have hread := u.reads_document []
  rw [List.append_nil] at hread
  obtain ⟨hlt, hread⟩ := hread
  simp [ofTokens, hread, bind, Except.bind, pure, Except.pure]

theorem Entry.IsField.text_or_texts {key : String} {v : Json} (h : e.IsField key v) :
    (∃ s, v = .string s) ∨ ∃ ss, v = .strings ss := by
  cases h with
  | params => exact .inr ⟨_, rfl⟩
  | interfaces => exact .inr ⟨_, rfl⟩
  | _ => exact .inl ⟨_, rfl⟩

/-- All values in a written declaration are texts, lists of at least one text, and the declaration itself. -/
theorem Entry.values_toJson {v : Json} (h : v ∈ e.toJson.values) :
    v = .object e.fields ∨ (∃ s, v = .string s) ∨ ∃ ss, v = .strings ss ∧ ss ≠ [] := by
  rw [toJson_eq, Json.values, List.mem_cons] at h
  rcases h with rfl | h
  · exact .inl rfl
  · obtain ⟨⟨key, w⟩, hf, hv⟩ := Json.mem_fieldValues.mp h
    obtain ⟨hfield, hne⟩ := mem_fields.mp hf
    rcases hfield.text_or_texts with ⟨s, hs⟩ | ⟨ss, hss⟩
    · rw [hs] at hv
      exact .inr (.inl ⟨s, List.mem_singleton.mp hv⟩)
    · rw [hss, Json.strings, Json.values, List.mem_cons] at hv
      rcases hv with rfl | hv
      · exact .inr (.inr ⟨ss, rfl, by rw [hss] at hne; simpa [Json.strings] using hne⟩)
      · obtain ⟨item, hitem, hv⟩ := Json.mem_itemValues.mp hv
        obtain ⟨s, -, rfl⟩ := List.mem_map.mp hitem
        exact .inr (.inl ⟨s, List.mem_singleton.mp hv⟩)

theorem fit_toJson (u : Universe) : Json.Fit u.toJson.values := by
  intro n hn
  simp only [toJson, Json.values, Json.fieldValues, List.append_nil, List.mem_cons, reduceCtorEq, false_or] at hn
  obtain ⟨item, hitem, hn⟩ := Json.mem_itemValues.mp hn
  obtain ⟨e, -, rfl⟩ := List.mem_map.mp hitem
  rcases Entry.values_toJson hn with h | ⟨s, h⟩ | ⟨ss, h, -⟩ <;> cases h

/-- A universe is read again from the JSON that it is written as, be it the value or its text. Nothing in the JSON is
    null, and no list is empty but, perhaps, that of the declarations. -/
theorem written_then_read (u : Universe) :
    ofTokens u.toJson.tokens = .ok u ∧ ofText u.toJson.text = .ok u ∧
      ∃ items, u.toJson = .object [("types", .array items)] ∧
        ∀ item ∈ items, ∀ v ∈ item.values, v ≠ .null ∧ v ≠ .array [] := by
  refine ⟨u.ofTokens_toJson, ?_, u.types.map Entry.toJson, rfl, ?_⟩
  · rw [ofText, Json.tokenize_text u.fit_toJson]
    exact u.ofTokens_toJson
  · intro item hitem v hv
    obtain ⟨e, -, rfl⟩ := List.mem_map.mp hitem
    rcases Entry.values_toJson hv with rfl | ⟨s, rfl⟩ | ⟨ss, rfl, hss⟩
    · exact ⟨nofun, nofun⟩
    · exact ⟨nofun, nofun⟩
    · exact ⟨nofun, by simpa [Json.strings] using hss⟩

end Universe

end Nominal
