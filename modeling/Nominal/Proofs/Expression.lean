import Nominal.Expression.Parser
import Nominal.Proofs.Registration
import Nominal.Proofs.Renaming
import Nominal.Table.Flatten

/-! What a type expression means depends on the table through the names it knows and the number of parameters of each,
    not through what they implement or extend, and under other symbols it means the same. What is read from a table is
    well-formed in it. -/

namespace Nominal

theorem ok_of_bind {α β ε : Type} {x : Except ε α} {f : α → Except ε β} {b : β} (h : (x >>= f) = .ok b) :
    ∃ a, x = .ok a ∧ f a = .ok b := by
  match x, h with
  | .ok a, h => exact ⟨a, rfl, h⟩

/-! ### Reading in two tables -/

namespace Expression.Context

variable {ctx ctx' : Context} {f : Symbol → Symbol}

/-- Names mean in the second context what they mean in the first, under other symbols. -/
structure Agrees (f : Symbol → Symbol) (ctx ctx' : Context) : Prop where
  lastColumn : ctx'.lastColumn = ctx.lastColumn
  param? : ∀ name, ctx'.param? name = (ctx.param? name).map (Param.rename f)
  resolve : ∀ name column, ctx'.resolve name column = (ctx.resolve name column).map (Prod.map f id)

theorem Agrees.next (h : Agrees f ctx ctx') : ctx'.next = ctx.next := by
  funext ts
  cases ts with
  | nil => simp only [Context.next, h.lastColumn]
  | cons => rfl

theorem Agrees.nameExpected (h : Agrees f ctx ctx') {α : Type} :
    ctx'.nameExpected (α := α) = ctx.nameExpected := by
  funext ts
  simp only [Context.nameExpected, h.next]

theorem Agrees.dottedRest (h : Agrees f ctx ctx') (ts : List Placed) : ctx'.dottedRest ts = ctx.dottedRest ts := by
  fun_induction ctx.dottedRest ts with
  | case1 column w column' ts ih => simp only [Context.dottedRest, ih]
  | case2 column ts hts =>
    rw [← h.nameExpected, Context.dottedRest]
    exact hts
  | case3 ts h1 h2 =>
    rw [Context.dottedRest]
    · exact h1
    · exact h2

theorem Agrees.name (h : Agrees f ctx ctx') : ctx'.name = ctx.name := by
  funext ts
  unfold Context.name
  split
  · simp only [h.dottedRest]
  · rw [h.nameExpected]

theorem Agrees.expect (h : Agrees f ctx ctx') (sign : Token) : ctx'.expect sign = ctx.expect sign := by
  funext ts
  cases ts with
  | nil => simp only [Context.expect, h.lastColumn]
  | cons => rfl

theorem Agrees.bare (h : Agrees f ctx ctx') (name : String) (column : Nat) :
    ctx'.bare name column = (ctx.bare name column).map (TypeArg.rename f) := by
  unfold Context.bare
  rw [h.param?, h.resolve]
  cases ctx.param? name with
  | some p => rfl
  | none =>
    rcases ctx.resolve name column with e | ⟨s, n⟩
    · rfl
    · show (if n > 0 then _ else _) = Except.map _ (if n > 0 then _ else _)
      split <;> rfl

theorem Agrees.openForm (h : Agrees f ctx ctx') (name : String) (column : Nat) (s : Symbol) (n : Nat)
    (ts : List Placed) :
    ctx'.openForm name column (f s) n ts = (ctx.openForm name column s n ts).map (Prod.map (TypeArg.rename f) id) := by
  unfold Context.openForm
  rw [h.expect]
  rcases commas ts with ⟨k, ts', hts⟩
  dsimp only
  rcases ctx.expect .greater ts' with e | ⟨⟨⟩, rest, hrest⟩
  · rfl
  · simp only [bind, Except.bind]
    split
    · rw [← TypeRef.rename_opened, ← TypeArg.rename_toArg]
      rfl
    · rfl

theorem argumentsRest_rename {read read' : Reading TypeArg}
    (hread : ∀ ts, read' ts = (read ts).map (Prod.map (TypeArg.rename f) id)) (ts : List Placed) :
    argumentsRest read' ts = (argumentsRest read ts).map (Prod.map (TypeArg.renameAll f) id) := by
  fun_induction argumentsRest read ts with
  | case1 column ts ih =>
    rw [argumentsRest, hread]
    rcases read ts with e | ⟨a, ts', hts⟩
    · rfl
    · have hrest := ih ts' hts
      simp only [Except.map, Prod.map, id, bind, Except.bind, hrest]
      rcases argumentsRest read ts' with e | ⟨as, rest, hrest⟩ <;> rfl
  | case2 ts hts =>
    rw [argumentsRest]
    · rfl
    · exact hts

theorem Agrees.arguments (h : Agrees f ctx ctx') {read read' : Reading TypeArg}
    (hread : ∀ ts, read' ts = (read ts).map (Prod.map (TypeArg.rename f) id)) (ts : List Placed) :
    ctx'.arguments read' ts = (ctx.arguments read ts).map (Prod.map (TypeArg.renameAll f) id) := by
  unfold Context.arguments
  rw [hread]
  rcases read ts with e | ⟨a, ts', hts⟩
  · rfl
  · simp only [Except.map, Prod.map, id, bind, Except.bind, argumentsRest_rename hread]
    rcases argumentsRest read ts' with e | ⟨as, ts'', hts'⟩
    · rfl
    · simp only [h.expect]
      rcases ctx.expect .greater ts'' with e | ⟨⟨⟩, rest, hrest⟩ <;> rfl

theorem Agrees.bracketed (h : Agrees f ctx ctx') {read read' : Nat → Reading (List TypeArg)}
    (hread : ∀ column ts, read' column ts = (read column ts).map (Prod.map (TypeArg.renameAll f) id)) (name : String)
    (column : Nat) (ts : List Placed) :
    ctx'.bracketed read' name column ts = (ctx.bracketed read name column ts).map (Prod.map (TypeArg.rename f) id) := by
  unfold Context.bracketed
  rw [h.resolve, h.next]
  rcases ctx.resolve name column with e | ⟨s, n⟩
  · rfl
  · simp only [Except.map, Prod.map, id, bind, Except.bind]
    split
    · exact h.openForm name column s n ts
    · exact h.openForm name column s n ts
    · rw [hread]
      rcases read column ts with e | ⟨as, rest⟩
      · rfl
      · simp only [Except.map, Prod.map, TypeArg.length_renameAll]
        split <;> rfl

theorem Agrees.argumentWith (h : Agrees f ctx ctx') {read read' : Nat → Reading (List TypeArg)}
    (hread : ∀ column ts, read' column ts = (read column ts).map (Prod.map (TypeArg.renameAll f) id))
    (ts : List Placed) :
    ctx'.argumentWith read' ts = (ctx.argumentWith read ts).map (Prod.map (TypeArg.rename f) id) := by
  unfold Context.argumentWith
  rw [h.name]
  rcases ctx.name ts with e | ⟨⟨name, column⟩, rest⟩
  · rfl
  · simp only [bind, Except.bind]
    split
    · rw [h.bracketed hread]
      rcases ctx.bracketed read name column _ with e | ⟨a, rest, hrest⟩ <;> rfl
    · rw [h.bare]
      cases ctx.bare name column <;> rfl

theorem Agrees.argument (h : Agrees f ctx ctx') (room : Nat) (ts : List Placed) :
    ctx'.argument room ts = (ctx.argument room ts).map (Prod.map (TypeArg.rename f) id) := by
  induction room generalizing ts with
  | zero =>
    refine h.argumentWith ?_ ts
    exact fun _ _ => rfl
  | succ room ih => exact h.argumentWith (fun _ => h.arguments ih) ts

/-! ### Well-formed results -/

variable {α : Type}

theorem resolve_eq_ok {name : String} {column n : Nat} {s : Symbol} (hix : ctx.table.Indexed)
    (h : ctx.resolve name column = .ok (s, n)) : TypeSource.arity? ctx.table s = some n := by
  unfold resolve at h
  cases hs : ctx.table.lookup? name with
  | none => simp [hs] at h
  | some q =>
    obtain ⟨d, hd⟩ := Table.contains_iff.mp (hix.lookup? hs)
    simp only [hs, hd] at h
    cases h
    simp [TypeSource.arity?, hd]

theorem param?_eq_some {name : String} {p : Param} (h : ctx.param? name = some p) :
    TypeSource.checkArg ctx.table (.param p) = .ok () := by
  unfold param? at h
  split at h
  · cases h
  · obtain ⟨owner, -, h⟩ := Option.bind_eq_some_iff.mp h
    simp only [Table.paramNamed?, Option.bind_eq_bind, Option.bind_eq_some_iff] at h
    obtain ⟨a, -, d, hd, i, hi, h⟩ := h
    cases h
    obtain ⟨hlt, -⟩ := List.idxOf?_eq_some_iff.mp hi
    exact TypeSource.checkArg_param_iff.mpr ⟨d.arity, by simp [TypeSource.arity?, hd], hlt⟩

theorem bare_ok {name : String} {column : Nat} {a : TypeArg} (hix : ctx.table.Indexed)
    (h : ctx.bare name column = .ok a) : TypeSource.checkArg ctx.table a = .ok () := by
  unfold bare at h
  cases hp : ctx.param? name with
  | some p =>
    simp only [hp] at h
    cases h
    exact param?_eq_some hp
  | none =>
    simp only [hp] at h
    obtain ⟨⟨s, n⟩, hs, h⟩ := ok_of_bind h
    dsimp only at h
    split at h
    · cases h
    · cases h
      have hn : n = 0 := by omega
      rw [hn] at hs
      exact TypeSource.checkArg_type_iff.mpr ⟨resolve_eq_ok hix hs, by simp⟩

variable {name : String} {column n : Nat} {s : Symbol} {ts : List Placed} {a : TypeArg}

theorem openForm_ok {rest : Shorter ts} (hs : TypeSource.arity? ctx.table s = some n)
    (h : ctx.openForm name column s n ts = .ok (a, rest)) : TypeSource.checkArg ctx.table a = .ok () := by
  unfold openForm at h
  obtain ⟨⟨⟨⟩, ts', hts⟩, -, h⟩ := ok_of_bind h
  dsimp only at h
  split at h
  · cases h
    exact TypeSource.checkArg_opened hs
  · cases h

/-- Everything a reader reads is well-formed. -/
def Sound (t : Table) (read : Reading TypeArg) : Prop :=
  ∀ ts a rest, read ts = .ok (a, rest) → TypeSource.checkArg t a = .ok ()

/-- Every list a reader reads holds well-formed arguments only. -/
def SoundAll (t : Table) (read : Reading (List TypeArg)) : Prop :=
  ∀ ts as rest, read ts = .ok (as, rest) → ∀ a ∈ as, TypeSource.checkArg t a = .ok ()

theorem argumentsRest_ok {t : Table} {read : Reading TypeArg} (hread : Sound t read) {as : List TypeArg}
    {rest : NotLonger ts} (h : argumentsRest read ts = .ok (as, rest)) :
    ∀ a ∈ as, TypeSource.checkArg t a = .ok () := by
  fun_induction argumentsRest read ts generalizing as with
  | case1 column ts ih =>
    obtain ⟨⟨a, ts', hts⟩, ha, h⟩ := ok_of_bind h
    obtain ⟨⟨more, rest', hrest⟩, hmore, h⟩ := ok_of_bind h
    cases h
    exact List.forall_mem_cons.mpr ⟨hread _ _ _ ha, ih _ hts hmore⟩
  | case2 ts =>
    cases h
    simp

theorem arguments_sound {read : Reading TypeArg} (hread : Sound ctx.table read) :
    SoundAll ctx.table (ctx.arguments read) := by
  intro ts as rest h
  unfold arguments at h
  obtain ⟨⟨a, ts', hts⟩, ha, h⟩ := ok_of_bind h
  obtain ⟨⟨more, ts'', hts'⟩, hmore, h⟩ := ok_of_bind h
  obtain ⟨⟨⟨⟩, ts3, hts''⟩, -, h⟩ := ok_of_bind h
  cases h
  exact List.forall_mem_cons.mpr ⟨hread _ _ _ ha, argumentsRest_ok hread hmore⟩

theorem bracketed_sound (hix : ctx.table.Indexed) {read : Nat → Reading (List TypeArg)}
    (hread : ∀ column, SoundAll ctx.table (read column)) : Sound ctx.table (ctx.bracketed read name column) := by
  intro ts a rest h
  unfold bracketed at h
  obtain ⟨⟨s, n⟩, hs, h⟩ := ok_of_bind h
  have hs := resolve_eq_ok hix hs
  dsimp only at h
  split at h
  · exact openForm_ok hs h
  · exact openForm_ok hs h
  · obtain ⟨⟨as, rest'⟩, has, h⟩ := ok_of_bind h
    dsimp only at h
    split at h
    · cases h
      exact TypeSource.checkArg_type_iff.mpr ⟨by simp_all, hread _ _ _ _ has⟩
    · cases h

theorem argumentWith_sound (hix : ctx.table.Indexed) {read : Nat → Reading (List TypeArg)}
    (hread : ∀ column, SoundAll ctx.table (read column)) : Sound ctx.table (ctx.argumentWith read) := by
  intro ts a rest h
  unfold argumentWith at h
  obtain ⟨⟨⟨name, column⟩, rest'⟩, -, h⟩ := ok_of_bind h
  dsimp only at h
  split at h
  · obtain ⟨⟨b, ts', hts⟩, hb, h⟩ := ok_of_bind h
    cases h
    exact bracketed_sound hix hread _ _ _ hb
  · obtain ⟨b, hb, h⟩ := ok_of_bind h
    cases h
    exact bare_ok hix hb

theorem argument_sound (hix : ctx.table.Indexed) (room : Nat) : Sound ctx.table (ctx.argument room) := by
  induction room with
  | zero => exact argumentWith_sound hix fun _ _ _ _ h => by cases h
  | succ room ih => exact argumentWith_sound hix fun _ => arguments_sound ih

/-! ### Reading by form -/

variable {room : Nat} {w : String} {c : Nat} {s : Symbol} {ts rest : List Placed} {a : TypeArg}

/-- The tokens start with an argument, and `rest` follows it. -/
def Reads (ctx : Context) (room : Nat) (ts : List Placed) (a : TypeArg) (rest : List Placed) : Prop :=
  ∃ h, ctx.argument room ts = .ok (a, ⟨rest, h⟩)

theorem argument_eq : ∃ f, ctx.argument room = ctx.argumentWith f := by
  cases room <;> exact ⟨_, rfl⟩

theorem bare_param {p : Param} (hp : ctx.param? w = some p) : ctx.bare w c = .ok (.param p) := by
  simp [bare, hp]

theorem bare_type (hp : ctx.param? w = none) (hs : ctx.resolve w c = .ok (s, 0)) : ctx.bare w c = .ok (.type s []) := by
  simp [bare, hp, hs, bind, Except.bind]

theorem reads_bare (hrest : ∀ t ∈ rest.head?, t.token ≠ .dot ∧ t.token ≠ .less) (ha : ctx.bare w c = .ok a) :
    ctx.Reads room (⟨.word w, c⟩ :: rest) a rest := by
  refine ⟨by simp, ?_⟩
  obtain ⟨f, hf⟩ := @argument_eq ctx room
  cases rest with
  | nil => simp [hf, argumentWith, name, dottedRest, ha, bind, Except.bind, pure, Except.pure]
  | cons t rest =>
    obtain ⟨token, column⟩ := t
    cases token <;> simp_all [argumentWith, name, dottedRest, bind, Except.bind, pure, Except.pure]

theorem reads_open {c₁ c₂ : Nat} (hs : ctx.resolve w c = .ok (s, 1)) :
    ctx.Reads room (⟨.word w, c⟩ :: ⟨.less, c₁⟩ :: ⟨.greater, c₂⟩ :: rest) (TypeRef.opened s 1).toArg rest := by
  refine ⟨by simp; omega, ?_⟩
  obtain ⟨f, hf⟩ := @argument_eq ctx room
  simp [hf, argumentWith, name, dottedRest, bracketed, next, openForm, commas, expect, hs, bind, Except.bind, pure,
    Except.pure]

theorem reads_applied {w' : String} {c' c₁ c₂ : Nat} (hs : ctx.resolve w c = .ok (s, 1))
    (ha : ctx.Reads room (⟨.word w', c'⟩ :: ts) a (⟨.greater, c₂⟩ :: rest)) :
    ctx.Reads (room + 1) (⟨.word w, c⟩ :: ⟨.less, c₁⟩ :: ⟨.word w', c'⟩ :: ts) (.type s [a]) rest := by
  obtain ⟨h, ha⟩ := ha
  refine ⟨by simp at h ⊢; omega, ?_⟩
  simp [argument, argumentWith, name, dottedRest, bracketed, next, arguments, argumentsRest, expect, hs, ha, bind,
    Except.bind, pure, Except.pure]

end Expression.Context

namespace Table

variable {t t' : Table} {text : String} {scope? : Option Symbol} {r : TypeRef}

open Expression in
theorem parse_of_reads {ts : List Placed} {s : Symbol} {as : List TypeArg} (htokens : tokenize 1 text.toList = .ok ts)
    (h : Context.Reads ⟨t, scope?, text.utf8ByteSize + 1⟩ maxNesting ts (.type s as) []) :
    t.parse text scope? = .ok ⟨s, as⟩ := by
  obtain ⟨hlen, h⟩ := h
  rw [parse, htokens]
  simp only [bind, Except.bind, h]
  rfl

theorem parse_check (hix : t.Indexed) (h : t.parse text scope? = .ok r) : TypeSource.check t r = .ok () := by
  unfold parse at h
  obtain ⟨tokens, -, h⟩ := ok_of_bind h
  obtain ⟨⟨a, rest, hrest⟩, ha, h⟩ := ok_of_bind h
  have hcheck := @Expression.Context.argument_sound ⟨t, scope?, text.utf8ByteSize + 1⟩ hix _ _ _ _ ha
  cases a with
  | param p => cases h
  | type s as =>
    cases rest with
    | nil =>
      cases h
      exact hcheck
    | cons => cases h

theorem parse_rename {f : Symbol → Symbol} {scope'? : Option Symbol} (text : String)
    (h : ∀ n, Expression.Context.Agrees f ⟨t, scope?, n⟩ ⟨t', scope'?, n⟩) :
    t'.parse text scope'? = (t.parse text scope?).map (TypeRef.rename f) := by
  unfold parse
  cases Expression.tokenize 1 text.toList with
  | error e => rfl
  | ok tokens =>
    simp only [bind, Except.bind, (h _).argument]
    rcases Expression.Context.argument ⟨t, scope?, text.utf8ByteSize + 1⟩ Expression.maxNesting tokens with
      e | ⟨_ | ⟨s, as⟩, _ | _, hrest⟩ <;> rfl

theorem SameHeads.parse (h : SameHeads t t') (text : String) (scope? : Option Symbol) :
    t'.parse text scope? = t.parse text scope? := by
  have hagrees (n : Nat) : Expression.Context.Agrees id ⟨t, scope?, n⟩ ⟨t', scope?, n⟩ := by
    refine ⟨rfl, fun name => ?_, fun name column => ?_⟩
    · have hid : Param.rename id = id := rfl
      simp only [Expression.Context.param?, h.paramNamed?, hid, Option.map_id_fun]
      rfl
    · unfold Expression.Context.resolve
      simp only [h.lookup?, h.map_get? (f := Declaration.arity) fun _ => rfl]
      cases t.lookup? name <;> rfl
  rw [parse_rename text hagrees]
  cases t.parse text scope? with
  | error e => rfl
  | ok r => exact congrArg Except.ok r.rename_id

end Table

end Nominal
