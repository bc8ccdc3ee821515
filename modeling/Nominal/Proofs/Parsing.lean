import Nominal.Proofs.Expression
import Nominal.Proofs.Grammar
import Nominal.Proofs.Tokens

/-! Reading follows the grammar. Each reader takes a sequence of tokens off the front exactly if the sequence is written
    as the grammar says and what follows does not continue it. By induction on the levels of argument lists that may
    still be opened, what is read from a text is then what the tree of its tokens means. -/

namespace Nominal

namespace Expression

/-! ### Tokens at the front -/

/-- The token that comes next. -/
def ahead (ts : List Placed) : Option Token := ts.head?.map Placed.token

/-- The list starts with the tokens `w`, and `rest` follows. -/
def Starts (w : List Token) (ts rest : List Placed) : Prop := ∃ front, ts = front ++ rest ∧ front.map Placed.token = w

section Starts

variable {v w : List Token} {token : Token} {ts rest : List Placed}

theorem starts_nil : Starts [] ts rest ↔ ts = rest := by
  constructor
  · rintro ⟨front, rfl, hfront⟩
    rw [List.map_eq_nil_iff.mp hfront, List.nil_append]
  · rintro rfl
    exact ⟨[], rfl, rfl⟩

theorem starts_cons :
    Starts (token :: w) ts rest ↔ ∃ column more, ts = ⟨token, column⟩ :: more ∧ Starts w more rest := by
  constructor
  · rintro ⟨front, rfl, hfront⟩
    obtain ⟨⟨x, column⟩, more, rfl, rfl, hmore⟩ := List.map_eq_cons_iff.mp hfront
    exact ⟨column, more ++ rest, rfl, more, rfl, hmore⟩
  · rintro ⟨column, more, rfl, front, rfl, rfl⟩
    exact ⟨⟨token, column⟩ :: front, rfl, rfl⟩

theorem starts_append : Starts (v ++ w) ts rest ↔ ∃ mid, Starts v ts mid ∧ Starts w mid rest := by
  constructor
  · rintro ⟨front, rfl, hfront⟩
    obtain ⟨front, back, rfl, rfl, rfl⟩ := List.map_eq_append_iff.mp hfront
    exact ⟨back ++ rest, ⟨front, List.append_assoc _ _ _, rfl⟩, back, rfl, rfl⟩
  · rintro ⟨mid, ⟨front, rfl, rfl⟩, back, rfl, rfl⟩
    exact ⟨front ++ back, (List.append_assoc _ _ _).symm, List.map_append⟩

theorem starts_singleton : Starts [token] ts rest ↔ ∃ column, ts = ⟨token, column⟩ :: rest := by
  simp [starts_cons, starts_nil]

theorem ahead_eq_some : ahead ts = some token ↔ ∃ column more, ts = ⟨token, column⟩ :: more := by
  rcases ts with _ | ⟨⟨token', column⟩, ts⟩ <;> simp [ahead]

theorem ahead_ne_some (h : ∀ column more, ts ≠ ⟨token, column⟩ :: more) : ahead ts ≠ some token := by
  intro hahead
  obtain ⟨column, more, hts⟩ := ahead_eq_some.mp hahead
  exact h column more hts

theorem Starts.ahead (h : Starts (token :: w) ts rest) : ahead ts = some token := by
  obtain ⟨column, more, rfl, -⟩ := starts_cons.mp h
  rfl

end Starts

/-- The words among the tokens have no dots in them. -/
def Plain (ts : List Placed) : Prop := ∀ p ∈ ts, ∀ w, p.token = .word w → '.' ∉ w.toList

theorem Plain.tail {p : Placed} {ts : List Placed} (h : Plain (p :: ts)) : Plain ts :=
  fun q hq => h q (List.mem_cons_of_mem _ hq)

theorem Plain.after {w : List Token} {ts rest : List Placed} (h : Plain ts) (hstarts : Starts w ts rest) :
    Plain rest := by
  obtain ⟨front, rfl, -⟩ := hstarts
  exact fun p hp => h p (List.mem_append_right _ hp)

theorem Plain.first {name : Dotted} {ts rest : List Placed} (h : Plain ts) (hstarts : Starts name.tokens ts rest) :
    '.' ∉ name.first.toList := by
  obtain ⟨column, more, rfl, -⟩ := starts_cons.mp hstarts
  exact h _ List.mem_cons_self _ rfl

namespace Tree

/-- What follows a bare name is neither a further word of it nor a bracket. -/
def Ends (tree : Tree) (rest : List Placed) : Prop :=
  match tree with
  | bare _ => ahead rest ≠ some .dot ∧ ahead rest ≠ some .less
  | _ => True

variable {tree : Tree} {trees : List Tree} {ts rest : List Placed}

theorem ahead_of_tokens (h : Starts tree.tokens ts rest) : ∃ w, ahead ts = some (.word w) := by
  have hword : ∃ w more, tree.tokens = .word w :: more := by
    cases tree <;> exact ⟨_, _, rfl⟩
  obtain ⟨w, more, hw⟩ := hword
  rw [hw] at h
  exact ⟨w, h.ahead⟩

theorem ahead_of_slots {k : Nat} (h : Starts (List.replicate k .comma ++ [.greater]) ts rest) :
    ahead ts = some .greater ∨ ahead ts = some .comma := by
  cases k with
  | zero => exact .inl h.ahead
  | succ k => exact .inr h.ahead

theorem ends_nil : tree.Ends [] := by
  cases tree with
  | bare name => exact ⟨nofun, nofun⟩
  | _ => trivial

theorem ends_of_sign (h : ahead rest = some .greater ∨ ahead rest = some .comma) : tree.Ends rest := by
  cases tree with
  | bare name => rcases h with h | h <;> simp [Ends, h]
  | _ => trivial

theorem ends_of_restTokens (h : Starts (restTokens trees) ts rest) (hrest : ahead rest = some .greater) :
    tree.Ends ts := by
  cases trees with
  | nil =>
    obtain rfl := starts_nil.mp h
    exact ends_of_sign (.inl hrest)
  | cons tree' trees => exact ends_of_sign (.inr h.ahead)

end Tree

namespace Context

variable (ctx : Context) {ts rest : List Placed} {text : String} {column n : Nat} {s : Symbol} {a : TypeArg}

/-- What is written at the front is a tree with this meaning, of no more than `room` levels of arguments. -/
def Derives (room : Nat) (ts rest : List Placed) (a : TypeArg) : Prop :=
  ∃ tree : Tree, Starts tree.tokens ts rest ∧ tree.meaning? ctx.table ctx.scope? = some a ∧ tree.nesting ≤ room ∧
    tree.Ends rest

/-- What is written at the front is a list of arguments with its closing bracket; the list itself is one level. -/
def DerivesList (room : Nat) (ts rest : List Placed) (as : List TypeArg) : Prop :=
  ∃ first more, Starts (Tree.tokens first ++ (Tree.restTokens more ++ [.greater])) ts rest ∧
    Tree.meanings? ctx.table ctx.scope? (first :: more) = some as ∧ 1 + max first.nesting (Tree.nestingAll more) ≤ room

/-! ### Names -/

theorem dottedRest_iff :
    (∃ h, ctx.dottedRest ts = .ok (text, ⟨rest, h⟩)) ↔
      ∃ ws, Starts (Dotted.restTokens ws) ts rest ∧ text = Dotted.restText ws ∧ ahead rest ≠ some .dot := by
  constructor
  · rintro ⟨h, hread⟩
    fun_induction ctx.dottedRest ts generalizing text rest with
    | case1 c w c' ts ih =>
      obtain ⟨⟨more, rest', h'⟩, hmore, hread⟩ := ok_of_bind hread
      cases hread
      obtain ⟨ws, hws, rfl, hend⟩ := ih _ hmore
      refine ⟨w :: ws, ?_, rfl, hend⟩
      exact starts_cons.mpr ⟨c, _, rfl, starts_cons.mpr ⟨c', _, rfl, hws⟩⟩
    | case2 c ts hts => cases hread
    | case3 ts h1 h2 =>
      cases hread
      exact ⟨[], starts_nil.mpr rfl, rfl, ahead_ne_some h2⟩
  · rintro ⟨ws, hws, rfl, hend⟩
    induction ws generalizing ts with
    | nil =>
      obtain rfl := starts_nil.mp hws
      refine ⟨Nat.le_refl _, ?_⟩
      rcases ts with _ | ⟨⟨token, c⟩, ts⟩
      · rfl
      · cases token with
        | dot => exact absurd rfl hend
        | _ => rfl
    | cons w ws ih =>
      obtain ⟨c, ts', rfl, hws'⟩ := starts_cons.mp hws
      obtain ⟨c', more, rfl, hmore⟩ := starts_cons.mp hws'
      obtain ⟨h, hread⟩ := ih hmore
      exact ⟨by simp; omega, by simp [dottedRest, hread, bind, Except.bind, pure, Except.pure, Dotted.restText]⟩

theorem name_iff :
    (∃ column h, ctx.name ts = .ok ((text, column), ⟨rest, h⟩)) ↔
      ∃ name : Dotted, Starts name.tokens ts rest ∧ text = name.text ∧ ahead rest ≠ some .dot := by
  constructor
  · rintro ⟨column, h, hread⟩
    unfold Context.name at hread
    split at hread
    · rename_i w c ts
      obtain ⟨⟨more, rest', h'⟩, hmore, hread⟩ := ok_of_bind hread
      cases hread
      obtain ⟨ws, hws, rfl, hend⟩ := (dottedRest_iff ctx).mp ⟨_, hmore⟩
      exact ⟨⟨w, ws⟩, starts_cons.mpr ⟨_, ts, rfl, hws⟩, rfl, hend⟩
    · cases hread
  · rintro ⟨⟨w, ws⟩, hname, rfl, hend⟩
    obtain ⟨c, more, rfl, hws⟩ := starts_cons.mp hname
    obtain ⟨h, hread⟩ := (dottedRest_iff ctx).mpr ⟨ws, hws, rfl, hend⟩
    exact ⟨c, by simp; omega, by simp [Context.name, hread, bind, Except.bind, pure, Except.pure, Dotted.text]⟩

theorem resolve_iff :
    ctx.resolve text column = .ok (s, n) ↔ ctx.table.lookup? text = some s ∧ n = Tree.arity ctx.table s := by
  unfold resolve
  cases ctx.table.lookup? text with
  | none => simp
  | some q =>
    rw [Except.ok.injEq, Prod.mk.injEq, Option.some.injEq]
    constructor
    · rintro ⟨rfl, rfl⟩
      exact ⟨rfl, rfl⟩
    · rintro ⟨rfl, rfl⟩
      exact ⟨rfl, rfl⟩

/-! ### Signs -/

theorem expect_iff {sign : Token} : (∃ h, ctx.expect sign ts = .ok ((), ⟨rest, h⟩)) ↔ Starts [sign] ts rest := by
  rw [starts_singleton]
  rcases ts with _ | ⟨⟨token, c⟩, ts⟩
  · simp [expect]
  · by_cases h : token = sign
    · subst h
      constructor
      · rintro ⟨h, hread⟩
        simp only [expect, if_true] at hread
        cases hread
        exact ⟨c, rfl⟩
      · rintro ⟨c, hts⟩
        cases hts
        exact ⟨by simp, by simp [expect]⟩
    · simp [expect, h]

theorem commas_iff :
    (∃ h, commas ts = (n, ⟨rest, h⟩)) ↔ Starts (List.replicate n .comma) ts rest ∧ ahead rest ≠ some .comma := by
  constructor
  · rintro ⟨h, hread⟩
    fun_induction commas ts generalizing n rest with
    | case1 c ts k more h' hmore ih =>
      cases hread
      obtain ⟨hstarts, hend⟩ := ih _ hmore
      exact ⟨starts_cons.mpr ⟨c, ts, rfl, hstarts⟩, hend⟩
    | case2 ts hts =>
      cases hread
      exact ⟨starts_nil.mpr rfl, ahead_ne_some hts⟩
  · rintro ⟨hstarts, hend⟩
    induction n generalizing ts with
    | zero =>
      obtain rfl := starts_nil.mp hstarts
      refine ⟨Nat.le_refl _, ?_⟩
      rcases ts with _ | ⟨⟨token, c⟩, ts⟩
      · rfl
      · cases token with
        | comma => exact absurd rfl hend
        | _ => rfl
    | succ n ih =>
      obtain ⟨c, more, rfl, hmore⟩ := starts_cons.mp hstarts
      obtain ⟨h, hread⟩ := ih hmore
      exact ⟨by simp; omega, by simp [commas, hread]⟩

theorem openForm_iff :
    (∃ h, ctx.openForm text column s n ts = .ok (a, ⟨rest, h⟩)) ↔
      ∃ k, n = k + 1 ∧ a = (TypeRef.opened s (k + 1)).toArg ∧
        Starts (List.replicate k .comma ++ [.greater]) ts rest := by
  constructor
  · rintro ⟨h, hread⟩
    unfold openForm at hread
    rcases hcommas : commas ts with ⟨k, more, h'⟩
    rw [hcommas] at hread
    obtain ⟨⟨⟨⟩, rest', h''⟩, hsign, hread⟩ := ok_of_bind hread
    dsimp only at hread
    split at hread
    · cases hread
      refine ⟨k, Eq.symm ‹_›, by rw [‹k + 1 = n›], starts_append.mpr ⟨more, ?_, ?_⟩⟩
      · exact (commas_iff.mp ⟨h', hcommas⟩).1
      · exact (expect_iff ctx).mp ⟨_, hsign⟩
    · cases hread
  · rintro ⟨k, rfl, rfl, hstarts⟩
    obtain ⟨more, hmore, hsign⟩ := starts_append.mp hstarts
    have hend : ahead more ≠ some .comma := by simp [hsign.ahead]
    obtain ⟨h, hcommas⟩ := commas_iff.mpr ⟨hmore, hend⟩
    obtain ⟨h', hsign⟩ := (expect_iff ctx).mpr hsign
    refine ⟨by omega, ?_⟩
    unfold openForm
    rw [hcommas]
    simp [hsign, bind, Except.bind, pure, Except.pure]

/-! ### Lists of arguments -/

theorem argumentsRest_nil_iff {read : Reading TypeArg} :
    (∃ h, argumentsRest read ts = .ok ([], ⟨rest, h⟩)) ↔ ts = rest ∧ ahead rest ≠ some .comma := by
  unfold argumentsRest
  split
  · rename_i c ts
    constructor
    · rintro ⟨h, hread⟩
      obtain ⟨⟨a, ts', h'⟩, -, hread⟩ := ok_of_bind hread
      obtain ⟨⟨as, rest', h''⟩, -, hread⟩ := ok_of_bind hread
      cases hread
    · rintro ⟨rfl, hend⟩
      exact absurd rfl hend
  · rename_i hts
    constructor
    · rintro ⟨h, hread⟩
      cases hread
      exact ⟨rfl, ahead_ne_some hts⟩
    · rintro ⟨rfl, hend⟩
      exact ⟨Nat.le_refl _, rfl⟩

theorem argumentsRest_cons_iff {read : Reading TypeArg} {as : List TypeArg} :
    (∃ h, argumentsRest read ts = .ok (a :: as, ⟨rest, h⟩)) ↔
      ∃ c more mid, ts = ⟨.comma, c⟩ :: more ∧ (∃ h, read more = .ok (a, ⟨mid, h⟩)) ∧
        ∃ h, argumentsRest read mid = .ok (as, ⟨rest, h⟩) := by
  constructor
  · rintro ⟨h, hread⟩
    unfold argumentsRest at hread
    split at hread
    · rename_i c more
      obtain ⟨⟨a, mid, h'⟩, ha, hread⟩ := ok_of_bind hread
      obtain ⟨⟨as, rest', h''⟩, has, hread⟩ := ok_of_bind hread
      cases hread
      exact ⟨c, more, mid, rfl, ⟨h', ha⟩, _, has⟩
    · cases hread
  · rintro ⟨c, more, mid, rfl, ⟨h, ha⟩, h', has⟩
    refine ⟨by simp; omega, ?_⟩
    rw [argumentsRest]
    simp [ha, has, bind, Except.bind, pure, Except.pure]

/-- A reader finds exactly the trees of no more than `room` levels. -/
def ReadsTrees (room : Nat) (read : Reading TypeArg) : Prop :=
  ∀ ⦃ts rest a⦄, Plain ts → ((∃ h, read ts = .ok (a, ⟨rest, h⟩)) ↔ ctx.Derives room ts rest a)

variable {ctx} {room : Nat} {read : Reading TypeArg} {as : List TypeArg}

theorem argumentsRest_iff (hread : ctx.ReadsTrees room read) (hts : Plain ts) (hend : ahead rest = some .greater) :
    (∃ h, argumentsRest read ts = .ok (as, ⟨rest, h⟩)) ↔
      ∃ trees, Starts (Tree.restTokens trees) ts rest ∧ Tree.meanings? ctx.table ctx.scope? trees = some as ∧
        Tree.nestingAll trees ≤ room := by
  induction as generalizing ts with
  | nil =>
    rw [argumentsRest_nil_iff]
    constructor
    · rintro ⟨rfl, -⟩
      exact ⟨[], starts_nil.mpr rfl, rfl, Nat.zero_le _⟩
    · rintro ⟨trees, htrees, hmeaning, -⟩
      obtain rfl := Tree.meanings?_eq_nil.mp hmeaning
      refine ⟨starts_nil.mp htrees, ?_⟩
      rw [hend]
      nofun
  | cons a as ih =>
    rw [argumentsRest_cons_iff]
    constructor
    · rintro ⟨c, more, mid, rfl, ha, has⟩
      obtain ⟨tree, htree, hmeaning, hnesting, -⟩ := (hread hts.tail).mp ha
      obtain ⟨trees, htrees, hmeanings, hnestings⟩ := (ih (hts.tail.after htree)).mp has
      refine ⟨tree :: trees, ?_, Tree.meanings?_eq_cons.mpr ⟨tree, trees, rfl, hmeaning, hmeanings⟩, ?_⟩
      · exact starts_cons.mpr ⟨c, more, rfl, starts_append.mpr ⟨mid, htree, htrees⟩⟩
      · exact Nat.max_le.mpr ⟨hnesting, hnestings⟩
    · rintro ⟨trees', htrees', hmeanings', hnesting'⟩
      obtain ⟨tree, trees, rfl, hmeaning, hmeanings⟩ := Tree.meanings?_eq_cons.mp hmeanings'
      obtain ⟨c, more, rfl, hmore⟩ := starts_cons.mp htrees'
      obtain ⟨mid, htree, htrees⟩ := starts_append.mp hmore
      have hmid : tree.Ends mid := Tree.ends_of_restTokens htrees hend
      refine ⟨c, more, mid, rfl, (hread hts.tail).mpr ⟨tree, htree, hmeaning, ?_, hmid⟩, ?_⟩
      · exact (Nat.max_le.mp hnesting').1
      · exact (ih (hts.tail.after htree)).mpr ⟨trees, htrees, hmeanings, (Nat.max_le.mp hnesting').2⟩

theorem arguments_iff (hread : ctx.ReadsTrees room read) (hts : Plain ts) :
    (∃ h, ctx.arguments read ts = .ok (as, ⟨rest, h⟩)) ↔ ctx.DerivesList (room + 1) ts rest as := by
  constructor
  · rintro ⟨h, hlist⟩
    obtain ⟨⟨a, mid, h'⟩, ha, hlist⟩ := ok_of_bind hlist
    obtain ⟨⟨as, last, h''⟩, has, hlist⟩ := ok_of_bind hlist
    obtain ⟨⟨⟨⟩, rest', hsize⟩, hsign, hlist⟩ := ok_of_bind hlist
    cases hlist
    obtain ⟨first, hfirst, hmeaning, hnesting, -⟩ := (hread hts).mp ⟨h', ha⟩
    have hsign : Starts [.greater] last rest := (expect_iff ctx).mp ⟨_, hsign⟩
    obtain ⟨more, hmore, hmeanings, hnestings⟩ :=
      (argumentsRest_iff hread (hts.after hfirst) hsign.ahead).mp ⟨h'', has⟩
    refine ⟨first, more, ?_, Tree.meanings?_eq_cons.mpr ⟨first, more, rfl, hmeaning, hmeanings⟩, ?_⟩
    · exact starts_append.mpr ⟨mid, hfirst, starts_append.mpr ⟨last, hmore, hsign⟩⟩
    · rw [Nat.add_comm]
      exact Nat.succ_le_succ (Nat.max_le.mpr ⟨hnesting, hnestings⟩)
  · rintro ⟨first, more, hstarts, hmeanings', hnesting'⟩
    obtain ⟨mid, hfirst, hstarts⟩ := starts_append.mp hstarts
    obtain ⟨last, hmore, hsign⟩ := starts_append.mp hstarts
    have hnesting : max first.nesting (Tree.nestingAll more) ≤ room := by omega
    obtain ⟨a, as, rfl, hmeaning, hmeanings⟩ := Tree.meanings?_cons.mp hmeanings'
    have hmid : first.Ends mid := Tree.ends_of_restTokens hmore hsign.ahead
    obtain ⟨h, ha⟩ := (hread hts).mpr ⟨first, hfirst, hmeaning, (Nat.max_le.mp hnesting).1, hmid⟩
    obtain ⟨h', has⟩ := (argumentsRest_iff hread (hts.after hfirst) hsign.ahead).mpr
      ⟨more, hmore, hmeanings, (Nat.max_le.mp hnesting).2⟩
    obtain ⟨h'', hsign⟩ := (expect_iff ctx).mpr hsign
    refine ⟨by omega, ?_⟩
    simp [arguments, ha, has, hsign, bind, Except.bind, pure, Except.pure]

/-! ### Arguments -/

variable {arguments : Nat → Reading (List TypeArg)} {name : Dotted}

theorem bracketed_of_sign (hresolve : ctx.resolve text column = .ok (s, n))
    (hsign : ahead ts = some .greater ∨ ahead ts = some .comma) :
    ctx.bracketed arguments text column ts = ctx.openForm text column s n ts := by
  rcases ts with _ | ⟨⟨token, c⟩, ts⟩
  · rcases hsign with hsign | hsign <;> cases hsign
  · rcases hsign with hsign | hsign <;> cases hsign <;> simp [bracketed, hresolve, next, bind, Except.bind]

theorem bracketed_of_word (hresolve : ctx.resolve text column = .ok (s, n))
    (hsign : ¬ (ahead ts = some .greater ∨ ahead ts = some .comma)) :
    (∃ h, ctx.bracketed arguments text column ts = .ok (a, ⟨rest, h⟩)) ↔
      ∃ as, n = as.length ∧ a = .type s as ∧ ∃ h, arguments column ts = .ok (as, ⟨rest, h⟩) := by
  have hnext : ctx.bracketed arguments text column ts = (do
      let found ← arguments column ts
      if found.1.length = n then return (.type s found.1, found.2)
      else .error (.argumentCount text n found.1.length column)) := by
    rcases ts with _ | ⟨⟨token, c⟩, ts⟩
    · simp [bracketed, hresolve, next, bind, Except.bind]
    · cases token <;> simp_all [bracketed, next, bind, Except.bind, ahead]
  rw [hnext]
  constructor
  · rintro ⟨h, hread⟩
    obtain ⟨⟨as, rest', h'⟩, has, hread⟩ := ok_of_bind hread
    dsimp only at hread
    split at hread
    · cases hread
      exact ⟨as, Eq.symm ‹_›, rfl, h, has⟩
    · cases hread
  · rintro ⟨as, rfl, rfl, h, has⟩
    exact ⟨h, by simp [has, bind, Except.bind, pure, Except.pure]⟩

theorem bracketed_iff (hlist : ∀ column ⦃ts rest as⦄, Plain ts →
      ((∃ h, arguments column ts = .ok (as, ⟨rest, h⟩)) ↔ ctx.DerivesList room ts rest as)) (hts : Plain ts) :
    (∃ h, ctx.bracketed arguments text column ts = .ok (a, ⟨rest, h⟩)) ↔
      ∃ s, ctx.table.lookup? text = some s ∧
        ((∃ k, Tree.arity ctx.table s = k + 1 ∧ a = (TypeRef.opened s (k + 1)).toArg ∧
            Starts (List.replicate k .comma ++ [.greater]) ts rest) ∨
          ∃ as, Tree.arity ctx.table s = as.length ∧ a = .type s as ∧ ctx.DerivesList room ts rest as) := by
  cases hlookup : ctx.table.lookup? text with
  | none =>
    constructor
    · rintro ⟨h, hread⟩
      obtain ⟨⟨s, n⟩, hresolve, -⟩ := ok_of_bind hread
      rw [((resolve_iff ctx).mp hresolve).1] at hlookup
      cases hlookup
    · rintro ⟨s, hs, -⟩
      cases hs
  | some s =>
    have hresolve : ctx.resolve text column = .ok (s, Tree.arity ctx.table s) := (resolve_iff ctx).mpr ⟨hlookup, rfl⟩
    by_cases hsign : ahead ts = some .greater ∨ ahead ts = some .comma
    · rw [bracketed_of_sign hresolve hsign, openForm_iff]
      constructor
      · intro hopen
        exact ⟨s, rfl, .inl hopen⟩
      · rintro ⟨s, ⟨⟩, hopen | ⟨as, -, -, first, more, hstarts, -⟩⟩
        · exact hopen
        · -- A list of arguments starts with a word.
          obtain ⟨mid, hfirst, -⟩ := starts_append.mp hstarts
          obtain ⟨w, hw⟩ := first.ahead_of_tokens hfirst
          simp [hw] at hsign
    · rw [bracketed_of_word hresolve hsign]
      constructor
      · rintro ⟨as, hn, rfl, has⟩
        exact ⟨s, rfl, .inr ⟨as, hn, rfl, (hlist column hts).mp has⟩⟩
      · rintro ⟨s, ⟨⟩, ⟨k, -, -, hstarts⟩ | ⟨as, hn, rfl, has⟩⟩
        · -- An open form starts with a comma or the closing bracket.
          exact absurd (Tree.ahead_of_slots hstarts) hsign
        · exact ⟨as, hn, rfl, (hlist column hts).mpr has⟩

theorem param?_text (hname : '.' ∉ name.first.toList) :
    ctx.param? name.text = name.param? ctx.table ctx.scope? := by
  obtain ⟨first, more⟩ := name
  cases more with
  | nil => simp_all [param?, Dotted.param?, Dotted.text, Dotted.restText]
  | cons w ws => simp [param?, Dotted.param?, Dotted.text, Dotted.restText]

theorem bare_iff (hname : '.' ∉ name.first.toList) :
    ctx.bare name.text column = .ok a ↔ (Tree.bare name).meaning? ctx.table ctx.scope? = some a := by
  rw [bare, param?_text hname, Tree.meaning?]
  cases name.param? ctx.table ctx.scope? with
  | some p => simp
  | none =>
    cases hlookup : ctx.table.lookup? name.text with
    | none => simp [resolve, hlookup, bind, Except.bind]
    | some s =>
      have hresolve : ctx.resolve name.text column = .ok (s, Tree.arity ctx.table s) :=
        (resolve_iff ctx).mpr ⟨hlookup, rfl⟩
      by_cases hzero : Tree.arity ctx.table s = 0
      · simp [hresolve, hzero, bind, Except.bind]
      · simp [hresolve, hzero, Nat.pos_of_ne_zero hzero, bind, Except.bind]

theorem argumentWith_of_less {c : Nat} {more : List Placed} {h : (⟨.less, c⟩ :: more).length < ts.length}
    (hname : ctx.name ts = .ok ((text, column), ⟨⟨.less, c⟩ :: more, h⟩)) :
    (∃ h, ctx.argumentWith arguments ts = .ok (a, ⟨rest, h⟩)) ↔
      ∃ h, ctx.bracketed arguments text column more = .ok (a, ⟨rest, h⟩) := by
  constructor
  · rintro ⟨h', hread⟩
    simp only [argumentWith, hname, bind, Except.bind] at hread
    obtain ⟨⟨a, rest', h''⟩, hbracketed, hread⟩ := ok_of_bind hread
    cases hread
    exact ⟨_, hbracketed⟩
  · rintro ⟨h', hbracketed⟩
    refine ⟨by simp at h; omega, ?_⟩
    simp [argumentWith, hname, hbracketed, bind, Except.bind, pure, Except.pure]

theorem argumentWith_of_other {mid : List Placed} {h : mid.length < ts.length}
    (hname : ctx.name ts = .ok ((text, column), ⟨mid, h⟩)) (hmid : ahead mid ≠ some .less) :
    (∃ h, ctx.argumentWith arguments ts = .ok (a, ⟨rest, h⟩)) ↔ ctx.bare text column = .ok a ∧ mid = rest := by
  have hread : ctx.argumentWith arguments ts = (ctx.bare text column).map (·, ⟨mid, h⟩) := by
    rcases mid with _ | ⟨⟨token, c⟩, mid⟩
    · simp only [argumentWith, hname, bind, Except.bind]
      rfl
    · cases token with
      | less => exact absurd rfl hmid
      | _ =>
        simp only [argumentWith, hname, bind, Except.bind]
        rfl
  rw [hread]
  constructor
  · rintro ⟨h', hbare⟩
    obtain ⟨a', ha, hbare⟩ := ok_of_map hbare
    cases hbare
    exact ⟨ha, rfl⟩
  · rintro ⟨ha, rfl⟩
    exact ⟨h, by rw [ha]; rfl⟩

theorem argumentWith_iff (hlist : ∀ column ⦃ts rest as⦄, Plain ts →
      ((∃ h, arguments column ts = .ok (as, ⟨rest, h⟩)) ↔ ctx.DerivesList room ts rest as)) (hts : Plain ts) :
    (∃ h, ctx.argumentWith arguments ts = .ok (a, ⟨rest, h⟩)) ↔ ctx.Derives room ts rest a := by
  constructor
  · rintro ⟨h, hread⟩
    obtain ⟨⟨⟨text, column⟩, mid, h'⟩, hname, -⟩ := ok_of_bind hread
    obtain ⟨name, hstarts, rfl, hdot⟩ := (name_iff ctx).mp ⟨column, h', hname⟩
    by_cases hless : ahead mid = some .less
    · obtain ⟨c, more, rfl⟩ := ahead_eq_some.mp hless
      have hbracket := (argumentWith_of_less hname).mp ⟨h, hread⟩
      have hmore : Plain more := (hts.after hstarts).tail
      obtain ⟨s, hs, ⟨k, harity, rfl, hslots⟩ | ⟨as, harity, rfl, first, args, hargs, hmeanings, hnesting⟩⟩ :=
        (bracketed_iff hlist hmore).mp hbracket
      · refine ⟨.opened name k, ?_, ?_, Nat.zero_le _, trivial⟩
        · exact starts_append.mpr ⟨_, hstarts, starts_cons.mpr ⟨c, more, rfl, hslots⟩⟩
        · exact Tree.meaning?_opened.mpr ⟨s, hs, harity, rfl⟩
      · refine ⟨.applied name first args, ?_, ?_, hnesting, trivial⟩
        · exact starts_append.mpr ⟨_, hstarts, starts_cons.mpr ⟨c, more, rfl, hargs⟩⟩
        · exact Tree.meaning?_applied.mpr ⟨s, as, hs, hmeanings, harity, rfl⟩
    · obtain ⟨hbare, rfl⟩ := (argumentWith_of_other hname hless).mp ⟨h, hread⟩
      exact ⟨.bare name, hstarts, (bare_iff (hts.first hstarts)).mp hbare, Nat.zero_le _, hdot, hless⟩
  · rintro ⟨tree, hstarts, hmeaning, hnesting, hends⟩
    cases tree with
    | bare name =>
      obtain ⟨hdot, hless⟩ := hends
      obtain ⟨column, h, hname⟩ := (name_iff ctx).mpr ⟨name, hstarts, rfl, hdot⟩
      exact (argumentWith_of_other hname hless).mpr ⟨(bare_iff (hts.first hstarts)).mpr hmeaning, rfl⟩
    | opened name k =>
      obtain ⟨mid, hfirst, hmid⟩ := starts_append.mp hstarts
      obtain ⟨c, more, rfl, hslots⟩ := starts_cons.mp hmid
      obtain ⟨column, h, hname⟩ := (name_iff ctx).mpr ⟨name, hfirst, rfl, nofun⟩
      obtain ⟨s, hs, harity, rfl⟩ := Tree.meaning?_opened.mp hmeaning
      have hmore : Plain more := (hts.after hfirst).tail
      refine (argumentWith_of_less hname).mpr ((bracketed_iff hlist hmore).mpr ⟨s, hs, .inl ?_⟩)
      exact ⟨k, harity, rfl, hslots⟩
    | applied name first args =>
      obtain ⟨mid, hfirst, hmid⟩ := starts_append.mp hstarts
      obtain ⟨c, more, rfl, hargs⟩ := starts_cons.mp hmid
      obtain ⟨column, h, hname⟩ := (name_iff ctx).mpr ⟨name, hfirst, rfl, nofun⟩
      obtain ⟨s, as, hs, hmeanings, harity, rfl⟩ := Tree.meaning?_applied.mp hmeaning
      have hmore : Plain more := (hts.after hfirst).tail
      refine (argumentWith_of_less hname).mpr ((bracketed_iff hlist hmore).mpr ⟨s, hs, .inr ?_⟩)
      exact ⟨as, harity, rfl, first, args, hargs, hmeanings, hnesting⟩

/-- By induction on the levels that are left: a list of arguments uses one up, and its arguments have the others. -/
theorem argument_iff (room : Nat) : ctx.ReadsTrees room (ctx.argument room) := by
  induction room with
  | zero =>
    intro ts rest a hts
    refine argumentWith_iff ?_ hts
    intro column ts rest as _
    constructor
    · rintro ⟨h, hread⟩
      cases hread
    · rintro ⟨first, more, -, -, hnesting⟩
      omega
  | succ room ih =>
    intro ts rest a hts
    exact argumentWith_iff (fun _ _ _ _ hts => arguments_iff ih hts) hts

end Context
end Expression

namespace Table

open Expression

variable (t : Table) (scope? : Option Symbol) {text : String} {ty : TypeRef}

/-- An expression is read as a type if an argument is written that is one, and nothing follows it. -/
theorem parse_iff_derives {tokens : List Placed} (htokens : tokenize 1 text.toList = .ok tokens) :
    t.parse text scope? = .ok ty ↔
      Context.Derives ⟨t, scope?, text.utf8ByteSize + 1⟩ maxNesting tokens [] ty.toArg := by
  have hplain : Plain tokens := fun p hp w hw => not_mem_of_isWord (isWord_of_mem_tokenize htokens p hp w hw)
  rw [← Context.argument_iff maxNesting hplain]
  constructor
  · intro h
    obtain ⟨tokens', htokens', h⟩ := ok_of_bind h
    cases htokens.symm.trans htokens'
    obtain ⟨⟨a, rest, hsize⟩, ha, h⟩ := ok_of_bind h
    cases a with
    | param p => cases h
    | type s as =>
      cases rest with
      | nil =>
        cases h
        exact ⟨hsize, ha⟩
      | cons p rest => cases h
  · exact parse_of_reads htokens

/-- Types are read from exactly those texts whose tokens are the tokens of a tree that means a type, in which no more
    than 128 lists of arguments are nested; and no two trees have the same tokens. -/
theorem parse_iff_tree :
    (∀ text ty, t.parse text scope? = .ok ty ↔
      ∃ (tokens : List Placed) (tree : Tree), tokenize 1 text.toList = .ok tokens ∧
        tree.tokens = tokens.map Placed.token ∧ tree.meaning? t scope? = some ty.toArg ∧ tree.nesting ≤ 128) ∧
      ∀ tree tree' : Tree, tree.tokens = tree'.tokens ↔ tree = tree' := by
  refine ⟨fun text ty => ⟨fun h => ?_, ?_⟩, fun tree tree' => ⟨fun h => ?_, congrArg _⟩⟩
  · obtain ⟨tokens, htokens, -⟩ := ok_of_bind h
    obtain ⟨tree, ⟨front, rfl, hfront⟩, hmeaning, hnesting, -⟩ := (parse_iff_derives t scope? htokens).mp h
    exact ⟨_, tree, htokens, by rw [List.append_nil, hfront], hmeaning, hnesting⟩
  · rintro ⟨tokens, tree, htokens, htree, hmeaning, hnesting⟩
    refine (parse_iff_derives t scope? htokens).mpr ⟨tree, ?_, hmeaning, hnesting, Tree.ends_nil⟩
    exact ⟨tokens, (List.append_nil _).symm, htree.symm⟩
  · exact (Tree.tokens_inj tree tree' [] [] (by rw [h]) ⟨nofun, nofun⟩ ⟨nofun, nofun⟩).1

end Table

end Nominal
