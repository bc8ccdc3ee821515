import Nominal.Reference.Text

/-! The text of a reference tells which reference it is. A name without brackets and commas ends where the next of these
    signs stands, so that a text can be taken apart in one way only, name by name from the left. What symbols and
    parameters are called by number are names of this kind. -/

namespace Nominal

/-! ### Parts of a text -/

/-- Two texts that start with characters of one kind, and go on with none of that kind, are equal part by part. -/
theorem append_inj_of_run {p : Char → Bool} {xs ys r r' : List Char} (h : xs ++ r = ys ++ r')
    (hxs : ∀ c ∈ xs, p c = true) (hys : ∀ c ∈ ys, p c = true) (hr : ∀ c ∈ r.head?, p c = false)
    (hr' : ∀ c ∈ r'.head?, p c = false) :
    xs = ys ∧ r = r' := by
  have hrun : ∀ {zs r : List Char}, (∀ c ∈ zs, p c = true) → (∀ c ∈ r.head?, p c = false) →
      (zs ++ r).takeWhile p = zs := by
    intro zs r hzs hr
    rw [List.takeWhile_append_of_pos hzs]
    cases r with
    | nil => exact List.append_nil zs
    | cons c r =>
      have hc : ¬p c = true := by simp [hr c rfl]
      rw [List.takeWhile_cons_of_neg hc, List.append_nil]
  have hxy : xs = ys := by rw [← hrun hxs hr, h, hrun hys hr']
  subst hxy
  exact ⟨rfl, List.append_cancel_left h⟩

/-! ### Names -/

namespace Naming

/-- What a symbol or a parameter is called. -/
def call (names : Naming) : Symbol ⊕ Param → String
  | .inl s => names.symbol s
  | .inr p => names.param p

/-- Whether a character can be part of a name that is told apart from what is written around it. -/
def isPlain (c : Char) : Bool := c != '<' && c != '>' && c != ','

/-- No two things are called the same, everything is called something, and names end before brackets and commas. -/
structure Unambiguous (names : Naming) : Prop where
  inj : ∀ {x y}, names.call x = names.call y → x = y
  plain : ∀ x, ∀ c ∈ (names.call x).toList, isPlain c = true
  nonempty : ∀ x, (names.call x).toList ≠ []

end Naming

namespace TypeArg

/-- The symbol or the parameter that an argument starts with. -/
def head : TypeArg → Symbol ⊕ Param
  | .param p => .inr p
  | .type s _ => .inl s

/-- The text of an argument behind its first name. -/
def bracketed (names : Naming) : TypeArg → List Char
  | .param _ => []
  | .type _ [] => []
  | .type _ (a :: as) => '<' :: ((render names a).toList ++ ((renderRest names as).toList ++ ['>']))

theorem toList_render (names : Naming) (a : TypeArg) :
    (a.render names).toList = (names.call a.head).toList ++ a.bracketed names := by
  match a with
  | .param p => exact (List.append_nil _).symm
  | .type s [] => exact (List.append_nil _).symm
  | .type s (a :: as) => simp [render, bracketed, head, Naming.call]

theorem toList_renderRest_cons (names : Naming) (a : TypeArg) (as : List TypeArg) :
    (renderRest names (a :: as)).toList = ',' :: ' ' :: ((a.render names).toList ++ (renderRest names as).toList) := by
  simp [renderRest]

/-- What may follow the text of an argument: nothing, a closing bracket or a comma. -/
def Closing (r : List Char) : Prop := ∀ c ∈ r.head?, c = '>' ∨ c = ','

variable {names : Naming} {a b : TypeArg} {r r' : List Char}

theorem closing_bracket : Closing ('>' :: r) := by
  rintro c ⟨⟩
  exact .inl rfl

theorem closing_renderRest (as : List TypeArg) : Closing ((renderRest names as).toList ++ '>' :: r) := by
  cases as with
  | nil => exact closing_bracket
  | cons a as =>
    rw [toList_renderRest_cons]
    rintro c ⟨⟩
    exact .inr rfl

theorem not_plain_of_closing (hr : Closing r) : ∀ c ∈ (a.bracketed names ++ r).head?, Naming.isPlain c = false := by
  have hsign : ∀ c ∈ r.head?, Naming.isPlain c = false := by
    intro c hc
    rcases hr c hc with rfl | rfl <;> rfl
  match a with
  | .param _ => exact hsign
  | .type _ [] => exact hsign
  | .type _ (_ :: _) =>
    rintro c ⟨⟩
    rfl

/-- Equal names are taken off the front, so that the brackets are left to compare. -/
theorem bracketed_of_render (hnames : names.Unambiguous)
    (h : (a.render names).toList ++ r = (b.render names).toList ++ r') (hr : Closing r) (hr' : Closing r') :
    a.head = b.head ∧ a.bracketed names ++ r = b.bracketed names ++ r' := by
  rw [toList_render, toList_render, List.append_assoc, List.append_assoc] at h
  obtain ⟨hname, hbracketed⟩ := append_inj_of_run h (hnames.plain _) (hnames.plain _) (not_plain_of_closing hr)
    (not_plain_of_closing hr')
  exact ⟨hnames.inj (String.toList_inj.mp hname), hbracketed⟩

theorem not_closing_bracketed {a : TypeArg} {as : List TypeArg} {s : Symbol} :
    ¬Closing ((type s (a :: as)).bracketed names ++ r) := by
  intro h
  rcases h '<' rfl with h | h <;> cases h

mutual

/-- In front of anything that may follow an argument, a text is the text of one argument only. -/
theorem render_inj (hnames : names.Unambiguous) (a b : TypeArg) (r r' : List Char)
    (h : (a.render names).toList ++ r = (b.render names).toList ++ r') (hr : Closing r) (hr' : Closing r') :
    a = b ∧ r = r' := by
  obtain ⟨hhead, hrest⟩ := bracketed_of_render hnames h hr hr'
  match a, b with
  | .param p, .param q =>
    cases hhead
    exact ⟨rfl, hrest⟩
  | .param p, .type t bs => cases hhead
  | .type s as, .param q => cases hhead
  | .type s [], .type t [] =>
    cases hhead
    exact ⟨rfl, hrest⟩
  | .type s [], .type t (b :: bs) =>
    -- What follows the first text would have to start with the opening bracket of the second.
    rw [show r = _ from hrest] at hr
    exact absurd hr not_closing_bracketed
  | .type s (a :: as), .type t [] =>
    rw [show r' = _ from hrest.symm] at hr'
    exact absurd hr' not_closing_bracketed
  | .type s (a :: as), .type t (b :: bs) =>
    cases hhead
    simp only [bracketed, List.cons_append, List.append_assoc, List.nil_append] at hrest
    obtain ⟨rfl, hmore⟩ := render_inj hnames a b _ _ (List.tail_eq_of_cons_eq hrest) (closing_renderRest as)
      (closing_renderRest bs)
    obtain ⟨rfl, rfl⟩ := renderRest_inj hnames as bs _ _ hmore
    exact ⟨rfl, rfl⟩

theorem renderRest_inj (hnames : names.Unambiguous) (as bs : List TypeArg) (r r' : List Char)
    (h : (renderRest names as).toList ++ '>' :: r = (renderRest names bs).toList ++ '>' :: r') : as = bs ∧ r = r' := by
  match as, bs with
  | [], [] => exact ⟨rfl, List.tail_eq_of_cons_eq h⟩
  | [], b :: bs =>
    rw [toList_renderRest_cons] at h
    cases h
  | a :: as, [] =>
    rw [toList_renderRest_cons] at h
    cases h
  | a :: as, b :: bs =>
    simp only [toList_renderRest_cons, List.cons_append, List.append_assoc, List.cons.injEq, true_and] at h
    obtain ⟨rfl, hrest⟩ := render_inj hnames a b _ _ h (closing_renderRest as) (closing_renderRest bs)
    obtain ⟨rfl, rfl⟩ := renderRest_inj hnames as bs _ _ hrest
    exact ⟨rfl, rfl⟩

end

theorem render_injective (hnames : names.Unambiguous) (h : a.render names = b.render names) : a = b :=
  (render_inj hnames a b [] [] (by rw [h]) nofun nofun).1

/-! ### Lists of arguments -/

theorem renderAll_eq_intercalate (names : Naming) (as : List TypeArg) :
    renderAll names as = ", ".intercalate (as.map (render names)) := by
  cases as with
  | nil => rfl
  | cons a as =>
    induction as generalizing a with
    | nil => simp [renderAll, renderRest]
    | cons b as ih =>
      have hrest := ih b
      simp only [renderAll, List.map_cons] at hrest
      rw [List.map_cons, List.map_cons, String.intercalate_cons_cons, ← hrest]
      simp [renderAll, renderRest, String.append_assoc]

theorem render_ne_closing (hnames : names.Unambiguous) (a : TypeArg) (hr : Closing r') :
    r' ≠ (a.render names).toList ++ r := by
  intro h
  obtain ⟨c, cs, hc⟩ := List.exists_cons_of_ne_nil (hnames.nonempty a.head)
  have hplain : Naming.isPlain c = true := hnames.plain a.head c (hc ▸ List.mem_cons_self)
  rw [toList_render, hc] at h
  subst h
  rcases hr c rfl with rfl | rfl <;> cases hplain

theorem renderAll_injective (hnames : names.Unambiguous) {as bs : List TypeArg}
    (h : "<" ++ renderAll names as ++ ">" = "<" ++ renderAll names bs ++ ">") : as = bs := by
  have hlist : (renderAll names as).toList ++ ['>'] = (renderAll names bs).toList ++ ['>'] := by
    simpa using congrArg String.toList h
  cases as with
  | nil =>
    cases bs with
    | nil => rfl
    | cons b bs =>
      rw [renderAll, renderAll, String.toList_append, List.append_assoc] at hlist
      exact absurd hlist (render_ne_closing hnames b closing_bracket)
  | cons a as =>
    cases bs with
    | nil =>
      rw [renderAll, renderAll, String.toList_append, List.append_assoc] at hlist
      exact absurd hlist.symm (render_ne_closing hnames a closing_bracket)
    | cons b bs =>
      rw [renderAll, renderAll, String.toList_append, String.toList_append, List.append_assoc,
        List.append_assoc] at hlist
      obtain ⟨rfl, hrest⟩ := render_inj hnames a b _ _ hlist (closing_renderRest as) (closing_renderRest bs)
      obtain ⟨rfl, -⟩ := renderRest_inj hnames as bs [] [] hrest
      rfl

end TypeArg

/-! ### Names by number -/

theorem isDigit_of_mem_toString {n : Nat} {c : Char} (h : c ∈ (toString n).toList) : c.isDigit = true := by
  rw [Nat.toString_eq_ofList_toDigits, String.toList_ofList] at h
  exact Nat.isDigit_of_mem_toDigits (by decide) (by decide) h

theorem toString_inj {n m : Nat} (h : toString n = toString m) : n = m := by
  rw [Nat.toString_eq_ofList_toDigits, Nat.toString_eq_ofList_toDigits, String.ofList_inj] at h
  calc
    n = Nat.ofDigitChars 10 (Nat.toDigits 10 n) 0 := Nat.ofDigitChars_ten_toDigits.symm
    _ = Nat.ofDigitChars 10 (Nat.toDigits 10 m) 0 := by rw [h]
    _ = m := Nat.ofDigitChars_ten_toDigits

/-- A number ends where no digit follows. -/
theorem number_inj {n m : Nat} {r r' : List Char} (h : (toString n).toList ++ r = (toString m).toList ++ r')
    (hr : ∀ c ∈ r.head?, c.isDigit = false) (hr' : ∀ c ∈ r'.head?, c.isDigit = false) : n = m ∧ r = r' := by
  obtain ⟨hn, hrest⟩ :=
    append_inj_of_run h (fun _ => isDigit_of_mem_toString) (fun _ => isDigit_of_mem_toString) hr hr'
  exact ⟨toString_inj (String.toList_inj.mp hn), hrest⟩

theorem Symbol.toList_text (s : Symbol) : s.text.toList = '#' :: (toString s.id).toList := by
  simp [Symbol.text]

theorem Param.toList_text (p : Param) :
    p.text.toList = '#' :: ((toString p.owner.id).toList ++ '!' :: (toString p.index).toList) := by
  simp [Param.text, Symbol.text]

theorem Symbol.text_inj {s t : Symbol} (h : s.text = t.text) : s = t := by
  have hlist := congrArg String.toList h
  rw [Symbol.toList_text, Symbol.toList_text] at hlist
  have hid : s.id = t.id := toString_inj (String.toList_inj.mp (List.tail_eq_of_cons_eq hlist))
  cases s
  cases t
  cases hid
  rfl

theorem Param.text_inj {p q : Param} (h : p.text = q.text) : p = q := by
  have hlist := congrArg String.toList h
  rw [Param.toList_text, Param.toList_text] at hlist
  obtain ⟨howner, hindex⟩ := number_inj (List.tail_eq_of_cons_eq hlist) (by rintro c ⟨⟩; rfl) (by rintro c ⟨⟩; rfl)
  have hindex : p.index = q.index := toString_inj (String.toList_inj.mp (List.tail_eq_of_cons_eq hindex))
  obtain ⟨⟨_⟩, _⟩ := p
  obtain ⟨⟨_⟩, _⟩ := q
  cases howner
  cases hindex
  rfl

/-- The mark between its two numbers tells the text of a parameter from that of a symbol. -/
theorem Symbol.text_ne_text (s : Symbol) (p : Param) : s.text ≠ p.text := by
  intro h
  have hlist := congrArg String.toList h
  rw [Symbol.toList_text, Param.toList_text] at hlist
  have hnumber : (toString s.id).toList ++ [] = (toString p.owner.id).toList ++ '!' :: (toString p.index).toList := by
    rw [List.append_nil]
    exact List.tail_eq_of_cons_eq hlist
  obtain ⟨-, hrest⟩ := number_inj hnumber nofun (by rintro c ⟨⟩; rfl)
  cases hrest

theorem Naming.isPlain_of_isDigit {c : Char} (h : c.isDigit = true) : isPlain c = true := by
  simp only [isPlain, Bool.and_eq_true, bne_iff_ne]
  refine ⟨⟨?_, ?_⟩, ?_⟩ <;> rintro rfl <;> exact absurd h (by decide)

theorem Naming.byNumber_unambiguous : byNumber.Unambiguous where
  inj := by
    rintro (s | p) (t | q) h
    · rw [Symbol.text_inj h]
    · exact absurd h (Symbol.text_ne_text s q)
    · exact absurd h.symm (Symbol.text_ne_text t p)
    · rw [Param.text_inj h]
  plain := by
    rintro (s | p) c hc
    · change c ∈ s.text.toList at hc
      rw [Symbol.toList_text, List.mem_cons] at hc
      rcases hc with rfl | hc
      · rfl
      · exact isPlain_of_isDigit (isDigit_of_mem_toString hc)
    · change c ∈ p.text.toList at hc
      rw [Param.toList_text, List.mem_cons, List.mem_append, List.mem_cons] at hc
      rcases hc with rfl | hc | rfl | hc
      · rfl
      · exact isPlain_of_isDigit (isDigit_of_mem_toString hc)
      · rfl
      · exact isPlain_of_isDigit (isDigit_of_mem_toString hc)
  nonempty := by
    rintro (s | p)
    · change s.text.toList ≠ []
      rw [Symbol.toList_text]
      exact List.cons_ne_nil _ _
    · change p.text.toList ≠ []
      rw [Param.toList_text]
      exact List.cons_ne_nil _ _

/-- By number, two references that read the same are equal. So are two arguments, even if one is a parameter and the
    other a type, and two lists of arguments that read the same between brackets. -/
theorem text_injective :
    Function.Injective TypeRef.text ∧ Function.Injective TypeArg.text ∧
      Function.Injective fun args : List TypeArg => "<" ++ ", ".intercalate (args.map TypeArg.text) ++ ">" := by
  have hnames := Naming.byNumber_unambiguous
  refine ⟨fun t u h => ?_, fun a b => TypeArg.render_injective hnames, fun as bs h => ?_⟩
  · have harg : t.toArg = u.toArg := TypeArg.render_injective hnames h
    cases t
    cases u
    cases harg
    rfl
  · have hlist (as : List TypeArg) : ", ".intercalate (as.map TypeArg.text) = TypeArg.renderAll .byNumber as :=
      (TypeArg.renderAll_eq_intercalate .byNumber as).symm
    simp only [hlist] at h
    exact TypeArg.renderAll_injective hnames h

end Nominal
