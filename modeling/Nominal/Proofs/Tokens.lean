import Nominal.Expression.Token

/-! Which tokens a text is split into. The classes of characters are apart from one another: what starts a word is
    neither white space nor a sign, and no sign goes on with a word. So every word is found again in a text that is put
    together from words, signs and white space, as long as no word runs into the next. -/

namespace Nominal

/-! ### Classes of characters -/

theorem Ranges.exists_of_holds {ranges : Ranges} {n : Nat} (h : ranges.holds n = true) :
    ∃ r ∈ ranges, r.1 ≤ n ∧ n ≤ r.2 := by
  induction ranges with
  | nil => cases h
  | cons r ranges ih =>
    obtain ⟨low, high⟩ := r
    rw [Ranges.holds] at h
    split at h
    · cases h
    · split at h
      · exact ⟨(low, high), List.mem_cons_self, by omega, ‹_›⟩
      · obtain ⟨r, hr, hn⟩ := ih h
        exact ⟨r, List.mem_cons_of_mem _ hr, hn⟩

/-- No white space starts a word. Both classes are tables, and the smaller one is gone through point by point. -/
theorem isWordStart_of_isBlank {c : Char} (h : isBlank c = true) : isWordStart c = false := by
  have hpoints : ∀ r ∈ blankRanges, ∀ k < r.2 + 1 - r.1,
      alphabeticRanges.holds (r.1 + k) = false ∧ r.1 + k ≠ '_'.toNat := by
    decide +kernel
  obtain ⟨r, hr, hlow, hhigh⟩ := Ranges.exists_of_holds h
  obtain ⟨halphabetic, hline⟩ := hpoints r hr (c.toNat - r.1) (by omega)
  rw [Nat.add_sub_cancel' hlow] at halphabetic hline
  have hc : c ≠ '_' := by
    rintro rfl
    exact hline rfl
  simp [isWordStart, isAlphabetic, halphabetic, hc]

theorem isWordPart_of_isWordStart {c : Char} (h : isWordStart c = true) : isWordPart c = true := by
  rw [isWordStart, Bool.or_eq_true] at h
  rcases h with h | h <;> simp [isWordPart, h]

theorem not_mem_of_isWord {w : String} (h : isWord w = true) : '.' ∉ w.toList := by
  have hstart : isWordStart '.' = false := by decide +kernel
  have hpart : isWordPart '.' = false := by decide +kernel
  unfold isWord at h
  cases hw : w.toList with
  | nil => simp
  | cons c cs =>
    rw [hw, isWordChars, Bool.and_eq_true, List.all_eq_true] at h
    intro hmem
    rcases List.mem_cons.mp hmem with hc | hc
    · rw [← hc, hstart] at h
      cases h.1
    · cases hpart.symm.trans (h.2 _ hc)

namespace Expression

theorem Token.sign_cases {c : Char} {sign : Token} (h : Token.ofSign? c = some sign) :
    isBlank c = false ∧ isWordPart c = false := by
  obtain rfl | rfl | rfl | rfl : c = '.' ∨ c = '<' ∨ c = '>' ∨ c = ',' := by
    unfold Token.ofSign? at h
    grind
  all_goals decide +kernel

/-! ### Texts put together -/

/-- The characters are split into these tokens, at whatever column they start. -/
def Spells (cs : List Char) (tokens : List Token) : Prop :=
  ∀ column, ∃ ts, tokenize column cs = .ok ts ∧ ts.map Placed.token = tokens

/-- No word goes on into these characters. -/
def Stops (cs : List Char) : Prop := ∀ c ∈ cs.head?, isWordPart c = false

theorem stops_of_sign {c : Char} {cs : List Char} (h : (Token.ofSign? c).isSome = true) : Stops (c :: cs) := by
  obtain ⟨sign, hsign⟩ := Option.isSome_iff_exists.mp h
  rintro d ⟨⟩
  exact (Token.sign_cases hsign).2

section Spells

variable {c : Char} {cs : List Char} {tokens : List Token}

theorem spells_nil : Spells [] [] := fun column => ⟨[], by rw [tokenize], rfl⟩

theorem Spells.blank (h : Spells cs tokens) (hc : isBlank c = true) : Spells (c :: cs) tokens := by
  intro column
  rw [tokenize, if_pos hc]
  exact h _

theorem Spells.sign {sign : Token} (h : Spells cs tokens) (hc : Token.ofSign? c = some sign) :
    Spells (c :: cs) (sign :: tokens) := by
  intro column
  obtain ⟨ts, hts, rfl⟩ := h (column + c.utf8Size)
  refine ⟨⟨sign, column⟩ :: ts, ?_, rfl⟩
  simp [tokenize, (Token.sign_cases hc).1, hc, hts, Except.map]

/-- A word is taken as a whole if what follows cannot go on with it. -/
theorem Spells.word {w : String} (h : Spells cs tokens) (hw : isWord w = true) (hend : Stops cs) :
    Spells (w.toList ++ cs) (.word w :: tokens) := by
  intro column
  unfold isWord at hw
  cases hchars : w.toList with
  | nil =>
    rw [hchars] at hw
    cases hw
  | cons c more =>
    rw [hchars, isWordChars, Bool.and_eq_true, List.all_eq_true] at hw
    obtain ⟨hstart, hmore⟩ := hw
    have hblank : isBlank c = false := by
      rw [← Bool.not_eq_true]
      intro hblank
      cases hstart.symm.trans (isWordStart_of_isBlank hblank)
    have hsign : Token.ofSign? c = none := by
      cases hsign : Token.ofSign? c with
      | none => rfl
      | some sign => cases (Token.sign_cases hsign).2.symm.trans (isWordPart_of_isWordStart hstart)
    -- The word ends where its own characters end.
    have htake : (more ++ cs).takeWhile isWordPart = more := by
      rw [List.takeWhile_append_of_pos hmore]
      cases cs with
      | nil => simp
      | cons d cs => simp [hend d rfl]
    have hdrop : (more ++ cs).dropWhile isWordPart = cs := by
      rw [List.dropWhile_append_of_pos hmore]
      cases cs with
      | nil => rfl
      | cons d cs => simp [hend d rfl]
    obtain ⟨ts, hts, rfl⟩ := h (column + c.utf8Size + byteCount more)
    refine ⟨⟨.word w, column⟩ :: ts, ?_, rfl⟩
    have hw : String.ofList (c :: more) = w := by rw [← hchars, String.ofList_toList]
    simp [tokenize, hblank, hsign, hstart, htake, hdrop, hts, hw, Except.map]

end Spells

/-! ### Words found -/

theorem ok_of_map {α β : Type} {x : Except ExpressionError α} {f : α → β} {b : β} (h : x.map f = .ok b) :
    ∃ a, x = .ok a ∧ f a = b := by
  cases x with
  | error e => cases h
  | ok a => exact ⟨a, rfl, Except.ok.inj h⟩

theorem isWord_of_mem_tokenize {column : Nat} {cs : List Char} {ts : List Placed} (h : tokenize column cs = .ok ts) :
    ∀ p ∈ ts, ∀ w, p.token = .word w → isWord w = true := by
  fun_induction tokenize column cs generalizing ts with
  | case1 column =>
    cases h
    nofun
  | case2 column c cs hblank ih => exact ih h
  | case3 column c cs hblank sign hsign ih =>
    obtain ⟨rest, hrest, rfl⟩ := ok_of_map h
    have hword (w : String) : sign ≠ .word w := by
      rintro rfl
      unfold Token.ofSign? at hsign
      grind
    intro p hp w hw
    rcases List.mem_cons.mp hp with rfl | hp
    · exact absurd hw (hword w)
    · exact ih hrest p hp w hw
  | case4 column c cs hblank hsign hstart more =>
    rename_i ih
    obtain ⟨rest, hrest, rfl⟩ := ok_of_map h
    intro p hp w hw
    rcases List.mem_cons.mp hp with rfl | hp
    · cases hw
      have hmore : more.all isWordPart = true := List.all_takeWhile
      rw [isWord, String.toList_ofList, isWordChars, hstart, hmore]
      rfl
    · exact ih hrest p hp w hw
  | case5 column c cs hblank hsign hstart => cases h

end Expression

end Nominal
