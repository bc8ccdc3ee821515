import Nominal.Json.Basic

/-! JSON text says what it is written for. A string that is written between quotes is read back character by character,
    a number that fits a word keeps its value, and the text of a whole value is split into the tokens of that value. -/

namespace Nominal

namespace Json

/-! ### Strings -/

namespace Quoted

theorem hexValue?_hexDigit : ∀ n < 16, hexValue? (hexDigit n) = some n := by decide

theorem hexValue4?_hexDigit {n : Nat} (h : n < 32) :
    hexValue4? '0' '0' (hexDigit (n / 16)) (hexDigit (n % 16)) = some n := by
  have hhigh := hexValue?_hexDigit (n / 16) (by omega)
  have hlow := hexValue?_hexDigit (n % 16) (by omega)
  have hzero : hexValue? '0' = some 0 := by decide
  simp only [hexValue4?, hhigh, hlow, hzero, bind, Option.bind, pure]
  congr 1
  omega

/-- A control character is read back from its number in hexadecimal digits. -/
theorem unescape_hex {c : Char} (h : c.toNat < 32) (cs : List Char) :
    ∃ hlt, unescape ('u' :: '0' :: '0' :: hexDigit (c.toNat / 16) :: hexDigit (c.toNat % 16) :: cs) =
      .ok (c, ⟨cs, hlt⟩) := by
  refine ⟨by simp; omega, ?_⟩
  have hlow : ¬(0xDC00 ≤ c.toNat ∧ c.toNat ≤ 0xDFFF) := by omega
  have hhigh : ¬(0xD800 ≤ c.toNat ∧ c.toNat ≤ 0xDBFF) := by omega
  simp [unescape, unit, hexValue4?_hexDigit h, hlow, hhigh, bind, Except.bind]

/-- A character stands for itself, or a backslash is followed by what is read as the character. -/
theorem escape_cases (c : Char) :
    (escape c = [c] ∧ c ≠ '"' ∧ c ≠ '\\' ∧ ¬c.toNat < 32) ∨
      ∃ after, escape c = '\\' :: after ∧ ∀ cs, ∃ hlt, unescape (after ++ cs) = .ok (c, ⟨cs, hlt⟩) := by
  by_cases hquote : c = '"'
  · subst c
    exact .inr ⟨['"'], rfl, fun cs => ⟨by simp, rfl⟩⟩
  by_cases hbackslash : c = '\\'
  · subst c
    exact .inr ⟨['\\'], rfl, fun cs => ⟨by simp, rfl⟩⟩
  by_cases hnewline : c = '\n'
  · subst c
    exact .inr ⟨['n'], rfl, fun cs => ⟨by simp, rfl⟩⟩
  by_cases hreturn : c = '\r'
  · subst c
    exact .inr ⟨['r'], rfl, fun cs => ⟨by simp, rfl⟩⟩
  by_cases htab : c = '\t'
  · subst c
    exact .inr ⟨['t'], rfl, fun cs => ⟨by simp, rfl⟩⟩
  by_cases hback : c.toNat = 8
  · obtain rfl : c = Char.ofNat 8 := by rw [← hback, Char.ofNat_toNat]
    exact .inr ⟨['b'], rfl, fun cs => ⟨by simp, rfl⟩⟩
  by_cases hfeed : c.toNat = 12
  · obtain rfl : c = Char.ofNat 12 := by rw [← hfeed, Char.ofNat_toNat]
    exact .inr ⟨['f'], rfl, fun cs => ⟨by simp, rfl⟩⟩
  rw [escape, if_neg hquote, if_neg hbackslash, if_neg hnewline, if_neg hreturn, if_neg htab, if_neg hback,
    if_neg hfeed]
  by_cases hcontrol : c.toNat < 32
  · rw [if_pos hcontrol]
    exact .inr ⟨_, rfl, unescape_hex hcontrol⟩
  · rw [if_neg hcontrol]
    exact .inl ⟨rfl, hquote, hbackslash, hcontrol⟩

/-- What a string reader finds behind the opening quote. -/
def Decodes (cs text rest : List Char) : Prop := ∃ hlt, decode cs = .ok (text, ⟨rest, hlt⟩)

theorem Decodes.escape {cs text rest : List Char} (h : Decodes cs text rest) (c : Char) :
    Decodes (escape c ++ cs) (c :: text) rest := by
  obtain ⟨hlt, hread⟩ := h
  rcases escape_cases c with ⟨hescape, hquote, hbackslash, hcontrol⟩ | ⟨after, hescape, hafter⟩
  · rw [hescape, List.singleton_append]
    refine ⟨Nat.lt_succ_of_lt hlt, ?_⟩
    rw [decode]
    · simp [hcontrol, hread]
    · simpa using hquote
    · simpa using hbackslash
  · obtain ⟨hlt', hunescape⟩ := hafter cs
    rw [hescape, List.cons_append]
    refine ⟨Nat.lt_succ_of_lt (Nat.lt_trans hlt hlt'), ?_⟩
    rw [decode]
    simp [hunescape, hread]

theorem decodes_flatMap_escape (s rest : List Char) : Decodes (s.flatMap Quoted.escape ++ '"' :: rest) s rest := by
  induction s with
  | nil =>
    rw [List.flatMap_nil, List.nil_append]
    exact ⟨by simp, by rw [decode]⟩
  | cons c s ih =>
    rw [List.flatMap_cons, List.append_assoc]
    exact ih.escape c

end Quoted

/-! ### Numbers -/

theorem ne_of_isDigit {c d : Char} (hc : c.isDigit = true) (hd : d.isDigit = false) : c ≠ d := by
  rintro rfl
  rw [hc] at hd
  cases hd

namespace Number

/-- What may follow a whole number: neither a digit nor a sign that goes on with the number. -/
def Ends (cs : List Char) : Prop := ∀ c ∈ cs.head?, c.isDigit = false ∧ c ≠ '.' ∧ c ≠ 'e' ∧ c ≠ 'E'

theorem le_ofDigitChars (ds : List Char) (n : Nat) : n ≤ Nat.ofDigitChars 10 ds n := by
  induction ds generalizing n with
  | nil => exact Nat.le_refl n
  | cons c ds ih =>
    rw [Nat.ofDigitChars_cons]
    exact Nat.le_trans (by omega) (ih _)

/-- Digits fill a word with their value, as long as the word holds it. -/
theorem digits_append {ds cs : List Char} {word : Nat} (hds : ∀ c ∈ ds, c.isDigit = true) (hcs : Ends cs)
    (hword : Nat.ofDigitChars 10 ds word ≤ wordMax) :
    digits word (ds ++ cs) = ⟨Nat.ofDigitChars 10 ds word, ds.length, 0, cs⟩ := by
  induction ds generalizing word with
  | nil =>
    cases cs with
    | nil => rfl
    | cons c cs => simp [digits, (hcs c rfl).1, Nat.ofDigitChars_nil]
  | cons c ds ih =>
    rw [List.forall_mem_cons] at hds
    rw [Nat.ofDigitChars_cons] at hword ⊢
    have hfits := Nat.le_trans (le_ofDigitChars ds _) hword
    rw [List.cons_append, digits, if_neg (by simp [hds.1]), if_pos hfits, ih hds.2 hword]
    rfl

theorem afterWhole_of_ends {cs : List Char} (h : Ends cs) (n : Nat) :
    afterWhole false n 0 cs = .ok (.natural n, cs) := by
  unfold afterWhole
  split
  · exact absurd rfl (h _ rfl).2.1
  · exact absurd rfl (h _ rfl).2.2.1
  · exact absurd rfl (h _ rfl).2.2.2
  · rfl

/-- Only zero starts with a zero. -/
theorem head_toDigits {n : Nat} (hn : 0 < n) : ∃ c ds, Nat.toDigits 10 n = c :: ds ∧ c ≠ '0' := by
  induction n using Nat.strongRecOn with
  | ind n ih =>
    by_cases h : n < 10
    · have hdigit : ∀ m < 10, 0 < m → Nat.digitChar m ≠ '0' := by decide
      exact ⟨_, [], Nat.toDigits_of_lt_base h, hdigit n h hn⟩
    · obtain ⟨c, ds, hds, hc⟩ := ih (n / 10) (by omega) (by omega)
      rw [Nat.toDigits_of_base_le (by decide) (by omega), hds]
      exact ⟨c, _, rfl, hc⟩

theorem scan_toDigits {n : Nat} (hn : n ≤ wordMax) {cs : List Char} (hcs : Ends cs) :
    scan false (Nat.toDigits 10 n ++ cs) = .ok (.natural n, cs) := by
  rcases Nat.eq_zero_or_pos n with rfl | hpos
  · rw [Nat.toDigits_zero, List.singleton_append]
    cases cs with
    | nil => exact afterWhole_of_ends hcs 0
    | cons c cs => simp [scan, (hcs c rfl).1, afterWhole_of_ends hcs]
  · obtain ⟨c, ds, hds, hc⟩ := head_toDigits hpos
    have hall : ∀ c ∈ Nat.toDigits 10 n, c.isDigit = true := fun c =>
      Nat.isDigit_of_mem_toDigits (by decide) (by decide)
    have hrun := @digits_append _ _ 0 hall hcs (by rw [Nat.ofDigitChars_ten_toDigits]; exact hn)
    rw [Nat.ofDigitChars_ten_toDigits] at hrun
    rw [hds, List.cons_append] at hrun ⊢
    have hdigit : c.isDigit = true := hall c (hds ▸ List.mem_cons_self)
    unfold scan
    split
    · rename_i heq
      cases heq
    · rename_i heq
      cases heq
      exact absurd rfl hc
    · rename_i heq
      cases heq
      simp only [hdigit, hrun]
      exact afterWhole_of_ends hcs n

end Number

/-! ### Tokens -/

theorem toList_newline (level : Nat) : (newline level).toList = '\n' :: List.replicate (2 * level) ' ' := by
  simp [newline]

namespace Token

variable {c : Char} {cs : List Char} {t : Token}

theorem tokenize_space (h : isSpace c = true) : tokenize (c :: cs) = tokenize cs := by
  rw [tokenize, if_pos h]

theorem tokenize_sign (h : ofSign? c = some t) : tokenize (c :: cs) = t :: tokenize cs := by
  have hplain : isSpace c = false ∧ c ≠ '"' := by
    have hsign : c = '{' ∨ c = '}' ∨ c = '[' ∨ c = ']' ∨ c = ',' ∨ c = ':' := by
      simp only [ofSign?] at h
      grind
    rcases hsign with rfl | rfl | rfl | rfl | rfl | rfl <;> decide
  rw [tokenize, if_neg (by simp [hplain.1]), if_neg hplain.2, h]

theorem tokenize_scalar {rest : List Char} (hc : startsScalar c = true) (h : scalar c cs = .ok (t, rest)) :
    tokenize (c :: cs) = t :: tokenize rest := by
  have hplain : isSpace c = false ∧ c ≠ '"' ∧ ofSign? c = none := by
    simp only [startsScalar, Bool.or_eq_true, decide_eq_true_eq] at hc
    rcases hc with (((rfl | rfl) | rfl) | rfl) | hdigit
    · decide
    · decide
    · decide
    · decide
    · exact ⟨by simp [isSpace, ne_of_isDigit hdigit], ne_of_isDigit hdigit rfl, by simp [ofSign?, ne_of_isDigit hdigit]⟩
  rw [tokenize, if_neg (by simp [hplain.1]), if_neg hplain.2.1, hplain.2.2]
  dsimp only
  rw [if_pos hc]
  split
  · rename_i heq
    rw [h] at heq
    cases heq
  · rename_i heq
    rw [h] at heq
    cases heq
    rfl

theorem tokenize_encode (s : String) (cs : List Char) :
    tokenize ((Quoted.encode s).toList ++ cs) = .string s :: tokenize cs := by
  have hlist : (Quoted.encode s).toList ++ cs = '"' :: (s.toList.flatMap Quoted.escape ++ '"' :: cs) := by
    simp [Quoted.encode]
  obtain ⟨hlt, hread⟩ := Quoted.decodes_flatMap_escape s.toList cs
  rw [hlist, tokenize, if_neg (by decide), if_pos rfl, hread]
  simp

theorem tokenize_toString {n : Nat} (hn : n ≤ Number.wordMax) (hcs : Number.Ends cs) :
    tokenize ((toString n).toList ++ cs) = .number (.natural n) :: tokenize cs := by
  have hscan := Number.scan_toDigits hn hcs
  rw [Nat.toString_eq_ofList_toDigits, String.toList_ofList]
  obtain ⟨c, ds, hds⟩ := List.exists_cons_of_ne_nil (@Nat.toDigits_ne_nil n 10)
  have hdigit : c.isDigit = true :=
    Nat.isDigit_of_mem_toDigits (b := 10) (n := n) (by decide) (by decide) (hds ▸ List.mem_cons_self)
  rw [hds, List.cons_append] at hscan ⊢
  apply tokenize_scalar (by simp [startsScalar, hdigit])
  simp [scalar, ne_of_isDigit hdigit, hscan, Except.map]

theorem tokenize_null (cs : List Char) : tokenize ("null".toList ++ cs) = .null :: tokenize cs := by
  have hlist : "null".toList ++ cs = 'n' :: 'u' :: 'l' :: 'l' :: cs := by simp
  rw [hlist]
  exact tokenize_scalar rfl rfl

theorem tokenize_bool (b : Bool) (cs : List Char) :
    tokenize ((if b then "true" else "false").toList ++ cs) = .bool b :: tokenize cs := by
  cases b with
  | true =>
    have hlist : "true".toList ++ cs = 't' :: 'r' :: 'u' :: 'e' :: cs := by simp
    rw [if_pos rfl, hlist]
    exact tokenize_scalar rfl rfl
  | false =>
    have hlist : "false".toList ++ cs = 'f' :: 'a' :: 'l' :: 's' :: 'e' :: cs := by simp
    rw [if_neg (by decide), hlist]
    exact tokenize_scalar rfl rfl

theorem tokenize_newline (level : Nat) (cs : List Char) : tokenize ((newline level).toList ++ cs) = tokenize cs := by
  have hblanks (n : Nat) : tokenize (List.replicate n ' ' ++ cs) = tokenize cs := by
    induction n with
    | zero => rfl
    | succ n ih => rw [List.replicate_succ, List.cons_append, tokenize_space rfl, ih]
  rw [toList_newline, List.cons_append, tokenize_space rfl, hblanks]

end Token

/-! ### Whole values -/

mutual

/-- All values in a value, at any depth, and the value itself. -/
def values : Json → List Json
  | .array items => .array items :: itemValues items
  | .object fields => .object fields :: fieldValues fields
  | j => [j]

def itemValues : List Json → List Json
  | [] => []
  | item :: rest => item.values ++ itemValues rest

def fieldValues : List (String × Json) → List Json
  | [] => []
  | (_, value) :: rest => value.values ++ fieldValues rest

end

theorem mem_itemValues {v : Json} {items : List Json} : v ∈ itemValues items ↔ ∃ item ∈ items, v ∈ item.values := by
  induction items with
  | nil => simp [itemValues]
  | cons item rest ih => simp [itemValues, ih]

theorem mem_fieldValues {v : Json} {fields : List (String × Json)} :
    v ∈ fieldValues fields ↔ ∃ field ∈ fields, v ∈ field.2.values := by
  induction fields with
  | nil => simp [fieldValues]
  | cons field rest ih => simp [fieldValues, ih]

/-- All numbers among some values fit a word. -/
def Fit (vs : List Json) : Prop := ∀ n, .number n ∈ vs → n ≤ Number.wordMax

theorem fit_append {vs ws : List Json} : Fit (vs ++ ws) ↔ Fit vs ∧ Fit ws := by
  simp only [Fit, List.mem_append, or_imp, forall_and]

theorem Fit.tail {v : Json} {vs : List Json} (h : Fit (v :: vs)) : Fit vs := fun n hn => h n (List.mem_cons_of_mem _ hn)

theorem toList_moreItems (level : Nat) (item : Json) (rest : List Json) :
    (moreItems level (item :: rest)).toList =
      ',' :: ((newline level).toList ++ ((item.pretty level).toList ++ (moreItems level rest).toList)) := by
  simp [moreItems]

theorem toList_moreFields (level : Nat) (key : String) (value : Json) (rest : List (String × Json)) :
    (moreFields level ((key, value) :: rest)).toList =
      ',' :: ((newline level).toList ++ ((Quoted.encode key).toList ++ ':' :: ' ' :: ((value.pretty level).toList ++
        (moreFields level rest).toList))) := by
  simp [moreFields]

theorem ends_cons {c : Char} (hc : c = ',' ∨ c = '\n') (cs : List Char) : Number.Ends (c :: cs) := by
  rintro _ ⟨⟩
  rcases hc with rfl | rfl <;> decide

theorem ends_newline (level : Nat) (cs : List Char) : Number.Ends ((newline level).toList ++ cs) := by
  rw [toList_newline]
  exact ends_cons (.inr rfl) _

theorem ends_moreItems (level outer : Nat) (items : List Json) (cs : List Char) :
    Number.Ends ((moreItems level items).toList ++ ((newline outer).toList ++ cs)) := by
  cases items with
  | nil => exact ends_newline outer cs
  | cons item rest =>
    rw [toList_moreItems]
    exact ends_cons (.inl rfl) _

theorem ends_moreFields (level outer : Nat) (fields : List (String × Json)) (cs : List Char) :
    Number.Ends ((moreFields level fields).toList ++ ((newline outer).toList ++ cs)) := by
  cases fields with
  | nil => exact ends_newline outer cs
  | cons field rest =>
    rw [toList_moreFields]
    exact ends_cons (.inl rfl) _

open Token

mutual

/-- The text of a value is split into its tokens, in front of whatever may follow a number. -/
theorem tokenize_pretty (level : Nat) : (j : Json) → Fit j.values → (cs : List Char) → Number.Ends cs →
    tokenize ((j.pretty level).toList ++ cs) = j.tokens ++ tokenize cs
  | .null, _, cs, _ => tokenize_null cs
  | .bool b, _, cs, _ => tokenize_bool b cs
  | .number n, hfit, cs, hcs => tokenize_toString (hfit n List.mem_cons_self) hcs
  | .string s, _, cs, _ => tokenize_encode s cs
  | .array [], _, cs, _ => by
    have htext : (pretty level (.array [])).toList ++ cs = '[' :: ']' :: cs := by simp [pretty]
    rw [htext, tokenize_sign rfl, tokenize_sign rfl]
    rfl
  | .array (item :: rest), hfit, cs, hcs => by
    obtain ⟨hitem, hrest⟩ := fit_append.mp hfit.tail
    -- Lines and blanks are skipped, and after an item comes a comma or a new line, which ends a number.
    have htext : (pretty level (.array (item :: rest))).toList ++ cs =
        '[' :: ((newline (level + 1)).toList ++ ((item.pretty (level + 1)).toList ++
          ((moreItems (level + 1) rest).toList ++ ((newline level).toList ++ ']' :: cs)))) := by
      simp [pretty]
    rw [htext, tokenize_sign rfl, tokenize_newline, tokenize_pretty (level + 1) item hitem _ (ends_moreItems _ _ _ _),
      tokenize_moreItems (level + 1) level rest hrest cs]
    simp [tokens, itemTokens]
  | .object [], _, cs, _ => by
    have htext : (pretty level (.object [])).toList ++ cs = '{' :: '}' :: cs := by simp [pretty]
    rw [htext, tokenize_sign rfl, tokenize_sign rfl]
    rfl
  | .object ((key, value) :: rest), hfit, cs, hcs => by
    obtain ⟨hvalue, hrest⟩ := fit_append.mp hfit.tail
    have htext : (pretty level (.object ((key, value) :: rest))).toList ++ cs =
        '{' :: ((newline (level + 1)).toList ++ ((Quoted.encode key).toList ++ ':' :: ' ' ::
          ((value.pretty (level + 1)).toList ++
            ((moreFields (level + 1) rest).toList ++ ((newline level).toList ++ '}' :: cs))))) := by
      simp [pretty]
    rw [htext, tokenize_sign rfl, tokenize_newline, tokenize_encode, tokenize_sign rfl, tokenize_space rfl,
      tokenize_pretty (level + 1) value hvalue _ (ends_moreFields _ _ _ _),
      tokenize_moreFields (level + 1) level rest hrest cs]
    simp [tokens, fieldTokens]

theorem tokenize_moreItems (level outer : Nat) : (items : List Json) → Fit (itemValues items) → (cs : List Char) →
    tokenize ((moreItems level items).toList ++ ((newline outer).toList ++ ']' :: cs)) =
      moreItemTokens items ++ tokenize cs
  | [], _, cs => by
    rw [moreItems, String.toList_empty, List.nil_append, tokenize_newline, tokenize_sign rfl]
    rfl
  | item :: rest, hfit, cs => by
    obtain ⟨hitem, hrest⟩ := fit_append.mp hfit
    simp only [toList_moreItems, List.cons_append, List.append_assoc]
    rw [tokenize_sign rfl, tokenize_newline, tokenize_pretty level item hitem _ (ends_moreItems _ _ _ _),
      tokenize_moreItems level outer rest hrest cs]
    simp [moreItemTokens]

theorem tokenize_moreFields (level outer : Nat) : (fields : List (String × Json)) → Fit (fieldValues fields) →
    (cs : List Char) →
    tokenize ((moreFields level fields).toList ++ ((newline outer).toList ++ '}' :: cs)) =
      moreFieldTokens fields ++ tokenize cs
  | [], _, cs => by
    rw [moreFields, String.toList_empty, List.nil_append, tokenize_newline, tokenize_sign rfl]
    rfl
  | (key, value) :: rest, hfit, cs => by
    obtain ⟨hvalue, hrest⟩ := fit_append.mp hfit
    simp only [toList_moreFields, List.cons_append, List.append_assoc]
    rw [tokenize_sign rfl, tokenize_newline, tokenize_encode, tokenize_sign rfl, tokenize_space rfl,
      tokenize_pretty level value hvalue _ (ends_moreFields _ _ _ _), tokenize_moreFields level outer rest hrest cs]
    simp [moreFieldTokens]

end

/-- The text of a value is split into the tokens of the value, if its numbers fit a word. -/
theorem tokenize_text {j : Json} (h : Fit j.values) : tokenize j.text.toList = j.tokens := by
  have htokens := tokenize_pretty 0 j h [] nofun
  rw [List.append_nil, tokenize, List.append_nil] at htokens
  exact htokens

end Json

end Nominal
