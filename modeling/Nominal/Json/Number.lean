import Nominal.Decimal.Text

/-! Numbers in JSON text. Whole numbers that fit a 64-bit word are kept exactly. All others become floating-point
    numbers, which are kept by their text: as many leading digits as fit a 64-bit word, multiplied with or divided by a
    power of ten. -/

namespace Nominal

namespace Json

/-- Why JSON text cannot be read on: it ends too early, or it is wrong. -/
inductive Defect where
  | unfinished
  | malformed
  deriving DecidableEq, Repr

/-- A number: a natural number, a number below zero, or the text of a floating-point number. -/
inductive Number where
  | natural (n : Nat)
  | negative (n : Nat)
  | decimal (text : String)
  deriving DecidableEq, Repr

namespace Number

/-- The greatest number in a 64-bit word. -/
def wordMax : Nat := UInt64.size - 1

/-- A run of digits: the word they fill, how many of them it holds, how many were left out, and the rest of the text. -/
structure DigitRun where
  word : Nat
  held : Nat
  dropped : Nat
  rest : List Char

/-- Reads digits into a word as far as it holds them. -/
def digits (word : Nat) : List Char → DigitRun
  | [] => ⟨word, 0, 0, []⟩
  | c :: rest =>
    if !c.isDigit then ⟨word, 0, 0, c :: rest⟩
    else if 10 * word + (c.toNat - '0'.toNat) ≤ wordMax then
      let run := digits (10 * word + (c.toNat - '0'.toNat)) rest
      { run with held := run.held + 1 }
    else ⟨word, 0, (rest.takeWhile Char.isDigit).length + 1, rest.dropWhile Char.isDigit⟩

/-- `x` divided by ten to the power of `n`, in steps that a floating-point number can hold. -/
def shrink (x : Float) (n : Nat) : Float :=
  if n ≤ 308 then x / Float.ofScientific 1 false n
  else if x == 0 then x
  else shrink (x / Float.ofScientific 1 false 308) (n - 308)
  termination_by n

/-- A word times a power of ten, unless that is too large. -/
def scale (word : Nat) (exponent : Int) : Except Defect Float :=
  let x := (UInt64.ofNat word).toFloat
  if exponent < 0 then .ok (shrink x exponent.natAbs)
  else if exponent ≤ 308 then
    let x := x * Float.ofScientific 1 false exponent.toNat
    if x.isInf then .error .malformed else .ok x
  else if word = 0 then .ok x
  else .error .malformed

/-- The floating-point number that a sign, a word and a power of ten stand for. -/
def float (negative : Bool) (word : Nat) (exponent : Int) : Except Defect Number := do
  let x ← scale word exponent
  return .decimal (Decimal.text (if negative then -x else x))

/-- The greatest exponent that is told apart from larger ones. -/
def maxExponent : Nat := 2147483647

/-- Reads what follows the mark of an exponent. -/
def exponent (negative : Bool) (word : Nat) (shift : Int) (cs : List Char) : Except Defect (Number × List Char) :=
  let (down, cs) := match cs with
    | '+' :: rest => (false, rest)
    | '-' :: rest => (true, rest)
    | _ => (false, cs)
  match cs with
  | [] => .error .unfinished
  | c :: _ =>
    if !c.isDigit then .error .malformed
    else
      let value := (cs.takeWhile Char.isDigit).foldl (fun n c => 10 * n + (c.toNat - '0'.toNat)) 0
      let rest := cs.dropWhile Char.isDigit
      if value > maxExponent then
        if word = 0 ∨ down then (float negative 0 0).map (·, rest) else .error .malformed
      else (float negative word (if down then shift - value else shift + value)).map (·, rest)

/-- Reads what follows the digits of a number: an exponent or nothing. -/
def afterDigits (negative : Bool) (word : Nat) (shift : Int) : List Char → Except Defect (Number × List Char)
  | 'e' :: rest => exponent negative word shift rest
  | 'E' :: rest => exponent negative word shift rest
  | rest => (float negative word shift).map (·, rest)

/-- Reads what follows a decimal point. -/
def fraction (negative : Bool) (word dropped : Nat) (cs : List Char) : Except Defect (Number × List Char) :=
  match cs with
  | [] => .error .unfinished
  | c :: _ =>
    if !c.isDigit then .error .malformed
    else
      let run := digits word cs
      afterDigits negative run.word ((dropped : Int) - run.held) run.rest

/-- A whole number that fits a word, or else a floating-point number. -/
def whole (negative : Bool) (word : Nat) : Except Defect Number :=
  if !negative then .ok (.natural word)
  else if 0 < word ∧ word ≤ Nat.pow 2 63 then .ok (.negative word)
  else float true word 0

/-- Reads what follows the digits before a decimal point. -/
def afterWhole (negative : Bool) (word dropped : Nat) : List Char → Except Defect (Number × List Char)
  | '.' :: rest => fraction negative word dropped rest
  | 'e' :: rest => exponent negative word dropped rest
  | 'E' :: rest => exponent negative word dropped rest
  | rest =>
    if dropped = 0 then (whole negative word).map (·, rest)
    else (float negative word dropped).map (·, rest)

/-- Reads a number after its sign. Only the number zero itself starts with a zero. -/
def scan (negative : Bool) (cs : List Char) : Except Defect (Number × List Char) :=
  match cs with
  | [] => .error .unfinished
  | '0' :: rest =>
    match rest with
    | c :: _ => if c.isDigit then .error .malformed else afterWhole negative 0 0 rest
    | [] => afterWhole negative 0 0 rest
  | c :: _ =>
    if !c.isDigit then .error .malformed
    else
      let run := digits 0 cs
      afterWhole negative run.word run.dropped run.rest

/-! ### What is left

Reading a number never makes the text longer. -/

theorem length_dropWhile_le (p : Char → Bool) (cs : List Char) : (cs.dropWhile p).length ≤ cs.length :=
  (List.dropWhile_suffix p).length_le

theorem digits_rest_le (word : Nat) (cs : List Char) : (digits word cs).rest.length ≤ cs.length := by
  induction cs generalizing word with
  | nil => simp [digits]
  | cons c rest ih =>
    rw [digits]
    split
    · exact Nat.le_refl _
    · split
      · exact Nat.le_succ_of_le (ih _)
      · exact Nat.le_succ_of_le (length_dropWhile_le _ _)

theorem map_pair_eq {r : Except Defect Number} {rest rest' : List Char} {n : Number}
    (h : r.map (·, rest) = .ok (n, rest')) : rest' = rest := by
  cases r with
  | error => cases h
  | ok => cases h; rfl

theorem exponent_rest_le {negative : Bool} {word : Nat} {shift : Int} {cs rest : List Char} {n : Number}
    (h : exponent negative word shift cs = .ok (n, rest)) : rest.length ≤ cs.length := by
  have tail : ∀ {ds : List Char}, ds.length ≤ cs.length →
      rest = ds.dropWhile Char.isDigit → rest.length ≤ cs.length := fun hd he =>
    he ▸ Nat.le_trans (length_dropWhile_le _ _) hd
  unfold exponent at h
  split at h
  rename_i down ds hsign
  have hd : ds.length ≤ cs.length := by
    split at hsign <;> cases hsign <;> simp
  split at h
  · cases h
  · split at h
    · cases h
    · simp only at h
      split at h
      · split at h
        · exact tail hd (map_pair_eq h)
        · cases h
      · exact tail hd (map_pair_eq h)

theorem afterDigits_rest_le {negative : Bool} {word : Nat} {shift : Int} {cs rest : List Char} {n : Number}
    (h : afterDigits negative word shift cs = .ok (n, rest)) : rest.length ≤ cs.length := by
  unfold afterDigits at h
  split at h
  · exact Nat.le_succ_of_le (exponent_rest_le h)
  · exact Nat.le_succ_of_le (exponent_rest_le h)
  · exact Nat.le_of_eq (congrArg _ (map_pair_eq h))

theorem fraction_rest_le {negative : Bool} {word dropped : Nat} {cs rest : List Char} {n : Number}
    (h : fraction negative word dropped cs = .ok (n, rest)) : rest.length ≤ cs.length := by
  unfold fraction at h
  split at h
  · cases h
  · split at h
    · cases h
    · exact Nat.le_trans (afterDigits_rest_le h) (digits_rest_le _ _)

theorem afterWhole_rest_le {negative : Bool} {word dropped : Nat} {cs rest : List Char} {n : Number}
    (h : afterWhole negative word dropped cs = .ok (n, rest)) : rest.length ≤ cs.length := by
  unfold afterWhole at h
  split at h
  · exact Nat.le_succ_of_le (fraction_rest_le h)
  · exact Nat.le_succ_of_le (exponent_rest_le h)
  · exact Nat.le_succ_of_le (exponent_rest_le h)
  · split at h
    · exact Nat.le_of_eq (congrArg _ (map_pair_eq h))
    · exact Nat.le_of_eq (congrArg _ (map_pair_eq h))

theorem digits_rest_lt {c : Char} (hc : c.isDigit) (cs : List Char) :
    (digits 0 (c :: cs)).rest.length < (c :: cs).length := by
  rw [digits, if_neg (by simp [hc])]
  split
  · exact Nat.lt_succ_of_le (digits_rest_le _ _)
  · exact Nat.lt_succ_of_le (length_dropWhile_le _ _)

theorem scan_rest_lt {negative : Bool} {cs rest : List Char} {n : Number}
    (h : scan negative cs = .ok (n, rest)) : rest.length < cs.length := by
  unfold scan at h
  split at h
  · cases h
  · split at h
    · split at h
      · cases h
      · exact Nat.lt_succ_of_le (afterWhole_rest_le h)
    · exact Nat.lt_succ_of_le (afterWhole_rest_le h)
  · split at h
    · cases h
    · rename_i hc
      exact Nat.lt_of_le_of_lt (afterWhole_rest_le h) (digits_rest_lt (by simpa using hc) _)

end Number

end Json

end Nominal
