import Nominal.Json.Quoted

/-! The tokens of JSON text. A token that cannot be read, or a character that starts none, ends the list: a reader never
    gets past it. -/

namespace Nominal

namespace Json

/-- A token of JSON text, or what stands in its place. -/
inductive Token where
  | braceOpen
  | braceClose
  | bracketOpen
  | bracketClose
  | comma
  | colon
  | null
  | bool (value : Bool)
  | number (value : Number)
  | string (value : String)
  | brokenString (defect : Defect)
  | brokenScalar (defect : Defect)
  | stray
  deriving DecidableEq, Repr

namespace Token

/-- Whether a character divides tokens. -/
def isSpace (c : Char) : Bool := c = ' ' || c = '\n' || c = '\t' || c = '\r'

/-- Reads the rest of a fixed word. -/
def word : List Char → List Char → Except Defect (List Char)
  | [], cs => .ok cs
  | _ :: _, [] => .error .unfinished
  | w :: ws, c :: cs => if c = w then word ws cs else .error .malformed

/-- The token that one character is. -/
def ofSign? (c : Char) : Option Token :=
  if c = '{' then some braceOpen
  else if c = '}' then some braceClose
  else if c = '[' then some bracketOpen
  else if c = ']' then some bracketClose
  else if c = ',' then some comma
  else if c = ':' then some colon
  else none

/-- Reads a null, a truth value or a number that starts with `c`. -/
def scalar (c : Char) (cs : List Char) : Except Defect (Token × List Char) :=
  if c = 'n' then (word ['u', 'l', 'l'] cs).map (null, ·)
  else if c = 't' then (word ['r', 'u', 'e'] cs).map (bool true, ·)
  else if c = 'f' then (word ['a', 'l', 's', 'e'] cs).map (bool false, ·)
  else if c = '-' then (Number.scan true cs).map fun (n, rest) => (number n, rest)
  else (Number.scan false (c :: cs)).map fun (n, rest) => (number n, rest)

theorem word_rest_le {ws cs rest : List Char} (h : word ws cs = .ok rest) : rest.length ≤ cs.length := by
  induction ws generalizing cs with
  | nil => cases h; exact Nat.le_refl _
  | cons w ws ih =>
    cases cs with
    | nil => cases h
    | cons c cs =>
      rw [word] at h
      split at h
      · exact Nat.le_succ_of_le (ih h)
      · cases h

theorem map_ok {α β : Type} {r : Except Defect α} {f : α → β} {b : β} (h : r.map f = .ok b) :
    ∃ a, r = .ok a ∧ f a = b := by
  cases r with
  | error => cases h
  | ok a => exact ⟨a, rfl, Except.ok.inj h⟩

/-- A scalar uses up at least its first character. -/
theorem scalar_rest_le {c : Char} {cs rest : List Char} {t : Token} (h : scalar c cs = .ok (t, rest)) :
    rest.length ≤ cs.length := by
  unfold scalar at h
  iterate 3
    split at h
    · obtain ⟨r, hr, he⟩ := map_ok h
      cases he
      exact word_rest_le hr
  split at h
  · obtain ⟨r, hr, he⟩ := map_ok h
    cases he
    exact Nat.le_of_lt (Number.scan_rest_lt hr)
  · obtain ⟨r, hr, he⟩ := map_ok h
    cases he
    exact Nat.le_of_lt_succ (Number.scan_rest_lt hr)

/-- Whether a null, a truth value or a number starts with a character. -/
def startsScalar (c : Char) : Bool := c = 'n' || c = 't' || c = 'f' || c = '-' || c.isDigit

/-- Splits text into tokens. -/
def tokenize : List Char → List Token
  | [] => []
  | c :: cs =>
    if isSpace c then tokenize cs
    else if c = '"' then
      match Quoted.decode cs with
      | .error d => [brokenString d]
      | .ok (s, ⟨rest, _⟩) => string (String.ofList s) :: tokenize rest
    else
      match ofSign? c with
      | some t => t :: tokenize cs
      | none =>
        if startsScalar c then
          match _ : scalar c cs with
          | .error d => [brokenScalar d]
          | .ok (t, rest) => t :: tokenize rest
        else [stray]
  termination_by cs => cs.length
  decreasing_by
    · simp
    · simp; omega
    · simp
    · rename_i h
      exact Nat.lt_succ_of_le (scalar_rest_le h)

end Token

end Json

end Nominal
