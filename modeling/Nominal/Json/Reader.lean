import Nominal.Json.Token
import Nominal.Reader
import Nominal.Text.Shown

/-! Reading data from JSON tokens. Tokens are read from left to right, and the first fault counts, be it in the text or
    in the data. Where data of one kind is expected and a value of another kind stands, the value is read only as far as
    it takes to name its kind. -/

namespace Nominal

namespace Json

/-- What a value turned out to be. -/
inductive Found where
  | null
  | bool (value : Bool)
  | number (value : Number)
  | string (value : String)
  | sequence
  | map
  deriving DecidableEq, Repr

/-- What a value turned out to be, in words. -/
def Found.text : Found → String
  | null => "null"
  | bool b => "boolean `" ++ toString b ++ "`"
  | number (.natural n) => "integer `" ++ toString n ++ "`"
  | number (.negative n) => "integer `-" ++ toString n ++ "`"
  | number (.decimal text) => "floating point `" ++ text ++ "`"
  | string s => "string " ++ shown s
  | sequence => "sequence"
  | map => "map"

/-- Why data cannot be read. -/
inductive ReadError where
  | defect (defect : Defect)
  | wrongType (found : Found) (expected : String)
  | wrongLength (found : Nat) (expected : String)
  | missingField (name : String)
  | unknownField (name : String) (known : List String)
  | repeatedField (name : String)
  | unknownVariant (name : String) (known : List String)
  deriving DecidableEq, Repr

namespace ReadError

/-- Names to choose from. -/
def choices (names : List String) : String :=
  let quoted := ", ".intercalate (names.map fun n => "`" ++ n ++ "`")
  if names.length = 1 then quoted else "one of " ++ quoted

/-- What is said about data that cannot be read. -/
def message : ReadError → String
  | defect .unfinished => "<eof>"
  | defect .malformed => "<syntax>"
  | wrongType found expected => "invalid type: " ++ found.text ++ ", expected " ++ expected
  | wrongLength n expected => "invalid length " ++ toString n ++ ", expected " ++ expected
  | missingField name => "missing field `" ++ name ++ "`"
  | unknownField name known => "unknown field `" ++ name ++ "`, expected " ++ choices known
  | repeatedField name => "duplicate field `" ++ name ++ "`"
  | unknownVariant name known => "unknown variant `" ++ name ++ "`, expected " ++ choices known

end ReadError

namespace Read

variable {α δ : Type}

/-- A reader of JSON tokens. -/
abbrev Reading (α : Type) : Type := Reader Token ReadError α

/-- The text ends too early. -/
def unfinished : Except ReadError α := .error (.defect .unfinished)

/-- The text is wrong. -/
def malformed : Except ReadError α := .error (.defect .malformed)

/-- Reports that the next value is not what is expected, or that there is no value. -/
def mismatch (expected : String) : List Token → Except ReadError α
  | [] => unfinished
  | .null :: _ => .error (.wrongType .null expected)
  | .bool b :: _ => .error (.wrongType (.bool b) expected)
  | .number n :: _ => .error (.wrongType (.number n) expected)
  | .string s :: _ => .error (.wrongType (.string s) expected)
  | .bracketOpen :: _ => .error (.wrongType .sequence expected)
  | .braceOpen :: _ => .error (.wrongType .map expected)
  | .brokenString d :: _ => .error (.defect d)
  | .brokenScalar d :: _ => .error (.defect d)
  | _ => malformed

/-- Reports that none of the tokens that may stand here comes next. -/
def stop : List Token → Except ReadError α
  | [] => unfinished
  | _ => malformed

/-- Reads a text. -/
def text : Reading String
  | .string s :: rest => .ok (s, ⟨rest, by simp⟩)
  | ts => mismatch "a string" ts

/-- Reads a text or null. -/
def text? : Reading (Option String)
  | .null :: rest => .ok (none, ⟨rest, by simp⟩)
  | ts => do
    let (s, rest) ← text ts
    return (some s, rest)

/-- Reads null. -/
def unit : Reading Unit
  | .null :: rest => .ok ((), ⟨rest, by simp⟩)
  | ts => mismatch "unit" ts

/-- Reads the colon after a key. -/
def colon : Reading Unit
  | .colon :: rest => .ok ((), ⟨rest, by simp⟩)
  | ts => stop ts

/-- Reads the value after a key. -/
def value (item : Reading α) : Reading α := fun ts => do
  let ((), ⟨ts', h⟩) ← colon ts
  let (a, ⟨rest, h'⟩) ← item ts'
  return (a, ⟨rest, by omega⟩)

/-! ### Sequences -/

/-- Reads further items up to the closing bracket. -/
def moreItems (item : Reading α) (ts : List Token) : Except ReadError (List α × Shorter ts) :=
  match ts with
  | .bracketClose :: rest => .ok ([], ⟨rest, by simp⟩)
  | .comma :: ts => do
    let (a, ⟨ts', h⟩) ← item ts
    let (as, ⟨rest, h'⟩) ← moreItems item ts'
    return (a :: as, ⟨rest, by simp; omega⟩)
  | ts => stop ts
  termination_by ts.length

/-- Reads items up to the closing bracket. -/
def items (item : Reading α) : Reading (List α)
  | .bracketClose :: rest => .ok ([], ⟨rest, by simp⟩)
  | [] => unfinished
  | ts => do
    let (a, ⟨ts', h⟩) ← item ts
    let (as, ⟨rest, h'⟩) ← moreItems item ts'
    return (a :: as, ⟨rest, by omega⟩)

/-- Reads a sequence. -/
def sequence (item : Reading α) : Reading (List α)
  | .bracketOpen :: ts => do
    let (as, ⟨rest, h⟩) ← items item ts
    return (as, ⟨rest, by simp; omega⟩)
  | ts => mismatch "a sequence" ts

/-- Reads the first item of a record that is written as a sequence, if there is one. -/
def firstItem? (item : Reading α) (ts : List Token) : Except ReadError (Option α × NotLonger ts) :=
  match ts with
  | .bracketClose :: rest => .ok (none, ⟨.bracketClose :: rest, Nat.le_refl _⟩)
  | [] => unfinished
  | ts => do
    let (a, ⟨rest, h⟩) ← item ts
    return (some a, ⟨rest, Nat.le_of_lt h⟩)

/-- Reads a further item of a record that is written as a sequence, if there is one. -/
def nextItem? (item : Reading α) (ts : List Token) : Except ReadError (Option α × NotLonger ts) :=
  match ts with
  | .bracketClose :: rest => .ok (none, ⟨.bracketClose :: rest, Nat.le_refl _⟩)
  | .comma :: ts => do
    let (a, ⟨rest, h⟩) ← item ts
    return (some a, ⟨rest, by simp; omega⟩)
  | ts => stop ts

/-- Reads the closing bracket of a record that is written as a sequence. Nothing may follow its last item. -/
def close : Reading Unit
  | .bracketClose :: rest => .ok ((), ⟨rest, by simp⟩)
  | ts => stop ts

/-! ### Records -/

/-- Reads a key and what belongs to it. -/
def field (member : δ → String → Reading δ) (draft : δ) : Reading δ
  | .string key :: ts => do
    let (draft, ⟨rest, h⟩) ← member draft key ts
    return (draft, ⟨rest, by simp; omega⟩)
  | .brokenString d :: _ => .error (.defect d)
  | ts => stop ts

/-- Reads further fields up to the closing brace. -/
def moreFields (member : δ → String → Reading δ) (draft : δ) (ts : List Token) : Except ReadError (δ × Shorter ts) :=
  match ts with
  | .braceClose :: rest => .ok (draft, ⟨rest, by simp⟩)
  | .comma :: ts => do
    let (draft, ⟨ts', h⟩) ← field member draft ts
    let (draft, ⟨rest, h'⟩) ← moreFields member draft ts'
    return (draft, ⟨rest, by simp; omega⟩)
  | ts => stop ts
  termination_by ts.length

/-- Reads fields up to the closing brace, each into the draft so far. -/
def fields (member : δ → String → Reading δ) (draft : δ) : Reading δ
  | .braceClose :: rest => .ok (draft, ⟨rest, by simp⟩)
  | ts => do
    let (draft, ⟨ts', h⟩) ← field member draft ts
    let (draft, ⟨rest, h'⟩) ← moreFields member draft ts'
    return (draft, ⟨rest, by omega⟩)

end Read

end Json

end Nominal
