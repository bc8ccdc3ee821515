import Nominal.Text.Ranges

/-! Sets of characters as patterns describe them. -/

namespace Nominal

/-- A set of characters, given by code points. -/
inductive CharSet where
  | ranges (r : Ranges)
  | union (s t : CharSet)
  | inter (s t : CharSet)
  | diff (s t : CharSet)
  | symmDiff (s t : CharSet)
  | compl (s : CharSet)
  | caseless (s : CharSet)
  deriving DecidableEq, Repr

namespace CharSet

/-- The code point of the same ASCII letter in the other case; other code points stay. -/
def otherCase (n : Nat) : Nat :=
  if 65 ≤ n ∧ n ≤ 90 then n + 32 else if 97 ≤ n ∧ n ≤ 122 then n - 32 else n

/-- Whether a code point belongs to the set. -/
def holds : CharSet → Nat → Bool
  | ranges r, n => r.holds n
  | union s t, n => s.holds n || t.holds n
  | inter s t, n => s.holds n && t.holds n
  | diff s t, n => s.holds n && !t.holds n
  | symmDiff s t, n => s.holds n != t.holds n
  | compl s, n => !s.holds n
  | caseless s, n => s.holds n || s.holds (otherCase n)

/-- The set without members. -/
def none : CharSet := ranges []

/-- The set of one character. -/
def single (c : Char) : CharSet := ranges [(c.toNat, c.toNat)]

/-- The characters from one to another. -/
def span (low high : Char) : CharSet := ranges [(low.toNat, high.toNat)]

/-- Whether no byte above the ASCII characters belongs to the set. -/
def isAscii (s : CharSet) : Bool := (List.range 128).all fun k => !s.holds (128 + k)

/-- Decimal digits. -/
def digits : CharSet := ranges [(48, 57)]

/-- White space within ASCII. -/
def spaces : CharSet := ranges [(9, 13), (32, 32)]

/-- What words are made of within ASCII. -/
def wordParts : CharSet := ranges [(48, 57), (65, 90), (95, 95), (97, 122)]

/-- The set of ASCII characters with a name. -/
def named? (name : String) : Option CharSet :=
  match name with
  | "alnum" => some (ranges [(48, 57), (65, 90), (97, 122)])
  | "alpha" => some (ranges [(65, 90), (97, 122)])
  | "ascii" => some (ranges [(0, 127)])
  | "blank" => some (ranges [(9, 9), (32, 32)])
  | "cntrl" => some (ranges [(0, 31), (127, 127)])
  | "digit" => some digits
  | "graph" => some (ranges [(33, 126)])
  | "lower" => some (ranges [(97, 122)])
  | "print" => some (ranges [(32, 126)])
  | "punct" => some (ranges [(33, 47), (58, 64), (91, 96), (123, 126)])
  | "space" => some spaces
  | "upper" => some (ranges [(65, 90)])
  | "word" => some wordParts
  | "xdigit" => some (ranges [(48, 57), (65, 70), (97, 102)])
  | _ => Option.none

end CharSet

end Nominal
