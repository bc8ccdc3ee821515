import Nominal.Json.Number
import Nominal.Text.Bytes
import Nominal.Text.Digits

/-! Strings in JSON text. Quotes, backslashes and control characters are escaped by a backslash, and any character may
    be given by its UTF-16 units in hexadecimal digits. -/

namespace Nominal

namespace Json

namespace Quoted

/-! ### Writing -/

/-- A hexadecimal digit. -/
def hexDigit (n : Nat) : Char :=
  if n < 10 then Char.ofNat ('0'.toNat + n) else Char.ofNat ('a'.toNat + (n - 10))

/-- A character as it stands between quotes. -/
def escape (c : Char) : List Char :=
  if c = '"' then ['\\', '"']
  else if c = '\\' then ['\\', '\\']
  else if c = '\n' then ['\\', 'n']
  else if c = '\r' then ['\\', 'r']
  else if c = '\t' then ['\\', 't']
  else if c.toNat = 8 then ['\\', 'b']
  else if c.toNat = 12 then ['\\', 'f']
  else if c.toNat < 32 then ['\\', 'u', '0', '0', hexDigit (c.toNat / 16), hexDigit (c.toNat % 16)]
  else [c]

/-- A text between quotes. -/
def encode (s : String) : String := "\"" ++ String.ofList (s.toList.flatMap escape) ++ "\""

/-! ### Reading -/

/-- The value of four hexadecimal digits. -/
def hexValue4? (a b c d : Char) : Option Nat := do
  return ((← hexValue? a) * 16 + (← hexValue? b)) * 256 + ((← hexValue? c) * 16 + (← hexValue? d))

/-- What is left of characters after some of them, at least one, were used up. -/
abbrev Rest (cs : List Char) : Type := { rest : List Char // rest.length < cs.length }

/-- Reads four hexadecimal digits. With fewer than four bytes left the text is unfinished. -/
def unit : (cs : List Char) → Except Defect (Nat × Rest cs)
  | a :: b :: c :: d :: rest =>
    match hexValue4? a b c d with
    | some n => .ok (n, ⟨rest, by simp; omega⟩)
    | none => .error .malformed
  | cs => if byteCount cs < 4 then .error .unfinished else .error .malformed

/-- Reads the second unit of a character that takes two; the first one was `high`. -/
def lowUnit (high : Nat) : (cs : List Char) → Except Defect (Char × Rest cs)
  | '\\' :: 'u' :: cs => do
    let (low, ⟨rest, h⟩) ← unit cs
    if 0xDC00 ≤ low ∧ low ≤ 0xDFFF then
      .ok (Char.ofNat (0x10000 + (high - 0xD800) * 0x400 + (low - 0xDC00)), ⟨rest, by simp; omega⟩)
    else .error .malformed
  | [] => .error .unfinished
  | ['\\'] => .error .unfinished
  | _ => .error .malformed

/-- Reads what follows a backslash. -/
def unescape : (cs : List Char) → Except Defect (Char × Rest cs)
  | [] => .error .unfinished
  | 'u' :: cs => do
    let (n, ⟨rest, h⟩) ← unit cs
    if 0xDC00 ≤ n ∧ n ≤ 0xDFFF then .error .malformed
    else if 0xD800 ≤ n ∧ n ≤ 0xDBFF then
      let (c, ⟨rest', h'⟩) ← lowUnit n rest
      .ok (c, ⟨rest', by simp; omega⟩)
    else .ok (Char.ofNat n, ⟨rest, by simp; omega⟩)
  | c :: rest =>
    let plain (c : Char) : Except Defect (Char × Rest (_ :: rest)) := .ok (c, ⟨rest, by simp⟩)
    match c with
    | '"' => plain '"'
    | '\\' => plain '\\'
    | '/' => plain '/'
    | 'b' => plain (Char.ofNat 8)
    | 'f' => plain (Char.ofNat 12)
    | 'n' => plain '\n'
    | 'r' => plain '\r'
    | 't' => plain '\t'
    | _ => .error .malformed

/-- Reads a string after its opening quote. Control characters have to be escaped. -/
def decode (cs : List Char) : Except Defect (List Char × Rest cs) :=
  match cs with
  | [] => .error .unfinished
  | '"' :: rest => .ok ([], ⟨rest, by simp⟩)
  | '\\' :: cs =>
    match unescape cs with
    | .error d => .error d
    | .ok (c, ⟨rest, h⟩) =>
      match decode rest with
      | .error d => .error d
      | .ok (more, ⟨rest', h'⟩) => .ok (c :: more, ⟨rest', by simp; omega⟩)
  | c :: rest =>
    if c.toNat < 32 then .error .malformed
    else
      match decode rest with
      | .error d => .error d
      | .ok (more, ⟨rest', h'⟩) => .ok (c :: more, ⟨rest', by simp; omega⟩)
  termination_by cs.length

end Quoted

end Json

end Nominal
