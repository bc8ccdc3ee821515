import Nominal.Text.Extending
import Nominal.Text.Invisible

/-! Texts as error messages show them: between quotes, with an escape for every character that could not be seen. -/

namespace Nominal

/-- The hexadecimal digits of a code point between braces. -/
def codePointText (c : Char) : String :=
  "\\u\x7b" ++ String.ofList (Nat.toDigits 16 c.toNat) ++ "\x7d"

/-- A character as error messages show it. -/
def shownChar (c : Char) : String :=
  if c.toNat = 0 then "\\0"
  else if c = '\t' then "\\t"
  else if c = '\r' then "\\r"
  else if c = '\n' then "\\n"
  else if c = '"' then "\\\""
  else if c = '\\' then "\\\\"
  else if c = ' ' then " "
  else if isExtending c || isInvisible c then codePointText c
  else String.singleton c

/-- A text as error messages show it. -/
def shown (s : String) : String := "\"" ++ String.join (s.toList.map shownChar) ++ "\""

end Nominal
