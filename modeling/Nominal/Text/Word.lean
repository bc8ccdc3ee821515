import Nominal.Text.Alphabetic
import Nominal.Text.Numeric

/-! Words are what names are made of: a letter or an underscore, followed by letters, number signs and underscores. -/

namespace Nominal

/-- Whether a word can start with a character. -/
def isWordStart (c : Char) : Bool := isAlphabetic c || c == '_'

/-- Whether a word can go on with a character. -/
def isWordPart (c : Char) : Bool := isAlphabetic c || isNumeric c || c == '_'

/-- Whether characters form a word. -/
def isWordChars : List Char → Bool
  | [] => false
  | c :: rest => isWordStart c && rest.all isWordPart

/-- Whether a text is a word. -/
def isWord (s : String) : Bool := isWordChars s.toList

/-- The parts of a text between its dots. -/
def dotParts : List Char → List (List Char)
  | [] => [[]]
  | c :: rest =>
    if c = '.' then [] :: dotParts rest
    else
      match dotParts rest with
      | [] => [[c]]
      | part :: parts => (c :: part) :: parts

/-- Whether a text consists of words with dots between them. -/
def isDottedWords (s : String) : Bool := (dotParts s.toList).all isWordChars

end Nominal
