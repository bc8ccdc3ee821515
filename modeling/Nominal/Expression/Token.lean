import Nominal.Text.Blank
import Nominal.Text.Bytes
import Nominal.Text.Word

/-! The words and signs of a type expression. Each is found at a column, which counts the bytes of the text from one. -/

namespace Nominal

namespace Expression

/-- A word or a sign. -/
inductive Token where
  | word (text : String)
  | dot
  | less
  | greater
  | comma
  deriving DecidableEq, Repr

namespace Token

/-- A token as error messages show it. -/
def text : Token → String
  | word s => "`" ++ s ++ "`"
  | dot => "'.'"
  | less => "'<'"
  | greater => "'>'"
  | comma => "','"

/-- The sign that a character is. -/
def ofSign? (c : Char) : Option Token :=
  if c = '.' then some dot
  else if c = '<' then some less
  else if c = '>' then some greater
  else if c = ',' then some comma
  else none

end Token

/-- A token and the column of its first byte. -/
structure Placed where
  token : Token
  column : Nat
  deriving DecidableEq, Repr

end Expression

open Expression (Token)

/-- What is wrong with a type expression. -/
inductive ExpressionError where
  | strangeCharacter (char : Char) (column : Nat)
  | nameExpected (found : Option Token) (column : Nat)
  | tokenExpected (expected : Token) (found : Option Token) (column : Nat)
  | unknownType (name : String) (column : Nat)
  | argumentsMissing (name : String) (arity : Nat)
  | openFormSize (name : String) (arity column slots : Nat)
  | nestedTooDeep (column limit : Nat)
  | argumentCount (name : String) (arity found column : Nat)
  | trailing (token : Token) (column : Nat)
  | parameterAlone (text : String)
  deriving DecidableEq, Repr

namespace ExpressionError

/-- The open form of a generic name: as many slots as parameters. -/
def openForm (name : String) (arity : Nat) : String :=
  name ++ "<" ++ String.ofList (List.replicate (arity - 1) ',') ++ ">"

/-- What is said about a faulty type expression. -/
def message : ExpressionError → String
  | strangeCharacter c column =>
    "unexpected character '" ++ String.singleton c ++ "' at column " ++ toString column
  | nameExpected (some t) column => "expected a type name but found " ++ t.text ++ " at column " ++ toString column
  | nameExpected none column => "expected a type name at column " ++ toString column
  | tokenExpected e (some t) column =>
    "expected " ++ e.text ++ " but found " ++ t.text ++ " at column " ++ toString column
  | tokenExpected e none column =>
    "expected " ++ e.text ++ " at column " ++ toString column ++ " but the expression ended"
  | unknownType name column => "unknown type `" ++ name ++ "` at column " ++ toString column
  | argumentsMissing name arity =>
    "`" ++ name ++ "` takes " ++ toString arity ++ " type argument(s); write `" ++ name ++
      "<...>` or the open form `" ++ openForm name arity ++ "`"
  | openFormSize name arity column slots =>
    "`" ++ name ++ "` takes " ++ toString arity ++ " type argument(s) but the open form at column " ++
      toString column ++ " has " ++ toString slots
  | nestedTooDeep column limit =>
    "type arguments at column " ++ toString column ++ " nest deeper than " ++ toString limit ++ " levels"
  | argumentCount name arity found column =>
    "`" ++ name ++ "` takes " ++ toString arity ++ " type argument(s) but " ++ toString found ++
      " were given at column " ++ toString column
  | trailing t column => "unexpected " ++ t.text ++ " at column " ++ toString column
  | parameterAlone text => "`" ++ text ++ "` is a type parameter, not a type"

end ExpressionError

namespace Expression

/-- Splits characters into tokens, the first of them at `column`. White space divides tokens and is dropped. -/
def tokenize (column : Nat) : List Char → Except ExpressionError (List Placed)
  | [] => .ok []
  | c :: cs =>
    if isBlank c then tokenize (column + c.utf8Size) cs
    else
      match Token.ofSign? c with
      | some t => (tokenize (column + c.utf8Size) cs).map (⟨t, column⟩ :: ·)
      | none =>
        if isWordStart c then
          let more := cs.takeWhile isWordPart
          (tokenize (column + c.utf8Size + byteCount more) (cs.dropWhile isWordPart)).map
            (⟨.word (String.ofList (c :: more)), column⟩ :: ·)
        else .error (.strangeCharacter c column)
  termination_by cs => cs.length
  decreasing_by
    · simp
    · simp
    · exact Nat.lt_succ_of_le (List.dropWhile_suffix _).length_le

end Expression

end Nominal
