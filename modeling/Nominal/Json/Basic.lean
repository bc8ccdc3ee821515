import Nominal.Json.Token

/-! JSON values, and their text with every item on a line of its own. The fields of an object keep their order. -/

namespace Nominal

/-- A JSON value. Numbers are natural numbers. -/
inductive Json where
  | null
  | bool (value : Bool)
  | number (value : Nat)
  | string (value : String)
  | array (items : List Json)
  | object (fields : List (String × Json))
  deriving Repr, Inhabited

namespace Json

/-- A list of texts. -/
def strings (xs : List String) : Json := .array (xs.map .string)

mutual

/-- The tokens of a value. -/
def tokens : Json → List Token
  | .null => [.null]
  | .bool b => [.bool b]
  | .number n => [.number (.natural n)]
  | .string s => [.string s]
  | .array items => .bracketOpen :: itemTokens items
  | .object fields => .braceOpen :: fieldTokens fields

/-- The tokens of items up to the closing bracket. -/
def itemTokens : List Json → List Token
  | [] => [.bracketClose]
  | item :: rest => item.tokens ++ moreItemTokens rest

/-- The tokens of further items up to the closing bracket. -/
def moreItemTokens : List Json → List Token
  | [] => [.bracketClose]
  | item :: rest => .comma :: item.tokens ++ moreItemTokens rest

/-- The tokens of fields up to the closing brace. -/
def fieldTokens : List (String × Json) → List Token
  | [] => [.braceClose]
  | (key, value) :: rest => .string key :: .colon :: value.tokens ++ moreFieldTokens rest

/-- The tokens of further fields up to the closing brace. -/
def moreFieldTokens : List (String × Json) → List Token
  | [] => [.braceClose]
  | (key, value) :: rest => .comma :: .string key :: .colon :: value.tokens ++ moreFieldTokens rest

end

/-- A new line with so many levels of two blanks. -/
def newline (level : Nat) : String := "\n" ++ String.ofList (List.replicate (2 * level) ' ')

mutual

/-- The text of a value, in which lines are indented from `level` on. -/
def pretty (level : Nat) : Json → String
  | .null => "null"
  | .bool b => if b then "true" else "false"
  | .number n => toString n
  | .string s => Quoted.encode s
  | .array [] => "[]"
  | .array (item :: rest) =>
    "[" ++ newline (level + 1) ++ item.pretty (level + 1) ++ moreItems (level + 1) rest ++ newline level ++ "]"
  | .object [] => "\x7b\x7d"
  | .object ((key, value) :: rest) =>
    "\x7b" ++ newline (level + 1) ++ Quoted.encode key ++ ": " ++ value.pretty (level + 1) ++
      moreFields (level + 1) rest ++ newline level ++ "\x7d"

/-- The texts of further items, each on a new line. -/
def moreItems (level : Nat) : List Json → String
  | [] => ""
  | item :: rest => "," ++ newline level ++ item.pretty level ++ moreItems level rest

/-- The texts of further fields, each on a new line. -/
def moreFields (level : Nat) : List (String × Json) → String
  | [] => ""
  | (key, value) :: rest =>
    "," ++ newline level ++ Quoted.encode key ++ ": " ++ value.pretty level ++ moreFields level rest

end

/-- The text of a value. -/
def text (j : Json) : String := j.pretty 0

end Json

end Nominal
