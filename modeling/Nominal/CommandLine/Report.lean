import Nominal.CommandLine.Arguments
import Nominal.Json.Basic
import Nominal.Universe.Reader

/-! What the commands write, as text or as JSON. -/

namespace Nominal

namespace CommandLine

/-- How a word stands out in coloured text. -/
inductive Style where
  | good
  | bad
  | strong
  deriving DecidableEq, Repr

/-- The terminal code of a style. -/
def Style.code : Style → String
  | good => "1;32"
  | bad => "1;31"
  | strong => "1"

/-- A text in a style, if colours are wanted. -/
def styled (color : Bool) (s : Style) (text : String) : String :=
  if color then "\x1b[" ++ s.code ++ "m" ++ text ++ "\x1b[0m" else text

/-- Lines, each of them ended. -/
def lines (ls : List String) : String := String.join (ls.map (· ++ "\n"))

/-- The answer to a query about two types. -/
structure UnifyReport where
  a : String
  b : String
  matched : Bool
  instantiation? : Option (List String)

namespace UnifyReport

/-- The answer as JSON. -/
def json (r : UnifyReport) : Json :=
  .object [("a", .string r.a), ("b", .string r.b), ("matched", .bool r.matched),
    ("instantiation", (r.instantiation?.map Json.strings).getD .null)]

/-- The answer as text. -/
def text (color : Bool) (r : UnifyReport) : String :=
  let verdict := if r.matched then styled color .good "match" else styled color .bad "no match"
  lines <| (verdict ++ ": " ++ r.a ++ " <- " ++ r.b) ::
    (r.instantiation?.map fun args => "instantiation: <" ++ ", ".intercalate args ++ ">").toList

end UnifyReport

/-- The supertypes of a type. -/
structure SupertypesReport where
  type : String
  supertypes : List String

namespace SupertypesReport

/-- The supertypes as JSON. -/
def json (r : SupertypesReport) : Json := .object [("type", .string r.type), ("supertypes", .strings r.supertypes)]

/-- The supertypes as text, one on each line. -/
def text (r : SupertypesReport) : String := lines r.supertypes

end SupertypesReport

/-- The description of a type. -/
structure TypeReport where
  type : String
  symbol : Nat
  kind : Kind
  fullName : String
  definition : String
  params : List String
  isOpen : Bool
  base? : Option String
  interfaces : List String
  allInterfaces : List String
  supertypes : List String

namespace TypeReport

/-- The description as JSON. -/
def json (r : TypeReport) : Json :=
  .object [("type", .string r.type), ("symbol", .number r.symbol), ("kind", .string r.kind.name),
    ("definition", .string r.definition), ("params", .strings r.params), ("open", .bool r.isOpen),
    ("base", (r.base?.map Json.string).getD .null), ("interfaces", .strings r.interfaces),
    ("all_interfaces", .strings r.allInterfaces), ("supertypes", .strings r.supertypes)]

/-- A list on one line. -/
def inline (items : List String) : String := if items = [] then "(none)" else ", ".intercalate items

/-- The description as text. -/
def text (color : Bool) (r : TypeReport) : String :=
  lines <|
    [styled color .strong (r.kind.name ++ " " ++ r.fullName), "  definition: " ++ r.definition] ++
    (if r.type = r.definition then [] else ["  reference: " ++ r.type]) ++
    ["  base: " ++ r.base?.getD "(none)", "  interfaces: " ++ inline r.interfaces,
     "  all interfaces: " ++ inline r.allInterfaces, "  supertypes: " ++ inline r.supertypes]

end TypeReport

end CommandLine

end Nominal
