import Nominal.Json.Basic
import Nominal.Json.Reader
import Nominal.Universe.Basic

/-! Universes as JSON. A universe is an object with the field `types`, and a declaration is an object with a name, a
    kind and up to four further fields. Either may also be written as the sequence of its fields in order. Written back,
    fields that say nothing are left out. -/

namespace Nominal

/-- The name of a kind in a universe. -/
def Kind.name : Kind → String
  | .cls => "class"
  | .interface => "interface"
  | .struct => "struct"
  | .primitive => "primitive"

/-- The names of all kinds. -/
def Kind.names : List String := ["class", "interface", "struct", "primitive"]

/-- The kind of a name. -/
def Kind.ofName? (s : String) : Option Kind :=
  if s = "class" then some .cls
  else if s = "interface" then some .interface
  else if s = "struct" then some .struct
  else if s = "primitive" then some .primitive
  else none

namespace Universe

open Json (ReadError)
open Json.Read

/-! ### Writing -/

/-- A declaration as JSON. -/
def Entry.toJson (e : Entry) : Json :=
  .object <|
    [("name", .string e.name)] ++
    (e.space?.map fun s => ("namespace", Json.string s)).toList ++
    [("kind", .string e.kind.name)] ++
    (if e.params = [] then [] else [("params", .strings e.params)]) ++
    (e.base?.map fun s => ("base", Json.string s)).toList ++
    (if e.interfaces = [] then [] else [("interfaces", .strings e.interfaces)])

/-- A universe as JSON. -/
def toJson (u : Universe) : Json := .object [("types", .array (u.types.map Entry.toJson))]

/-! ### Reading -/

/-- Finds the kind of a name. -/
def kindOf (name : String) : Except ReadError Kind :=
  match Kind.ofName? name with
  | some k => .ok k
  | none => .error (.unknownVariant name Kind.names)

/-- Reads the name of a kind. -/
def kindName : Reading Kind
  | .string s :: _ => do
    let k ← kindOf s
    return (k, .tail)
  | .brokenString d :: _ => .error (.defect d)
  | ts => stop ts

/-- Reads the closing brace of an object that may hold nothing more. -/
def closeBrace : Reading Unit
  | .braceClose :: _ => .ok ((), .tail)
  | ts => stop ts

/-- Reads a kind: its name, or an object whose only field is its name and holds nothing. -/
def kind : Reading Kind
  | .braceOpen :: ts => do
    let (k, ⟨ts', h⟩) ← kindName ts
    let ((), ⟨ts'', h'⟩) ← value unit ts'
    let ((), ⟨rest, h''⟩) ← closeBrace ts''
    return (k, ⟨rest, by simp; omega⟩)
  | ts => kindName ts

/-- The fields of a declaration that have been read. -/
structure Draft where
  name? : Option String := none
  space? : Option (Option String) := none
  kind? : Option Kind := none
  params? : Option (List String) := none
  base? : Option (Option String) := none
  interfaces? : Option (List String) := none

/-- The fields of a declaration in order. -/
def Draft.fieldNames : List String := ["name", "namespace", "kind", "params", "base", "interfaces"]

/-- The declaration that a draft describes. The name and the kind must be there. -/
def Draft.finish (d : Draft) : Except ReadError Entry :=
  match d.name?, d.kind? with
  | none, _ => .error (.missingField "name")
  | some _, none => .error (.missingField "kind")
  | some name, some kind =>
    .ok { name, space? := d.space?.join, kind, params := d.params?.getD [], base? := d.base?.join,
          interfaces := d.interfaces?.getD [] }

/-- Reads the value of a field that must not have been there before. -/
def once {α : Type} (key : String) (before : Option α) (item : Reading α) (keep : α → Draft) :
    Reading Draft := fun ts =>
  if before.isSome then .error (.repeatedField key)
  else do
    let (a, rest) ← value item ts
    return (keep a, rest)

/-- Reads the value of a field of a declaration. -/
def Draft.member (d : Draft) (key : String) : Reading Draft :=
  if key = "name" then once key d.name? text fun a => { d with name? := some a }
  else if key = "namespace" then once key d.space? text? fun a => { d with space? := some a }
  else if key = "kind" then once key d.kind? kind fun a => { d with kind? := some a }
  else if key = "params" then once key d.params? (sequence text) fun a => { d with params? := some a }
  else if key = "base" then once key d.base? text? fun a => { d with base? := some a }
  else if key = "interfaces" then once key d.interfaces? (sequence text) fun a => { d with interfaces? := some a }
  else fun _ => .error (.unknownField key Draft.fieldNames)

/-- Reports that the sequence of a declaration's fields ends before a field that must be there. -/
def tooShort {α : Type} (found : Nat) : Except ReadError α :=
  .error (.wrongLength found "struct TypeDecl with 6 elements")

/-- Reads the fields of a declaration in order up to the closing bracket. Fields may be missing from the end, though not
    the name and the kind. -/
def entryItems : Reading Entry := fun ts => do
  let (name?, ⟨ts, h₁⟩) ← firstItem? text ts
  let some name := name? | tooShort 0
  let (space?, ⟨ts, h₂⟩) ← nextItem? text? ts
  let (kind?, ⟨ts, h₃⟩) ← nextItem? kind ts
  let some kind := kind? | tooShort 2
  let (params?, ⟨ts, h₄⟩) ← nextItem? (sequence text) ts
  let (base?, ⟨ts, h₅⟩) ← nextItem? text? ts
  let (interfaces?, ⟨ts, h₆⟩) ← nextItem? (sequence text) ts
  let ((), ⟨rest, h₇⟩) ← close ts
  return ({ name, space? := space?.join, kind, params := params?.getD [], base? := base?.join,
            interfaces := interfaces?.getD [] }, ⟨rest, by omega⟩)

/-- Reads a declaration. -/
def entry : Reading Entry
  | .braceOpen :: ts => do
    let (draft, rest) ← fields Draft.member {} ts
    let e ← draft.finish
    return (e, rest.behind)
  | .bracketOpen :: ts => do
    let (e, rest) ← entryItems ts
    return (e, rest.behind)
  | ts => mismatch "struct TypeDecl" ts

/-- Reads the value of a field of a universe. -/
def member (types? : Option (List Entry)) (key : String) : Reading (Option (List Entry)) := fun ts =>
  if key ≠ "types" then .error (.unknownField key ["types"])
  else if types?.isSome then .error (.repeatedField key)
  else do
    let (types, rest) ← value (sequence entry) ts
    return (some types, rest)

/-- Reads a universe. -/
def document : Reading Universe
  | .braceOpen :: ts => do
    let (types?, ⟨rest, h⟩) ← fields member none ts
    let some types := types? | .error (.missingField "types")
    return (⟨types⟩, ⟨rest, by simp; omega⟩)
  | .bracketOpen :: ts => do
    let (types?, ⟨ts, h⟩) ← firstItem? (sequence entry) ts
    let some types := types? | .error (.wrongLength 0 "struct UniverseFile with 1 element")
    let ((), ⟨rest, h'⟩) ← close ts
    return (⟨types⟩, ⟨rest, by simp; omega⟩)
  | ts => mismatch "struct UniverseFile" ts

/-- Reads a universe that makes up all tokens. -/
def ofTokens (ts : List Json.Token) : Except ReadError Universe := do
  let (u, ⟨rest, _⟩) ← document ts
  match rest with
  | [] => return u
  | _ => malformed

/-- Reads a universe from JSON text. -/
def ofText (s : String) : Except ReadError Universe := ofTokens (Json.Token.tokenize s.toList)

end Universe

end Nominal
