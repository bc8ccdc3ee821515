import Nominal.Event
import Nominal.Pattern.Reader
import Nominal.Text.Blank
import Nominal.Text.Bytes
import Nominal.Text.Digits
import Nominal.Text.Word

/-! Directives of a log filter. A directive says how much is shown of certain events: of those whose target begins with
    a text, of those that come with a field, or of those within a span. It is written as a level alone, or as a target,
    a span in brackets and a level behind an equals sign, and some of the three may be missing.

    A directive is looked through without the white space at its ends, but its parts are taken from the whole text, at
    the places that were found. White space in front of a directive therefore moves its parts. -/

namespace Nominal

namespace CommandLine

/-- Characters without white space at their ends. -/
def trimmed (cs : List Char) : List Char :=
  ((cs.dropWhile isBlank).reverse.dropWhile isBlank).reverse

/-- Characters with their capital letters made small. -/
def lowered (cs : List Char) : List Char := cs.map Char.toLower

/-- How much is shown: nothing, or everything up to a level. -/
abbrev Verbosity := Option Nominal.Level

namespace Verbosity

/-- The verbosity that a word or a number stands for. -/
def ofChars? (s : List Char) : Option Verbosity :=
  let name := lowered s
  let number? := signedDecimal? s
  if name = "off".toList ∨ number? = some 0 then some none
  else if name = "error".toList ∨ number? = some 1 then some (some .error)
  else if name = "warn".toList ∨ number? = some 2 then some (some .warn)
  else if name = "info".toList ∨ number? = some 3 then some (some .info)
  else if name = "debug".toList ∨ number? = some 4 then some (some .debug)
  else if name = "trace".toList ∨ number? = some 5 then some (some .trace)
  else none

/-- Whether events of a level are shown. -/
def allows (v : Verbosity) (l : Nominal.Level) : Bool :=
  match v with
  | none => false
  | some limit => l.isWithin limit

/-- The greater of two verbosities. -/
def join (v w : Verbosity) : Verbosity :=
  match v with
  | none => w
  | some l => if w.allows l then w else v

end Verbosity

/-- What the value of a field must be: a text that meets a pattern, or something that is no text. -/
structure ValueTest where
  written : List Char
  pattern? : Option Pattern
  deriving DecidableEq, Repr

namespace ValueTest

/-- Whether characters stand for a number or a truth value. -/
def isScalar (cs : List Char) : Bool :=
  ["true".toList, "false".toList].contains cs || isDecimal (unsigned cs) ||
    ["inf".toList, "infinity".toList, "nan".toList].contains (lowered (unsigned cs))

/-- Reads a value. -/
def ofChars? (cs : List Char) : Option ValueTest :=
  if isScalar cs then some ⟨cs, none⟩ else (Pattern.ofChars? cs).map fun p => ⟨cs, some p⟩

/-- Whether a text passes. -/
def passes (t : ValueTest) (text : String) : Bool := t.pattern?.any (·.meets text.toList)

end ValueTest

/-- A field that has to be there, and the value that it must have, if that matters. -/
structure FieldTest where
  name : String
  value? : Option ValueTest
  deriving DecidableEq, Repr

namespace FieldTest

/-- Reads a name and, behind an equals sign, a value. A second equals sign ends the value. -/
def ofChars? (cs : List Char) : Option FieldTest :=
  let name := String.ofList (cs.takeWhile (· ≠ '='))
  match cs.dropWhile (· ≠ '=') with
  | [] => some ⟨name, none⟩
  | _ :: rest => (ValueTest.ofChars? (rest.takeWhile (· ≠ '='))).map fun t => ⟨name, some t⟩

/-- Whether a field passes. -/
def passes (t : FieldTest) (name text : String) : Bool := t.name = name && t.value?.all (·.passes text)

end FieldTest

/-- A directive: what targets begin with, the span and the field that are asked for, and how much is shown. -/
structure Directive where
  target : List Char
  span? : Option (List Char) := none
  field? : Option FieldTest := none
  verbosity : Verbosity
  deriving DecidableEq, Repr

/-- Why a directive cannot be used: it has the wrong form, or one of its parts would end inside a character. -/
inductive DirectiveFault where
  | malformed
  | split
  deriving DecidableEq, Repr

namespace Directive

/-! ### Reading -/

/-- The part of a text between two places. -/
def part (source : List Char) (start stop : Nat) : Except DirectiveFault (List Char) :=
  match splitBytes? start source with
  | none => .error .split
  | some (_, rest) =>
    match splitBytes? (stop - start) rest with
    | none => .error .split
    | some (found, _) => .ok found

/-- Reads the end of a directive, which stands at `place`: nothing or an equals sign and a level. Without a level
    everything is shown. -/
def readLevel (source : List Char) (place : Nat) : List Char → Except DirectiveFault Verbosity
  | [] => .ok (some .trace)
  | '=' :: _ => do
    let level ← part source (place + 1) (byteCount source)
    if level = [] then return some .trace
    match Verbosity.ofChars? level with
    | some v => return v
    | none => .error .malformed
  | _ => .error .malformed

/-- Reads the test of a field behind an opening brace, with the brace and the bracket that close it. -/
def readField (source : List Char) (place : Nat) (cs : List Char) :
    Except DirectiveFault (FieldTest × Nat × List Char) :=
  let stop := place + byteCount (cs.takeWhile (· ≠ '\x7d'))
  match cs.dropWhile (· ≠ '\x7d') with
  | [] => .error .malformed
  | _ :: rest => do
    let text ← part source place stop
    match text, FieldTest.ofChars? text, rest with
    | _ :: _, some field, ']' :: rest => return (field, stop + 2, rest)
    | _, _, _ => .error .malformed

/-- Reads a directive from the name of its span on. In braces behind the name, a field may be tested. -/
def readSpan (source target : List Char) (place : Nat) (cs : List Char) : Except DirectiveFault Directive :=
  let isName (c : Char) : Bool := c ≠ ']' && c ≠ '\x7b'
  let stop := place + byteCount (cs.takeWhile isName)
  match cs.dropWhile isName with
  | [] => .error .malformed
  | ']' :: rest => do
    let name ← part source place stop
    return { target, span? := some name, verbosity := ← readLevel source (stop + 1) rest }
  | _ :: rest => do
    let name ← part source place stop
    let (field, place, rest) ← readField source (stop + 1) rest
    return { target, span? := if name = [] then none else some name, field? := some field,
             verbosity := ← readLevel source place rest }

/-- Whether a target can start with a character. -/
def startsTarget (c : Char) : Bool := isWordPart c || c = ':' || c = '-'

/-- Reads a directive. A text that is no level is a target, and all of it is shown. -/
def ofChars (source : List Char) : Except DirectiveFault Directive :=
  let isTarget (c : Char) : Bool := c ≠ '=' && c ≠ '['
  let cs := trimmed source
  let stop := byteCount (cs.takeWhile isTarget)
  match cs.head? with
  | none => .error .malformed
  | some c =>
    if c ≠ '[' ∧ !startsTarget c then .error .malformed
    else
      match cs.dropWhile isTarget with
      | [] =>
        match Verbosity.ofChars? source with
        | some v => .ok { target := [], verbosity := v }
        | none => .ok { target := source, verbosity := some .trace }
      | '[' :: rest => do readSpan source (← part source 0 stop) (stop + 1) rest
      | rest => do return { target := ← part source 0 stop, verbosity := ← readLevel source stop rest }

/-! ### Meaning -/

/-- Whether the directive is for an event as such, wherever it happens. -/
def isFor (d : Directive) (e : Event) : Bool :=
  d.span?.isNone && d.target.isPrefixOf e.target.toList &&
    match d.field? with
    | none => true
    | some t => t.value?.isNone && e.fieldNames.contains t.name

/-- Whether the directive is for the events within a span. -/
def isForWithin (d : Directive) (span : Event) : Bool :=
  (d.span?.isSome || d.field?.isSome) && d.target.isPrefixOf span.target.toList &&
    (match d.span? with
      | none => true
      | some name => name = span.heading.toList) &&
    match d.field? with
    | none => true
    | some t => span.fields.any fun (name, text) => t.passes name text

/-- Whether two directives are for the same events. -/
def isLike (d e : Directive) : Bool := d.target = e.target ∧ d.span? = e.span? ∧ d.field? = e.field?

/-- Whether `e` counts more than `d` where both are for an event, or at least as much: its text is longer, or the texts
    are the same and it asks for a field with a name further down the alphabet. -/
def yieldsTo (d e : Directive) : Bool :=
  if d.target.length = e.target.length then
    match d.field?, e.field? with
    | none, _ => true
    | some _, none => false
    | some t, some u => !(u.name < t.name)
  else d.target.length < e.target.length

end Directive

end CommandLine

end Nominal
