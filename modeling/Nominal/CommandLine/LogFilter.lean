import Nominal.CommandLine.LogDirective

/-! Which events a log shows. A filter is a list of directives with commas between them. An event is shown if the
    directive that says most about it allows that, or else if it happens within a span and a directive for the span
    does. -/

namespace Nominal

namespace CommandLine

/-- How a log is laid out. -/
inductive LogFormat where
  | text
  | tree
  | json
  deriving DecidableEq, Repr

/-- The layout with a name, in small or capital letters; text, if there is no such layout. Only ASCII capitals have
    small forms that occur in these names. -/
def LogFormat.ofName (s : String) : LogFormat :=
  let name := lowered (trimmed s.toList)
  if name = "tree".toList then .tree
  else if name = "json".toList then .json
  else .text

/-- The directives of a filter in the order in which they were given, and what is wrong with those that cannot be
    used. -/
structure LogFilter where
  directives : List Directive
  faults : List (List Char × DirectiveFault)

namespace LogFilter

/-- The parts of a text between commas. -/
def commaParts : List Char → List (List Char)
  | [] => [[]]
  | c :: rest =>
    if c = ',' then [] :: commaParts rest
    else
      match commaParts rest with
      | [] => [[c]]
      | part :: parts => (c :: part) :: parts

/-- Sorts what was read into directives and faults. -/
def ofParts : List (List Char) → LogFilter
  | [] => ⟨[], []⟩
  | part :: parts =>
    let f := ofParts parts
    match Directive.ofChars part with
    | .ok d => { f with directives := d :: f.directives }
    | .error e => { f with faults := (part, e) :: f.faults }

/-- Reads a filter. Without any directive, errors are shown. -/
def ofText (s : String) : LogFilter :=
  let f := ofParts ((commaParts s.toList).filter (· ≠ []))
  if f.directives = [] then { f with directives := [{ target := [], verbosity := some .error }] } else f

/-- Whether the program gives up because of the filter. -/
def isBroken (f : LogFilter) : Bool := f.faults.any (·.2 = .split)

/-- What is said about the directives that are left out. -/
def remarks (f : LogFilter) : List String :=
  f.faults.map fun (part, _) => "ignoring `" ++ String.ofList part ++ "`: invalid filter directive"

/-- How much is shown of an event as such. The directive that counts most decides, and of equal ones the last. -/
def verbosity (f : LogFilter) (e : Event) : Verbosity :=
  let best? := (f.directives.filter (·.isFor e)).foldl
    (fun (best? : Option Directive) d =>
      match best? with
      | some best => if best.yieldsTo d then some d else some best
      | none => some d)
    none
  best?.bind (·.verbosity)

/-- Whether the filter takes notice of spans. They are of the lowest level, so that something has to be shown on this
    level, or some value to be looked at. -/
def noticesSpans (f : LogFilter) : Bool :=
  f.directives.any fun d => d.verbosity = some .trace || (d.field?.bind (·.value?)).isSome

/-- Directives without those for which there is another one further on. -/
def latest : List Directive → List Directive
  | [] => []
  | d :: ds => if ds.any d.isLike then latest ds else d :: latest ds

/-- How much is shown of the events within a span: as much as some directive allows. -/
def verbosityWithin (f : LogFilter) (span : Event) : Verbosity :=
  if f.noticesSpans then
    (((latest f.directives).filter (·.isForWithin span)).map (·.verbosity)).foldl Verbosity.join none
  else none

/-- The events that are shown, where `within` is how much is shown within the span that is open. A span shows only
    through the events within it. -/
def shownWithin (f : LogFilter) (within : Verbosity) : List Event → List Event
  | [] => []
  | e :: es =>
    if e.isSpan then f.shownWithin (f.verbosityWithin e) es
    else
      let rest := f.shownWithin (if e.endsSpan then none else within) es
      if (f.verbosity e).allows e.level || within.allows e.level then e :: rest else rest

/-- The events that are shown. -/
def shown (f : LogFilter) (es : List Event) : List Event := f.shownWithin none es

end LogFilter

end CommandLine

end Nominal
