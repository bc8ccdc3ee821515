import Nominal.CommandLine.Report
import Nominal.Table.Naming
import Nominal.Unifier
import Nominal.Universe.Load

/-! Carrying out a command. The universe is loaded first; then the command reads its type expressions, asks its question
    and writes a report. -/

namespace Nominal

namespace CommandLine

/-- Why a file cannot be read: the system turns it down, or it does not hold text. -/
inductive FileError where
  | system (code : Nat) (text : String)
  | other (text : String)
  deriving DecidableEq, Repr

/-- What is said about a file that cannot be read. -/
def FileError.message : FileError → String
  | system code text => text ++ " (os error " ++ toString code ++ ")"
  | other text => text

/-- Why a command is not carried out. -/
inductive RunError where
  | unreadable (path : String) (error : FileError)
  | unloadable (path : String) (error : LoadError)
  | badCore (error : LoadError)
  | badExpression (text : String) (error : ExpressionError)
  | undecided (a b : String) (failure : Failure)
  | undeclared (text : String)
  | unflattened (text : String) (failure : Failure)
  | unclimbed (type : String) (failure : Failure)
  deriving DecidableEq, Repr

/-- What is said about a command that is not carried out. -/
def RunError.message : RunError → String
  | unreadable path e => "failed to read universe " ++ path ++ ": " ++ e.message
  | unloadable path e => "failed to load universe " ++ path ++ ": " ++ e.message
  | badCore e => "builtin core universe is malformed: " ++ e.message
  | badExpression text e => "invalid type expression `" ++ text ++ "`: " ++ e.message
  | undecided a b f => "could not decide `" ++ a ++ "` against `" ++ b ++ "`: " ++ f.message
  | undeclared text => "`" ++ text ++ "` has no declaration"
  | unflattened text f => "could not flatten the interfaces of " ++ text ++ ": " ++ f.message
  | unclimbed type f => "could not walk the supertypes of " ++ type ++ ": " ++ f.message

/-- The two ways to succeed: a question may be answered with no. -/
inductive Outcome where
  | success
  | noMatch
  deriving DecidableEq, Repr

/-- The exit status of an outcome. -/
def Outcome.exitCode : Outcome → Nat
  | success => 0
  | noMatch => 1

/-- The exit status of everything that goes wrong. -/
def errorCode : Nat := 2

/-- A step of carrying out a command, which collects what happens. -/
abbrev RunM : Type → Type := Attempt RunError (List Event)

namespace RunM

/-- Goes on with a logged result. -/
def logged {ε α : Type} (r : Logged (Except ε α)) (wrap : ε → RunError) : RunM α := do
  Attempt.change (· ++ r.events)
  Attempt.ofExcept (r.value.mapError wrap)

end RunM

/-- A loaded universe and what is to be done with it. -/
structure Job where
  table : Table
  args : Arguments
  color : Bool

namespace Job

variable (job : Job)

/-- A reference in declared names, with namespaces if they are wanted. -/
def format (t : TypeRef) : String := job.table.format job.args.options.qualified t

/-- Reads a type expression. -/
def parse (text : String) : RunM TypeRef :=
  Attempt.ofExcept ((job.table.parse text).mapError (.badExpression text))

/-- A report in the wanted format. -/
def write (json : Json) (text : String) : String :=
  match job.args.format with
  | .json => json.text ++ "\n"
  | .text => text

/-- The supertypes of a reference in declared names. -/
def supertypes (t : TypeRef) : RunM (List String) := do
  let above := Ancestry.ofRef job.table job.args.profile.closure t
  let found ← RunM.logged ⟨above.supertypes, above.events⟩ (.unclimbed (job.format t))
  return found.map job.format

/-- Decides whether `b` can be used as `a`. -/
def unify (a b : String) : RunM (Outcome × String) := do
  let ta ← job.parse a
  let tb ← job.parse b
  Attempt.change (· ++ [.unifyPlanned job.args.profile])
  let answer ← RunM.logged (Nominal.unify job.table ta tb job.args.profile) (.undecided a b)
  let names := job.table.naming job.args.options.qualified
  let report : UnifyReport :=
    ⟨job.format ta, job.format tb, answer.isMatch, answer.instantiation?.map fun args => args.map (·.render names)⟩
  return (if answer.isMatch then .success else .noMatch, job.write report.json (report.text job.color))

/-- Lists the supertypes of a type. -/
def list (text : String) : RunM (Outcome × String) := do
  let t ← job.parse text
  let report : SupertypesReport := ⟨job.format t, ← job.supertypes t⟩
  return (.success, job.write report.json report.text)

/-- Describes a type. -/
def describe (text : String) : RunM (Outcome × String) := do
  let t ← job.parse text
  match job.table.get? t.symbol with
  | none => Attempt.fail (.undeclared text)
  | some d =>
    let interfaces := job.table.interfacesWithin t.symbol job.args.profile.closure
    let all ← Attempt.ofExcept (interfaces.mapError (.unflattened text))
    let supertypes ← job.supertypes t
    let report : TypeReport :=
      { type := job.format t
        symbol := t.symbol.id
        kind := d.kind
        fullName := job.table.fullName t.symbol
        definition := job.format t.definition
        params := d.params.map job.table.names.text
        isOpen := t.isGeneric && decide t.IsOpen
        base? := d.base?.map job.format
        interfaces := d.interfaces.map job.format
        allInterfaces := all.map job.format
        supertypes }
    return (.success, job.write report.json (report.text job.color))

end Job

/-- Loads the universe that is wanted. -/
def loadTable (args : Arguments) (files : String → Except FileError String) : RunM Table :=
  match args.options.universe? with
  | none => RunM.logged Universe.loadCore .badCore
  | some path => do
    let text ← Attempt.ofExcept ((files path).mapError (.unreadable path))
    RunM.logged (Universe.load text) (.unloadable path)

/-- Carries out a command, given the files it may read. -/
def runM (args : Arguments) (color : Bool) (files : String → Except FileError String) : RunM (Outcome × String) := do
  let job : Job := ⟨← loadTable args files, args, color⟩
  match args.command with
  | .unify a b => job.unify a b
  | .supertypes t => job.list t
  | .describe t => job.describe t

/-- The outcome of a command and what it writes, together with what happened. -/
def run (args : Arguments) (color : Bool) (files : String → Except FileError String) :
    Logged (Except RunError (Outcome × String)) :=
  let (result, events) := runM args color files []
  ⟨result, events⟩

end CommandLine

end Nominal
