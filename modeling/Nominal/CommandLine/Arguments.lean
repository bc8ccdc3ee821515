import Nominal.Profile

/-! The arguments of the command line: a command with its operands, and options that may stand before the command as
    well as after it. -/

namespace Nominal

namespace CommandLine

/-- How results are written. -/
inductive Format where
  | text
  | json
  deriving DecidableEq, Repr

/-- When text is coloured. -/
inductive ColorMode where
  | auto
  | always
  | never
  deriving DecidableEq, Repr

/-- What is to be done: decide whether the second type can be used as the first, list supertypes, or describe a type. -/
inductive Command where
  | unify (a b : String)
  | supertypes (type : String)
  | describe (type : String)
  deriving DecidableEq, Repr

/-- The options that were given. -/
structure Options where
  universe? : Option String := none
  maxDepth? : Option Nat := none
  maxIterations? : Option Nat := none
  format? : Option Format := none
  color? : Option ColorMode := none
  qualified : Bool := false
  deriving DecidableEq, Repr

/-- A command and the options for it. -/
structure Arguments where
  options : Options
  command : Command
  deriving DecidableEq, Repr

namespace Arguments

/-- How results are written; as text, if nothing else is said. -/
def format (args : Arguments) : Format := args.options.format?.getD .text

/-- When text is coloured. -/
def color (args : Arguments) : ColorMode := args.options.color?.getD .auto

/-- The limits for the query: the usual ones, except for those that were given. -/
def profile (args : Arguments) : Profile :=
  match args.options.maxDepth?, args.options.maxIterations? with
  | none, none => .unification
  | depth?, iterations? =>
    .custom (depth?.getD Profile.unification.maxDepth) (iterations?.getD Profile.unification.maxIterations)

end Arguments

/-- Why arguments are not acted upon. -/
inductive UsageError where
  | argumentConflict
  | displayHelp
  | displayHelpOnMissingArgumentOrSubcommand
  | displayVersion
  | invalidSubcommand
  | invalidValue
  | missingRequiredArgument
  | missingSubcommand
  | tooManyValues
  | unknownArgument
  | valueValidation
  deriving DecidableEq, Repr

namespace UsageError

/-- The name of a usage error. -/
def name : UsageError → String
  | argumentConflict => "ArgumentConflict"
  | displayHelp => "DisplayHelp"
  | displayHelpOnMissingArgumentOrSubcommand => "DisplayHelpOnMissingArgumentOrSubcommand"
  | displayVersion => "DisplayVersion"
  | invalidSubcommand => "InvalidSubcommand"
  | invalidValue => "InvalidValue"
  | missingRequiredArgument => "MissingRequiredArgument"
  | missingSubcommand => "MissingSubcommand"
  | tooManyValues => "TooManyValues"
  | unknownArgument => "UnknownArgument"
  | valueValidation => "ValueValidation"

/-- The exit status: help and version were asked for, the rest are mistakes. -/
def exitCode : UsageError → Nat
  | displayHelp | displayVersion => 0
  | _ => 2

end UsageError

end CommandLine

end Nominal
