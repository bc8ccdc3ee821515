import Nominal.CommandLine.Arguments
import Nominal.Text.Digits

/-! Reading the command line. Words are taken from left to right, first those in front of the command and then those
    behind it. In each of the two places an option may be given once, and what is given behind the command counts more.

    The value of an option may be attached to it or be the next word. A value in a word of its own is kept for a while
    and looked at only when the next option or operand comes, or when the words of the place are used up. Those behind
    the command are settled first. -/

namespace Nominal

namespace CommandLine

/-- An option that takes a value. -/
inductive Setting where
  | universe
  | maxDepth
  | maxIterations
  | format
  | color
  deriving DecidableEq, Repr

/-- An option that takes no value. -/
inductive Switch where
  | qualified
  | help
  | version
  deriving DecidableEq, Repr

/-- Where a word stands: in front of the command, or behind a command with so many operands. -/
inductive Place where
  | front
  | behind (count : Nat)
  deriving DecidableEq, Repr

/-- How far the words of one place have been read: the options given so far, the option whose value is missing or has
    not been looked at, the operands so far, and whether a double dash has ended the options. -/
structure Progress where
  given : Options := {}
  pending? : Option (Setting × Option String) := none
  operands : List String := []
  ended : Bool := false
  deriving DecidableEq, Repr

/-! ### Values -/

/-- Reads a limit: decimal digits with or without a sign, from zero up to the greatest number a counter can show. -/
def limit? (s : String) : Option Nat :=
  match s.toList with
  | '-' :: cs => (decimal? cs).filter (· = 0)
  | cs => (signedDecimal? cs).filter (· ≤ Profile.ceiling)

/-- Reads an output format. -/
def Format.ofName? (s : String) : Option Format :=
  if s = "text" then some .text else if s = "json" then some .json else none

/-- Reads when to colour. -/
def ColorMode.ofName? (s : String) : Option ColorMode :=
  if s = "auto" then some .auto
  else if s = "always" then some .always
  else if s = "never" then some .never
  else none

/-- Takes a value that could be read, unless there is one already. The second value for an option is a conflict,
    whatever it is. -/
def keep {α : Type} (before : Option α) (value? : Option α) (otherwise : UsageError) : Except UsageError (Option α) :=
  if before.isSome then .error .argumentConflict
  else
    match value? with
    | some v => .ok (some v)
    | none => .error otherwise

/-- Gives an option a value. -/
def Options.set (o : Options) (s : Setting) (v : String) : Except UsageError Options := do
  match s with
  | .universe => return { o with universe? := ← keep o.universe? (if v = "" then none else some v) .invalidValue }
  | .maxDepth => return { o with maxDepth? := ← keep o.maxDepth? (limit? v) .valueValidation }
  | .maxIterations => return { o with maxIterations? := ← keep o.maxIterations? (limit? v) .valueValidation }
  | .format => return { o with format? := ← keep o.format? (Format.ofName? v) .invalidValue }
  | .color => return { o with color? := ← keep o.color? (ColorMode.ofName? v) .invalidValue }

/-! ### Names -/

/-- The option that takes a value and has a long name. -/
def Setting.ofLong? (name : List Char) : Option Setting :=
  if name = "universe".toList then some .universe
  else if name = "max-depth".toList then some .maxDepth
  else if name = "max-iterations".toList then some .maxIterations
  else if name = "format".toList then some .format
  else if name = "color".toList then some .color
  else none

/-- The option without a value that has a long name in a place. -/
def Switch.ofLong? (place : Place) (name : List Char) : Option Switch :=
  if name = "qualified".toList then some .qualified
  else if name = "help".toList then some .help
  else if name = "version".toList ∧ place = .front then some .version
  else none

/-- The option without a value that has a letter in a place. -/
def Switch.ofLetter? (place : Place) (c : Char) : Option Switch :=
  if c = 'q' then some .qualified
  else if c = 'h' then some .help
  else if c = 'V' ∧ place = .front then some .version
  else none

/-- The commands and the numbers of their operands. -/
def operandCount? (name : String) : Option Nat :=
  if name = "unify" then some 2
  else if name = "supertypes" then some 1
  else if name = "show" then some 1
  else none

/-- Whether a word names a command, that for help included. -/
def isCommandName (name : String) : Bool := (operandCount? name).isSome || name = "help"

/-- The command with a name and operands. -/
def Command.ofOperands? (name : String) (operands : List String) : Option Command :=
  match operands with
  | [a, b] => if name = "unify" then some (.unify a b) else none
  | [t] =>
    if name = "supertypes" then some (.supertypes t)
    else if name = "show" then some (.describe t)
    else none
  | _ => none

namespace Progress

/-! ### Single words -/

/-- Whether the next word is the value of an option. -/
def isAwaiting (p : Progress) : Bool :=
  match p.pending? with
  | some (_, none) => true
  | _ => false

/-- Looks at the value that was kept. -/
def settle (p : Progress) : Except UsageError Progress :=
  match p.pending? with
  | none => .ok p
  | some (_, none) => .error .invalidValue
  | some (s, some v) => do
    let given ← p.given.set s v
    return { p with given, pending? := none }

/-- Meets an option that takes a value. -/
def setting (p : Progress) (s : Setting) (attached? : Option String) : Except UsageError Progress := do
  let p ← p.settle
  match attached? with
  | none => return { p with pending? := some (s, none) }
  | some v =>
    let given ← p.given.set s v
    return { p with given }

/-- Meets an option that takes no value. -/
def switch (p : Progress) (s : Switch) : Except UsageError Progress := do
  let p ← p.settle
  match s with
  | .help => .error .displayHelp
  | .version => .error .displayVersion
  | .qualified =>
    if p.given.qualified then .error .argumentConflict
    else return { p with given := { p.given with qualified := true } }

/-- Meets a long option, of which `name` and perhaps `= value` follow the dashes. -/
def long (p : Progress) (place : Place) (body : List Char) : Except UsageError Progress :=
  let name := body.takeWhile (· ≠ '=')
  let attached? := match body.dropWhile (· ≠ '=') with
    | [] => none
    | _ :: v => some (String.ofList v)
  match Setting.ofLong? name with
  | some s => p.setting s attached?
  | none =>
    match Switch.ofLong? place name with
    | some s => if attached?.isSome then .error .tooManyValues else p.switch s
    | none => .error .unknownArgument

/-- Meets a cluster of option letters. The letter of an option that takes a value ends the cluster, and what follows it
    is the value, behind an equals sign or not. -/
def letters (p : Progress) (place : Place) : List Char → Except UsageError Progress
  | [] => .ok p
  | c :: rest =>
    if c = 'u' then
      match rest with
      | [] => p.setting .universe none
      | '=' :: v => p.setting .universe (some (String.ofList v))
      | v => p.setting .universe (some (String.ofList v))
    else
      match Switch.ofLetter? place c with
      | some s => do
        let p ← p.switch s
        p.letters place rest
      | none => .error .unknownArgument

/-- Meets a word that is no option. In front of the command only the command may stand there, though not behind a double
    dash. -/
def operand (p : Progress) (place : Place) (w : String) : Except UsageError Progress :=
  match place with
  | .front => if p.ended ∧ isCommandName w then .error .unknownArgument else .error .invalidSubcommand
  | .behind count =>
    if p.operands.length < count then do
      let p ← p.settle
      return { p with operands := p.operands ++ [w] }
    else .error .unknownArgument

/-- Meets a word that is neither an option nor a command: it may be the value of an option. -/
def plain (p : Progress) (place : Place) (w : String) : Except UsageError Progress :=
  match p.pending? with
  | some (s, none) => .ok { p with pending? := some (s, some w) }
  | _ => p.operand place w

/-- Meets a word that does not name the command. -/
def word (p : Progress) (place : Place) (w : String) : Except UsageError Progress :=
  if p.ended then p.operand place w
  else
    match w.toList with
    | ['-', '-'] => .ok { p with ended := true }
    | '-' :: '-' :: body => p.long place body
    | '-' :: c :: rest => p.letters place (c :: rest)
    | _ => p.plain place w

end Progress

/-! ### Whole command lines -/

/-- What is given behind the command counts more than what is given in front of it. -/
def Options.merge (front behind : Options) : Options where
  universe? := behind.universe? <|> front.universe?
  maxDepth? := behind.maxDepth? <|> front.maxDepth?
  maxIterations? := behind.maxIterations? <|> front.maxIterations?
  format? := behind.format? <|> front.format?
  color? := behind.color? <|> front.color?
  qualified := behind.qualified || front.qualified

/-- Asks for help about a command, if one is named. -/
def helpFor : List String → UsageError
  | [] => .displayHelp
  | [name] => if isCommandName name then .displayHelp else .invalidSubcommand
  | _ => .invalidSubcommand

/-- Reads the words behind a command. -/
def parseBehind (name : String) (count : Nat) (words : List String) : Except UsageError (Options × Command) := do
  let p ← words.foldlM (fun (p : Progress) w => p.word (.behind count) w) {}
  let p ← p.settle
  match Command.ofOperands? name p.operands with
  | some command => return (p.given, command)
  | none => .error .missingRequiredArgument

/-- Ends a command line without a command. -/
def parseNothing (p : Progress) : Except UsageError Arguments := do
  let p ← p.settle
  if p.given = {} then .error .displayHelpOnMissingArgumentOrSubcommand else .error .missingSubcommand

/-- Reads the words in front of the command, and then the rest. -/
def parseFront (p : Progress) : List String → Except UsageError Arguments
  | [] => parseNothing p
  | w :: rest =>
    if !p.ended && !p.isAwaiting && isCommandName w then
      match operandCount? w with
      | none => .error (helpFor rest)
      | some count => do
        let (behind, command) ← parseBehind w count rest
        let p ← p.settle
        return ⟨p.given.merge behind, command⟩
    else do
      let p ← p.word .front w
      parseFront p rest

/-- Reads a command line. -/
def parse (words : List String) : Except UsageError Arguments := parseFront {} words

end CommandLine

end Nominal
