import Nominal.CommandLine.LogFilter
import Nominal.CommandLine.Parser
import Nominal.CommandLine.Run

/-! The program as a whole: from words, environment and files to exit status and output. -/

namespace Nominal

namespace CommandLine

/-- The name and version of the program. -/
def version : String := "tkit 0.1.0"

/-- What the program is for and how it is called. -/
def help : String :=
  lines
    ["Generic-aware nominal type unification over a declared type universe", "",
     "Usage: tkit [OPTIONS] <COMMAND>", "",
     "Commands:",
     "  unify <A> <B>      Decide whether B can be treated as an A",
     "  supertypes <TYPE>  List the supertypes of a type, interfaces first, then ancestors",
     "  show <TYPE>        Describe a declaration and the reference it was given as",
     "  help [COMMAND]     Print this message", "",
     "Options:",
     "  -u, --universe <PATH>     Type universe to load (JSON)",
     "      --max-depth <N>       Maximum nesting of unification calls",
     "      --max-iterations <N>  Maximum number of unification steps per query",
     "      --format <FORMAT>     Output format: text, json",
     "      --color <COLOR>       Color text output: auto, always, never",
     "  -q, --qualified           Render names with their namespaces",
     "  -h, --help                Print help",
     "  -V, --version             Print version"]

/-- What a run of the program leaves behind: the exit status, what it writes, the mistake on the command line, if that
    is why nothing was done, remarks about the filter of the log, and the events that the log shows. -/
structure Finish where
  exitCode : Nat
  stdout : String
  stderr : String
  usage? : Option UsageError := none
  remarks : List String := []
  log : List Event := []

/-- The filter for the log. Without one of the two variables there is no log. -/
def logFilter? (env : String → Option String) : Option LogFilter :=
  (env "TKIT_LOG" <|> env "RUST_LOG").map LogFilter.ofText

/-- Whether output is coloured; unless told otherwise, only a terminal shows colours. -/
def wantsColor (args : Arguments) (terminal : Bool) : Bool :=
  match args.color with
  | .auto => terminal
  | .always => true
  | .never => false

/-- The exit status of a program that gives up. -/
def abortCode : Nat := 101

/-- Runs the program, once it is known which events are to be shown. -/
def processWith (words : List String) (filter? : Option LogFilter) (terminal : Bool)
    (files : String → Except FileError String) : Finish :=
  match parse words with
  | .error e =>
    match e with
    | .displayVersion => { exitCode := e.exitCode, stdout := lines [version], stderr := "", usage? := some e }
    | .displayHelp => { exitCode := e.exitCode, stdout := help, stderr := "", usage? := some e }
    | .displayHelpOnMissingArgumentOrSubcommand =>
      { exitCode := e.exitCode, stdout := "", stderr := help, usage? := some e }
    | _ => { exitCode := e.exitCode, stdout := "", stderr := lines ["error: " ++ e.name], usage? := some e }
  | .ok args =>
    let result := run args (wantsColor args terminal) files
    let log := match filter? with
      | some f => f.shown result.events
      | none => []
    match result.value with
    | .ok (outcome, stdout) => { exitCode := outcome.exitCode, stdout, stderr := "", log }
    | .error e => { exitCode := errorCode, stdout := "", stderr := lines ["error: " ++ e.message], log }

/-- Runs the program. The filter for the log is looked at before the arguments. -/
def process (words : List String) (env : String → Option String) (terminal : Bool)
    (files : String → Except FileError String) : Finish :=
  match logFilter? env with
  | none => processWith words none terminal files
  | some f =>
    if f.isBroken then
      let usage? := match parse words with
        | .error e => some e
        | .ok _ => none
      { exitCode := abortCode, stdout := "", stderr := lines ["error: invalid log filter"], usage? }
    else { processWith words (some f) terminal files with remarks := f.remarks }

/-- Whether anything shows up beside the output: a message, a remark about the filter, or a line of the log. -/
def Finish.isNoisy (f : Finish) : Bool := f.stderr ≠ "" || !f.remarks.isEmpty || !f.log.isEmpty

end CommandLine

end Nominal
