import Nominal.CommandLine.Process

/-! The program. It reads the universe that the arguments name, if they name one, and leaves the rest to `process`. -/

namespace Nominal

namespace CommandLine

/-- What the system said about a file. -/
def FileError.ofSystem : IO.Error → FileError
  | .noFileOrDirectory _ code _ => .system code.toNat "No such file or directory"
  | .permissionDenied _ code _ => .system code.toNat "Permission denied"
  | .inappropriateType _ code _ =>
    .system code.toNat (if code = 20 then "Not a directory" else "Is a directory")
  | e => .other (toString e)

/-- Reads a file. -/
def readContents (path : String) : IO (Except FileError String) := do
  try
    match String.fromUTF8? (← IO.FS.readBinFile path) with
    | some text => return .ok text
    | none => return .error (.other "stream did not contain valid UTF-8")
  catch e => return .error (.ofSystem e)

/-- The path of the universe that the arguments name. -/
def universePath? (words : List String) : Option String :=
  match parse words with
  | .ok args => args.options.universe?
  | .error _ => none

end CommandLine

end Nominal

open Nominal.CommandLine in
/-- Runs the program on the arguments of the command line. -/
def main (words : List String) : IO UInt32 := do
  let contents ← match universePath? words with
    | some path => readContents path
    | none => pure (.ok "")
  let own ← IO.getEnv "TKIT_LOG"
  let shared ← IO.getEnv "RUST_LOG"
  let env (name : String) : Option String :=
    if name = "TKIT_LOG" then own else if name = "RUST_LOG" then shared else none
  let finish := process words env (← (← IO.getStdout).isTty) fun _ => contents
  for remark in finish.remarks do
    IO.eprintln remark
  for e in finish.log do
    IO.eprintln e.line
  IO.print finish.stdout
  IO.eprint finish.stderr
  return finish.exitCode.toUInt32
