import Nominal.Universe.Build
import Nominal.Universe.Core
import Nominal.Universe.Reader

/-! From the text of a universe to its table. -/

namespace Nominal

/-- Why the text of a universe yields no table: it cannot be read, or what it says is turned down. -/
inductive LoadError where
  | unreadable (error : Json.ReadError)
  | refused (error : UniverseError)
  deriving DecidableEq, Repr

/-- What is said about a text that yields no table. -/
def LoadError.message : LoadError → String
  | unreadable e => "invalid universe JSON: " ++ e.message
  | refused e => e.message

namespace Universe

/-- The table of a universe that is given as text. -/
def load (text : String) : Logged (Except LoadError Table) :=
  match ofText text with
  | .error e => ⟨.error (.unreadable e), []⟩
  | .ok u =>
    let built := u.build
    ⟨built.value.mapError .refused, built.events⟩

/-- The table of the universe that is used when none is given. -/
def loadCore : Logged (Except LoadError Table) :=
  let built := core.build
  ⟨built.value.mapError .refused, built.events⟩

end Universe

end Nominal
