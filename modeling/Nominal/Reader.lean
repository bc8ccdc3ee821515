/-! Readers take something off the beginning of a list of tokens. A reader uses up at least one token, and its type says
    so, which is why reading one thing after another always ends. -/

namespace Nominal

/-- What is left of `ts` after at least one token was used up. -/
abbrev Shorter {τ : Type} (ts : List τ) : Type := { rest : List τ // rest.length < ts.length }

/-- What is left of `ts` after any number of tokens was used up. -/
abbrev NotLonger {τ : Type} (ts : List τ) : Type := { rest : List τ // rest.length ≤ ts.length }

/-- All but the first token. -/
def Shorter.tail {τ : Type} {t : τ} {ts : List τ} : Shorter (t :: ts) := ⟨ts, Nat.lt_succ_self _⟩

/-- What is left of the tokens behind the first. -/
def Shorter.behind {τ : Type} {t : τ} {ts : List τ} (rest : Shorter ts) : Shorter (t :: ts) :=
  ⟨rest.val, Nat.lt_succ_of_lt rest.property⟩

/-- Reads something off the beginning of a list of tokens, or fails. -/
abbrev Reader (τ ε α : Type) : Type := (ts : List τ) → Except ε (α × Shorter ts)

end Nominal
