import Nominal.Pattern.Basic
import Nominal.Reader
import Nominal.Text.Alphabetic
import Nominal.Text.Blank
import Nominal.Text.Digits
import Nominal.Text.Word

/-! How patterns are written. A character stands for itself, except for the signs of choice and repetition, dots,
    brackets, parentheses and what follows a backslash. Flags in parentheses change how the rest of a group is read.

    Patterns are for short texts of one line without letters, which decides what need not be told apart: lines begin and
    end where texts do, and upper and lower case matter only to what can be written. There are no tables of Unicode
    classes, so that classes of letters, words and case can be used only while the flag for Unicode is off, and then
    only within ASCII. A number of repetitions cannot be given, since the closing brace also closes what the pattern
    stands in. -/

namespace Nominal

namespace Pattern

/-- What is left of characters behind one more. -/
def behind {cs : List Char} (c : Char) (rest : NotLonger cs) : NotLonger (c :: cs) :=
  ⟨rest.1, Nat.le_succ_of_le rest.2⟩

/-! ### Flags -/

/-- How a group is read. -/
structure Flags where
  ignoreCase : Bool := false
  unicode : Bool := true
  swapGreed : Bool := false
  spaced : Bool := false
  deriving DecidableEq, Repr

/-- Sets the flag with a letter. Those about lines make no difference. -/
def Flags.set? (f : Flags) (c : Char) (on : Bool) : Option Flags :=
  match c with
  | 'i' => some { f with ignoreCase := on }
  | 'u' => some { f with unicode := on }
  | 'U' => some { f with swapGreed := on }
  | 'x' => some { f with spaced := on }
  | 'm' | 's' | 'R' => some f
  | _ => none

/-- Reads flags up to a colon or a closing parenthesis, which is given back together with whether there were any. No
    flag may come twice, and a minus sign has to be followed by one. -/
def flags (f : Flags) (on : Bool) (seen : List Char) : (cs : List Char) → Option ((Flags × Char × Bool) × NotLonger cs)
  | [] => none
  | c :: cs =>
    if c = ':' ∨ c = ')' then
      if seen.head? = some '-' then none else some ((f, c, seen ≠ []), ⟨cs, Nat.le_succ _⟩)
    else if seen.contains c then none
    else do
      let f ← if c = '-' then some f else f.set? c on
      let (found, rest) ← flags f (on && c ≠ '-') (c :: seen) cs
      return (found, behind c rest)

/-- Skips white space, and comments from a hash sign to the end of the line. -/
def skipSpace (comment : Bool) : (cs : List Char) → NotLonger cs
  | [] => ⟨[], Nat.le_refl _⟩
  | c :: cs =>
    if comment then behind c (skipSpace (c ≠ '\n') cs)
    else if isBlank c then behind c (skipSpace false cs)
    else if c = '#' then behind c (skipSpace true cs)
    else ⟨c :: cs, Nat.le_refl _⟩

/-- Skips what does not count between the parts of a pattern. -/
def skip (f : Flags) (cs : List Char) : NotLonger cs := if f.spaced then skipSpace false cs else ⟨cs, Nat.le_refl _⟩

/-! ### Single characters -/

/-- What a backslash or a plain character can stand for. A literal may be written as a byte in two hexadecimal
    digits. -/
inductive Atom where
  | literal (c : Char) (byte : Bool)
  | set (s : CharSet)
  | boundary (b : Boundary)

/-- Reads a number of hexadecimal digits as a character. -/
def hexChar (f : Flags) : Nat → Nat → (cs : List Char) → Option (Char × NotLonger cs)
  | 0, value, cs => if value.isValidChar then some (Char.ofNat value, ⟨cs, Nat.le_refl _⟩) else none
  | n + 1, value, cs => do
    match skip f cs with
    | ⟨[], _⟩ => none
    | ⟨c :: rest, h⟩ =>
      let digit ← hexValue? c
      let (found, ⟨rest, h'⟩) ← hexChar f n (16 * value + digit) rest
      return (found, ⟨rest, by simp at h; omega⟩)

/-- The character that a letter behind a backslash stands for. -/
def control? (c : Char) : Option Char :=
  match c with
  | 'a' => some '\x07'
  | 'f' => some '\x0c'
  | 't' => some '\t'
  | 'n' => some '\n'
  | 'r' => some '\r'
  | 'v' => some '\x0b'
  | _ => none

/-- What else a character behind a backslash stands for. Signs stand for themselves. -/
def escaped? (f : Flags) (c : Char) : Option Atom :=
  match c with
  | 'A' => some (.boundary .start)
  | 'z' => some (.boundary .stop)
  | 'd' => if f.unicode then none else some (.set .digits)
  | 's' => if f.unicode then none else some (.set .spaces)
  | 'w' => if f.unicode then none else some (.set .wordParts)
  | 'b' => if f.unicode then none else some (.boundary .word)
  | 'B' => if f.unicode then none else some (.boundary .notWord)
  | '<' => if f.unicode then none else some (.boundary .wordStart)
  | '>' => if f.unicode then none else some (.boundary .wordEnd)
  | c =>
    match control? c with
    | some d => some (.literal d false)
    | none => if c.toNat < 128 ∧ !c.isAlphanum then some (.literal c false) else none

/-- Reads what stands behind a backslash. -/
def escape (f : Flags) : (cs : List Char) → Option (Atom × NotLonger cs)
  | [] => none
  | c :: cs =>
    let digits := if c = 'x' then 2 else if c = 'u' then 4 else if c = 'U' then 8 else 0
    if digits = 0 then (escaped? f c).map fun a => (a, ⟨cs, Nat.le_succ _⟩)
    else (hexChar f digits 0 cs).map fun (d, rest) => (.literal d (c = 'x'), behind c rest)

/-! ### Brackets -/

/-- The operations on sets within brackets. -/
inductive SetOperation where
  | inter
  | diff
  | symmDiff

/-- The set that an operation makes of two. -/
def SetOperation.apply (s t : CharSet) : SetOperation → CharSet
  | inter => .inter s t
  | diff => .diff s t
  | symmDiff => .symmDiff s t

/-- An open bracket: whether the set is turned around, what an operation is to be applied to, and the members so far. -/
structure Bracket where
  negated : Bool
  pending? : Option (CharSet × SetOperation) := none
  members : CharSet := .none

namespace Bracket

/-- Adds members. -/
def add (b : Bracket) (s : CharSet) : Bracket := { b with members := .union b.members s }

/-- The set up to here. Case, if it does not matter, does not matter to either side of an operation. -/
def value (b : Bracket) (f : Flags) : CharSet :=
  let fold (s : CharSet) : CharSet := if f.ignoreCase then .caseless s else s
  match b.pending? with
  | none => fold b.members
  | some (s, op) => op.apply (fold s) (fold b.members)

/-- Starts an operation on the set up to here. -/
def operate (b : Bracket) (f : Flags) (op : SetOperation) : Bracket :=
  { b with pending? := some (b.value f, op), members := .none }

/-- The set, once the bracket is closed. Case needs tables in Unicode; without Unicode only ASCII is allowed. -/
def close? (b : Bracket) (f : Flags) : Option CharSet :=
  let s := if b.negated then .compl (b.value f) else b.value f
  if f.unicode then (if f.ignoreCase then none else some s) else if s.isAscii then some s else none

end Bracket

/-- Reads minus signs, which stand for themselves at the beginning of a bracket. -/
def dashes (f : Flags) (b : Bracket) (cs : List Char) : Bracket × NotLonger cs :=
  match skip f cs with
  | ⟨[], h⟩ => (b, ⟨[], h⟩)
  | ⟨c :: rest, h⟩ =>
    if c = '-' then
      let (b, ⟨rest', h'⟩) := dashes f (b.add (.single '-')) rest
      (b, ⟨rest', by simp at h; omega⟩)
    else (b, ⟨c :: rest, h⟩)
  termination_by cs.length
  decreasing_by simp at h; omega

/-- Reads a sign, if it comes next. -/
def sign (f : Flags) (c : Char) (cs : List Char) : Bool × NotLonger cs :=
  match skip f cs with
  | ⟨[], h⟩ => (false, ⟨[], h⟩)
  | ⟨d :: rest, h⟩ => if d = c then (true, ⟨rest, by simp at h; omega⟩) else (false, ⟨d :: rest, h⟩)

/-- Reads the beginning of a bracket. A closing bracket stands for itself if it comes first. -/
def openBracket (f : Flags) (cs : List Char) : Bracket × NotLonger cs :=
  let (negated, ⟨inner, h⟩) := sign f '^' cs
  let (b, ⟨rest, h'⟩) := dashes f { negated } inner
  if b.members = .none then
    let (closing, ⟨rest, h''⟩) := sign f ']' rest
    (if closing then b.add (.single ']') else b, ⟨rest, by omega⟩)
  else (b, ⟨rest, by omega⟩)

/-- Reads the name of a set between colons, with the closing bracket. -/
def namedSet (cs : List Char) : Option (CharSet × NotLonger cs) :=
  let negated := cs.take 2 = [':', '^']
  let inner := cs.drop (if negated then 2 else 1)
  let rest := inner.dropWhile (· ≠ ':')
  if cs.head? = some ':' ∧ rest.take 2 = [':', ']'] then do
    let s ← CharSet.named? (String.ofList (inner.takeWhile (· ≠ ':')))
    return (if negated then .compl s else s, ⟨rest.drop 2, by
      have shorter : rest.length ≤ inner.length := (List.dropWhile_suffix _).length_le
      have inside : inner.length ≤ cs.length := by simp [inner]
      simp
      omega⟩)
  else none

/-- Reads a character or what a backslash stands for, within brackets. -/
def member (f : Flags) (c : Char) (cs : List Char) : Option (Atom × NotLonger cs) :=
  if c = '\\' then escape f cs else some (.literal c false, ⟨cs, Nat.le_refl _⟩)

/-- The character of an atom within brackets. Without Unicode it has to be one of ASCII. -/
def Atom.char? (f : Flags) : Atom → Option Char
  | literal c _ => if f.unicode || c.toNat < 128 then some c else none
  | _ => none

/-- The set of an atom within brackets. -/
def Atom.set? (f : Flags) : Atom → Option CharSet
  | set s => some s
  | a => (a.char? f).map CharSet.single

/-- Reads a member of a bracket, or a range of them. A minus sign makes a range, unless the end of the bracket or a
    second minus sign follows. -/
def members (f : Flags) (c : Char) (cs : List Char) : Option (CharSet × NotLonger cs) := do
  let (a, ⟨rest, h⟩) ← member f c cs
  let (minus, ⟨behind, h'⟩) := sign f '-' rest
  if !minus then return (← a.set? f, ⟨rest, h⟩)
  else
    match skip f behind with
    | ⟨[], _⟩ => none
    | ⟨d :: last, h''⟩ =>
      if d = ']' ∨ d = '-' then return (← a.set? f, ⟨rest, h⟩)
      else
        let (b, ⟨rest', h₃⟩) ← member f d last
        let low ← a.char? f
        let high ← b.char? f
        if low ≤ high then return (.span low high, ⟨rest', by simp at h''; omega⟩) else none

/-- What can come next within a bracket. -/
inductive BracketItem where
  | opened (b : Bracket)
  | closed
  | operation (op : SetOperation)
  | members (s : CharSet)

/-- The operation that a doubled sign stands for. -/
def SetOperation.ofSign? (c : Char) : Option SetOperation :=
  if c = '&' then some .inter else if c = '-' then some .diff else if c = '~' then some .symmDiff else none

/-- Reads what comes next within a bracket, from the character `c` on. -/
def bracketItem (f : Flags) (c : Char) (cs : List Char) : Option (BracketItem × NotLonger cs) :=
  if c = '[' then
    match namedSet cs with
    | some (s, rest) => some (.members s, rest)
    | none =>
      let (b, rest) := openBracket f cs
      some (.opened b, rest)
  else if c = ']' then some (.closed, ⟨cs, Nat.le_refl _⟩)
  else
    match (SetOperation.ofSign? c).filter fun _ => cs.head? = some c with
    | some op => some (.operation op, ⟨cs.drop 1, by simp⟩)
    | none => (members f c cs).map fun (s, rest) => (.members s, rest)

/-- Reads a bracket to its end, where `outer` are the brackets around it. -/
def bracket (f : Flags) (outer : List Bracket) (b : Bracket) (cs : List Char) : Option (CharSet × NotLonger cs) :=
  match skip f cs with
  | ⟨[], _⟩ => none
  | ⟨c :: inner, h⟩ =>
    match bracketItem f c inner with
    | none => none
    | some (item, ⟨rest, h'⟩) =>
      let go (outer : List Bracket) (b : Bracket) : Option (CharSet × NotLonger cs) :=
        (bracket f outer b rest).map fun (s, ⟨rest, h''⟩) => (s, ⟨rest, by simp at h; omega⟩)
      match item with
      | .opened inner => go (b :: outer) inner
      | .operation op => go outer (b.operate f op)
      | .members s => go outer (b.add s)
      | .closed =>
        match outer, b.close? f with
        | _, none => none
        | [], some s => some (s, ⟨rest, by simp at h; omega⟩)
        | o :: outer, some s => go outer (o.add s)
  termination_by cs.length
  decreasing_by simp at h; omega

/-! ### Groups -/

/-- What an opening parenthesis begins: a group, which may have a name, or a change of flags for the group around it. -/
inductive Opening where
  | group (f : Flags) (name? : Option (List Char))
  | change (f : Flags)

/-- Whether characters are a name for a group. -/
def isGroupName : List Char → Bool
  | [] => false
  | c :: cs => isWordStart c && cs.all fun d => isWordPart d || d = '.' || d = '[' || d = ']'

/-- Reads the name of a group up to a closing angle bracket. -/
def groupName (f : Flags) (cs : List Char) : Option (Opening × NotLonger cs) :=
  let name := cs.takeWhile (· ≠ '>')
  let rest := cs.dropWhile (· ≠ '>')
  if isGroupName name ∧ rest ≠ [] then
    some (.group f (some name), ⟨rest.drop 1, by
      have shorter : rest.length ≤ cs.length := (List.dropWhile_suffix _).length_le
      simp
      omega⟩)
  else none

/-- Reads what follows a parenthesis and a question mark: a name in angle brackets, or flags. -/
def special (f : Flags) (cs : List Char) : Option (Opening × NotLonger cs) :=
  let skipped := if cs.take 2 = ['P', '<'] then 2 else if cs.head? = some '<' then 1 else 0
  if skipped = 0 then
    match flags f true [] cs with
    | none => none
    | some ((f, stop, any), rest) =>
      if stop = ':' then some (.group f none, rest) else if any then some (.change f, rest) else none
  else (groupName f (cs.drop skipped)).map fun (o, ⟨rest, h⟩) => (o, ⟨rest, by simp at h; omega⟩)

/-- Reads what follows an opening parenthesis. -/
def opening (f : Flags) (cs : List Char) : Option (Opening × NotLonger cs) :=
  let (isSpecial, ⟨rest, h⟩) := sign f '?' cs
  if isSpecial then (special f rest).map fun (o, ⟨rest, h'⟩) => (o, ⟨rest, by omega⟩)
  else some (.group f none, ⟨rest, h⟩)

/-- An open group: the flags around it, the alternatives so far and the parts of the last one, both from the end, and
    the part that a repetition would apply to. -/
structure Group where
  flags : Flags
  alternatives : List Pattern := []
  parts : List Pattern := []
  last? : Option Pattern := none

namespace Group

/-- Leaves nothing to repeat. -/
def settle (g : Group) : Group := { g with parts := g.last?.toList ++ g.parts, last? := none }

/-- Adds a part. -/
def add (g : Group) (p : Pattern) : Group := { g.settle with last? := some p }

/-- Ends an alternative. -/
def split (g : Group) : Group :=
  { g with alternatives := g.settle.parts.foldl (fun tail p => .seq p tail) .empty :: g.alternatives, parts := [],
           last? := none }

/-- The pattern of the group. -/
def pattern (g : Group) : Pattern :=
  match g.split.alternatives with
  | [] => .empty
  | last :: before => before.foldl (fun tail p => .alt p tail) last

end Group

/-- The pattern of an atom. Case needs tables in Unicode, and without Unicode a byte has to be one of ASCII. -/
def Atom.pattern? (f : Flags) : Atom → Option Pattern
  | literal c byte =>
    if f.unicode then (if f.ignoreCase then none else some (.char (.single c)))
    else if byte && 128 ≤ c.toNat then none
    else some (.char (if f.ignoreCase then .caseless (.single c) else .single c))
  | set s => some (.char s)
  | boundary b => some (.boundary b)

/-! ### Whole patterns -/

/-- What can come next in a pattern. -/
inductive Item where
  | opened (o : Opening)
  | closed
  | choice
  | repetition (apply : Pattern → Pattern)
  | part (p : Pattern)

/-- The repetition that a sign stands for. -/
def repetition? (greedy : Bool) (c : Char) : Option (Pattern → Pattern) :=
  if c = '?' then some (opt greedy)
  else if c = '*' then some (star greedy)
  else if c = '+' then some (plus greedy)
  else none

/-- The part that a sign stands for by itself. A dot is any character but a line feed. -/
def sign? (f : Flags) (c : Char) : Option Pattern :=
  if c = '^' then some (.boundary .start)
  else if c = '$' then some (.boundary .stop)
  else if c = '.' then if f.unicode then some (.char (.compl (.single '\n'))) else none
  else if c = '\x7b' then none
  else Atom.pattern? f (.literal c false)

/-- Reads what comes next in a pattern, from the character `c` on. A question mark behind a repetition turns its
    preference around. -/
def item (f : Flags) (c : Char) (cs : List Char) : Option (Item × NotLonger cs) :=
  if c = '(' then (opening f cs).map fun (o, rest) => (.opened o, rest)
  else if c = ')' then some (.closed, ⟨cs, Nat.le_refl _⟩)
  else if c = '|' then some (.choice, ⟨cs, Nat.le_refl _⟩)
  else if c = '[' then
    let (b, ⟨inner, h⟩) := openBracket f cs
    (bracket f [] b inner).map fun (s, ⟨rest, h'⟩) => (.part (.char s), ⟨rest, by omega⟩)
  else if c = '\\' then do
    let (a, rest) ← escape f cs
    return (.part (← a.pattern? f), rest)
  else
    let lazy := cs.head? = some '?'
    match repetition? (f.swapGreed == lazy) c with
    | some apply => some (.repetition apply, ⟨cs.drop (if lazy then 1 else 0), by simp⟩)
    | none => (sign? f c).map fun p => (.part p, ⟨cs, Nat.le_refl _⟩)

/-- A pattern that has been read up to some place: the flags there, the names that are taken, the groups around the open
    one, and the open one. -/
structure Draft where
  flags : Flags := {}
  names : List (List Char) := []
  outer : List Group := []
  group : Group := { flags := {} }

/-- Goes on with what comes next. A closing parenthesis needs a group around, a name must be new, and a repetition needs
    something to repeat. -/
def Draft.add? (d : Draft) : Item → Option Draft
  | .opened (.change f) => some { d with flags := f, group := d.group.settle }
  | .opened (.group f name?) =>
    if name?.any d.names.contains then none
    else some ⟨f, name?.toList ++ d.names, d.group :: d.outer, { flags := d.flags }⟩
  | .closed =>
    match d.outer with
    | [] => none
    | o :: outer => some { d with flags := d.group.flags, outer, group := o.add d.group.pattern }
  | .choice => some { d with group := d.group.split }
  | .repetition apply => d.group.last?.map fun p => { d with group := { d.group with last? := some (apply p) } }
  | .part p => some { d with group := d.group.add p }

/-- Reads a pattern to its end. -/
def Draft.finish (d : Draft) (cs : List Char) : Option Pattern :=
  match skip d.flags cs with
  | ⟨[], _⟩ => if d.outer.isEmpty then some d.group.pattern else none
  | ⟨c :: inner, h⟩ =>
    match item d.flags c inner with
    | none => none
    | some (found, ⟨rest, h'⟩) =>
      match d.add? found with
      | none => none
      | some d =>
        have : rest.length < cs.length := by simp at h; omega
        d.finish rest
  termination_by cs.length

/-- Reads a pattern. -/
def ofChars? (cs : List Char) : Option Pattern := Draft.finish {} cs

end Pattern

end Nominal
