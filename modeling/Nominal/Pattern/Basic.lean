import Nominal.Pattern.CharSet

/-! Patterns and how texts meet them. A pattern stands for texts: characters from sets one after another, with choices
    and repetitions. It is looked for in a text from left to right. Of the ways to go on, those come first that started
    earlier and that the pattern names first, and once a way is complete, all ways behind it are given up. A text meets
    a pattern if a way that is left is complete at its end. -/

namespace Nominal

/-- A condition on the place between two characters. -/
inductive Boundary where
  | start
  | stop
  | word
  | notWord
  | wordStart
  | wordEnd
  deriving DecidableEq, Repr

/-- Whether a neighbour of a place is part of a word. -/
def isWordNeighbour (c? : Option Char) : Bool := c?.any fun c => CharSet.wordParts.holds c.toNat

/-- Whether the condition holds between two characters, either of which may be missing. -/
def Boundary.holds (before? after? : Option Char) : Boundary → Bool
  | start => before?.isNone
  | stop => after?.isNone
  | word => isWordNeighbour before? != isWordNeighbour after?
  | notWord => isWordNeighbour before? == isWordNeighbour after?
  | wordStart => !isWordNeighbour before? && isWordNeighbour after?
  | wordEnd => isWordNeighbour before? && !isWordNeighbour after?

/-- A pattern. Whatever may be left out or repeated is `greedy` if more of it is preferred to less. -/
inductive Pattern where
  | empty
  | char (set : CharSet)
  | boundary (condition : Boundary)
  | seq (p q : Pattern)
  | alt (p q : Pattern)
  | opt (greedy : Bool) (p : Pattern)
  | plus (greedy : Bool) (p : Pattern)
  | again (greedy : Bool) (p : Pattern)
  deriving DecidableEq, Repr

/-- A way to go on with patterns: they are complete, or a character has to come and further patterns behind it. -/
inductive Way where
  | complete
  | read (set : CharSet) (rest : List Pattern)
  deriving DecidableEq, Repr

/-- The ways to go on that have been found at a place, in order of preference, and the sequences of patterns that have
    been tried for it. -/
structure Front where
  tried : List (List Pattern) := []
  ways : List Way := []

namespace Front

/-- Tries patterns, unless they have been tried before. -/
def once (ps : List Pattern) (go : Front → Front) (f : Front) : Front :=
  if f.tried.contains ps then f else go { f with tried := ps :: f.tried }

/-- Adds a way behind all others. -/
def add (w : Way) (f : Front) : Front := if f.ways.contains w then f else { f with ways := f.ways ++ [w] }

end Front

namespace Pattern

/-- Whether the pattern can do without characters. -/
def isNullable : Pattern → Bool
  | empty => true
  | char _ => false
  | boundary _ => true
  | seq p q => p.isNullable && q.isNullable
  | alt p q => p.isNullable || q.isNullable
  | opt _ _ => true
  | plus _ p => p.isNullable
  | again _ _ => true

/-- Any number of repetitions. A pattern that can do without characters is first tried as if it had to be there, so that
    its preferences count. -/
def star (greedy : Bool) (p : Pattern) : Pattern :=
  if p.isNullable then opt greedy (plus greedy p) else again greedy p

/-- Looks for ways to go on at a place with a pattern and then with `rest`, where `go` looks for ways to go on with
    `rest` alone. Nothing is tried twice at a place, and so a repetition that comes round without a character leads
    nowhere. -/
def visit (before? after? : Option Char) : Pattern → List Pattern → (Front → Front) → Front → Front
  | empty, _, go => go
  | char set, rest, _ => Front.once (char set :: rest) (Front.add (.read set rest))
  | boundary b, _, go => if b.holds before? after? then go else id
  | seq p q, rest, go => p.visit before? after? (q :: rest) (q.visit before? after? rest go)
  | alt p q, rest, go =>
    Front.once (alt p q :: rest) fun f => q.visit before? after? rest go (p.visit before? after? rest go f)
  | opt greedy p, rest, go =>
    Front.once (opt greedy p :: rest) fun f =>
      if greedy then go (p.visit before? after? rest go f) else p.visit before? after? rest go (go f)
  | plus greedy p, rest, go =>
    p.visit before? after? (again greedy p :: rest) (Front.once (again greedy p :: rest) go)
  | again greedy p, rest, go =>
    let more := p.visit before? after? (again greedy p :: rest) id
    Front.once (again greedy p :: rest) fun f => if greedy then go (more f) else more (go f)

/-- Looks for ways to go on at a place with patterns one after another. -/
def visitAll (before? after? : Option Char) : List Pattern → Front → Front
  | [] => Front.add .complete
  | p :: rest => p.visit before? after? rest (visitAll before? after? rest)

/-- What is left of a way after a character, if it can go on with that. -/
def next? (c : Char) : Way → Option (List Pattern)
  | .complete => none
  | .read set rest => if set.holds c.toNat then some rest else none

/-- The ways to go on at a place with the patterns in `pending`, in order of preference, and last with `p` from its
    beginning, if it may still start. -/
def ways (p : Pattern) (starts : Bool) (pending : List (List Pattern)) (before? after? : Option Char) : List Way :=
  ((if starts then pending ++ [[p]] else pending).foldl (fun f ps => visitAll before? after? ps f) {}).ways

/-- Whether the rest of a text completes a way. While nothing is complete, `p` may start at every place. -/
def meetsFrom (p : Pattern) (starts : Bool) (pending : List (List Pattern)) (before? : Option Char) : List Char → Bool
  | [] => (p.ways starts pending before? none).contains .complete
  | c :: rest =>
    let ways := p.ways starts pending before? (some c)
    p.meetsFrom (starts && !ways.contains .complete) ((ways.takeWhile (· ≠ .complete)).filterMap (next? c))
      (some c) rest

/-- Whether a text meets the pattern. -/
def meets (p : Pattern) (cs : List Char) : Bool := p.meetsFrom true [] none cs

end Pattern

end Nominal
