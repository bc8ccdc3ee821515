import Std.Data.HashMap

/-! Names are stored once and then passed around as numbers. A pool hands out the numbers in order of
    first use, and number zero always stands for the empty name. -/

namespace Nominal

/-- The number of a name in a pool. -/
structure Atom where
  index : Nat
  deriving DecidableEq, Hashable, Repr, Inhabited

namespace Atom

/-- The number of the empty name, in every pool. -/
def empty : Atom := ⟨0⟩

/-- Whether this is the number of the empty name. -/
def isEmpty (a : Atom) : Bool := a.index == 0

end Atom

/-- The names seen so far: `texts` lists them in order of first use, and `ids` finds the number of a name. -/
structure NamePool where
  texts : Array String
  ids : Std.HashMap String Atom

namespace NamePool

/-- The pool that knows the empty name only. -/
def empty : NamePool := ⟨#[""], (∅ : Std.HashMap String Atom).insert "" Atom.empty⟩

instance : EmptyCollection NamePool := ⟨empty⟩
instance : Inhabited NamePool := ⟨empty⟩

/-- The number of `s`, if the pool knows it. -/
def get? (pool : NamePool) (s : String) : Option Atom :=
  pool.ids[s]?

/-- The number of `s`. A name the pool does not know gets the next free number. -/
def intern (pool : NamePool) (s : String) : NamePool × Atom :=
  match pool.get? s with
  | some a => (pool, a)
  | none =>
    let a : Atom := ⟨pool.texts.size⟩
    (⟨pool.texts.push s, pool.ids.insert s a⟩, a)

/-- The numbers of several names, taken from left to right. -/
def internAll (pool : NamePool) : List String → NamePool × List Atom
  | [] => (pool, [])
  | s :: rest =>
    let (pool, a) := pool.intern s
    let (pool, as) := pool.internAll rest
    (pool, a :: as)

/-- The name behind a number, if the pool handed the number out. -/
def text? (pool : NamePool) (a : Atom) : Option String :=
  pool.texts[a.index]?

/-- The name behind a number; a number the pool never handed out reads as the empty name. -/
def text (pool : NamePool) (a : Atom) : String :=
  (pool.text? a).getD ""

/-- How many numbers are in use, that of the empty name included. -/
def size (pool : NamePool) : Nat := pool.texts.size

/-- Whether the pool knows no name besides the empty one. -/
def isEmpty (pool : NamePool) : Bool := pool.size ≤ 1

/-- Names that nearly every table uses. -/
def commonNames : List String :=
  ["System", "System.Collections", "System.Collections.Generic", "Object", "ValueType", "String", "Boolean",
   "Char", "Int16", "Int32", "Int64", "Single", "Double", "Decimal", "IEquatable", "IComparable", "IEnumerable",
   "ICollection", "IList", "List", "Dictionary", "KeyValuePair", "T", "TKey", "TValue"]

/-- The pool that knows the common names. -/
def common : NamePool := (empty.internAll commonNames).1

end NamePool

end Nominal
