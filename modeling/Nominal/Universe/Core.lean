import Nominal.Universe.Basic

/-! The universe that is used when none is given. -/

namespace Nominal

/-- Basic types, their comparisons, and collections. -/
def Universe.core : Universe where
  types :=
    [{ name := "Equatable", space? := some "System", kind := .interface, params := ["T"] },
     { name := "Comparable", space? := some "System", kind := .interface, params := ["T"] },
     { name := "Boolean", space? := some "System", kind := .primitive, interfaces := ["Equatable<Boolean>"] },
     { name := "Char", space? := some "System", kind := .primitive,
       interfaces := ["Equatable<Char>", "Comparable<Char>"] },
     { name := "Int32", space? := some "System", kind := .primitive,
       interfaces := ["Equatable<Int32>", "Comparable<Int32>"] },
     { name := "Int64", space? := some "System", kind := .primitive,
       interfaces := ["Equatable<Int64>", "Comparable<Int64>"] },
     { name := "String", space? := some "System", kind := .cls,
       interfaces := ["Equatable<String>", "Comparable<String>", "Enumerable<Char>"] },
     { name := "Enumerable", space? := some "System.Collections.Generic", kind := .interface, params := ["T"] },
     { name := "Collection", space? := some "System.Collections.Generic", kind := .interface, params := ["T"],
       interfaces := ["Enumerable<T>"] },
     { name := "ReadOnlyList", space? := some "System.Collections.Generic", kind := .interface, params := ["T"],
       interfaces := ["Enumerable<T>"] },
     { name := "List", space? := some "System.Collections.Generic", kind := .cls, params := ["T"],
       interfaces := ["Collection<T>", "ReadOnlyList<T>"] },
     { name := "KeyValuePair", space? := some "System.Collections.Generic", kind := .struct,
       params := ["TKey", "TValue"] },
     { name := "Dictionary", space? := some "System.Collections.Generic", kind := .cls, params := ["TKey", "TValue"],
       interfaces := ["Collection<KeyValuePair<TKey, TValue>>"] }]

end Nominal
