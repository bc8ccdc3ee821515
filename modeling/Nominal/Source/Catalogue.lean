import Nominal.Source

/-! A catalogue is a source of type information given entry by entry, each with the full list of its interfaces, so that
    nothing is left to be found. -/

namespace Nominal

/-- What a catalogue says about one declaration. -/
structure CatalogueEntry where
  symbol : Symbol
  arity : Nat
  interfaces : List TypeRef := []
  base? : Option TypeRef := none
  isRoot : Bool := false
  deriving Repr

/-- A list of entries; the first one for a symbol counts. -/
structure Catalogue where
  entries : List CatalogueEntry
  deriving Repr

/-- The entry of a symbol. -/
def Catalogue.get? (c : Catalogue) (s : Symbol) : Option CatalogueEntry :=
  c.entries.find? fun e => e.symbol = s

instance : TypeSource Catalogue where
  arity? c s := (c.get? s).map (·.arity)
  interfaces c s := ((c.get? s).map (·.interfaces)).getD []
  base? c s := (c.get? s).bind (·.base?)
  isRoot c s := ((c.get? s).map (·.isRoot)).getD false

end Nominal
