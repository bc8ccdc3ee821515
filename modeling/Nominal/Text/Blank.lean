import Nominal.Text.Ranges

/-! White space, in the sense of the Unicode property White_Space. -/

namespace Nominal

/-- The code points with the property White_Space. -/
def blankRanges : Ranges :=
  [(9, 13), (32, 32), (133, 133), (160, 160), (5760, 5760), (8192, 8202), (8232, 8233), (8239, 8239),
   (8287, 8287), (12288, 12288)]

/-- Whether a character is white space. -/
def isBlank (c : Char) : Bool := blankRanges.holds c.toNat

end Nominal
