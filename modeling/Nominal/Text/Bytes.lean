/-! Places in a text, counted in the bytes that its characters take up in UTF-8. -/

namespace Nominal

/-- The number of bytes that characters take up. -/
def byteCount (cs : List Char) : Nat := cs.foldl (fun n c => n + c.utf8Size) 0

/-- Splits a text behind a number of bytes, unless that lies inside a character or behind the end. -/
def splitBytes? (n : Nat) : List Char → Option (List Char × List Char)
  | [] => if n = 0 then some ([], []) else none
  | c :: cs =>
    if n = 0 then some ([], c :: cs)
    else if n < c.utf8Size then none
    else (splitBytes? (n - c.utf8Size) cs).map fun (left, right) => (c :: left, right)

end Nominal
