import Nominal.Decimal.Shortest

/-! Floating-point numbers in words: between one hundred-thousandth and ten to the sixteenth with a decimal point, and
    with an exponent otherwise. -/

namespace Nominal

namespace Decimal

/-- So many zeros. -/
def zeros (n : Nat) : String := String.ofList (List.replicate n '0')

/-- The text of `digits` with the last one at the power of ten `place`. -/
def layout (digits : String) (place : Int) : String :=
  let count := digits.length
  let point : Int := count + place
  if 0 ≤ place ∧ point ≤ 16 then digits ++ zeros place.toNat ++ ".0"
  else if 0 < point ∧ point ≤ 16 then
    String.ofList (digits.toList.take point.toNat) ++ "." ++ String.ofList (digits.toList.drop point.toNat)
  else if -5 < point ∧ point ≤ 0 then "0." ++ zeros point.natAbs ++ digits
  else
    let exponent := point - 1
    let mark := if exponent < 0 then "e-" else "e+"
    let head := String.ofList (digits.toList.take 1)
    let tail := String.ofList (digits.toList.drop 1)
    (if tail = "" then head else head ++ "." ++ tail) ++ mark ++ toString exponent.natAbs

/-- The text of a finite floating-point number. -/
def text (x : Float) : String :=
  let sign := if x.toBits.toNat ≥ Nat.pow 2 63 then "-" else ""
  let size := x.abs
  if size == 0 then sign ++ "0.0"
  else
    let (n, place) := shortest size
    sign ++ layout (toString n) place

end Decimal

end Nominal
