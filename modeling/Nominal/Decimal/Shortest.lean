/-! The shortest decimal form of a floating-point number: of all decimals that are nearer to it than to any other such
    number, one with the fewest digits, and of those the nearest. -/

namespace Nominal

namespace Decimal

/-- A positive number as a whole number of quarter units of its last binary place, together with the two ends of the
    interval of reals that round to it, and the binary exponent of a quarter unit. -/
structure Interval where
  low : Nat
  value : Nat
  high : Nat
  closed : Bool
  exponent : Int

/-- The interval of a positive finite number. Below a power of two the next number is half as far away. -/
def Interval.ofFloat (x : Float) : Interval :=
  let bits := x.toBits.toNat
  let field : Nat := bits / Nat.pow 2 52 % Nat.pow 2 11
  let fraction : Nat := bits % Nat.pow 2 52
  let mantissa := if field = 0 then fraction else fraction + Nat.pow 2 52
  let exponent : Int := if field = 0 then -1076 else (field : Int) - 1077
  let below := if fraction = 0 ∧ field > 1 then 1 else 2
  ⟨4 * mantissa - below, 4 * mantissa, 4 * mantissa + 2, mantissa % 2 = 0, exponent⟩

/-- How many decimal digits a number has. -/
def digitCount (n : Nat) : Nat := (Nat.toDigits 10 n).length

/-- `n` times a power of two or ten as a fraction. -/
def scaled (n base : Nat) (exponent : Int) : Nat × Nat :=
  if exponent < 0 then (n, base.pow exponent.natAbs) else (n * base.pow exponent.toNat, 1)

/-- Whether the first fraction is less than the second. -/
def below (a b : Nat × Nat) : Bool := a.1 * b.2 < b.1 * a.2

/-- The greatest power of ten that does not exceed the value of an interval. -/
def Interval.magnitude (i : Interval) : Int :=
  let v := scaled i.value 2 i.exponent
  let guess : Int := (digitCount v.1 : Int) - digitCount v.2
  if below v (scaled 1 10 guess) then guess - 1 else guess

/-- Whether `n` times ten to the power of `place` rounds to the number of the interval. -/
def Interval.contains (i : Interval) (n : Nat) (place : Int) : Bool :=
  let x := scaled n 10 place
  let low := scaled i.low 2 i.exponent
  let high := scaled i.high 2 i.exponent
  if i.closed then !below x low && !below high x else below low x && below x high

/-- Of the two neighbours of the value among the multiples of a power of ten, the one that rounds to the number; if both
    do, the nearer one, and of two equally near ones the even one. -/
def Interval.candidate? (i : Interval) (place : Int) : Option Nat :=
  let v := scaled i.value 2 i.exponent
  let unit := scaled 1 10 place
  let floor := v.1 * unit.2 / (v.2 * unit.1)
  let remainder := v.1 * unit.2 % (v.2 * unit.1)
  match i.contains floor place, i.contains (floor + 1) place with
  | true, false => some floor
  | false, true => some (floor + 1)
  | false, false => none
  | true, true =>
    if 2 * remainder < v.2 * unit.1 then some floor
    else if 2 * remainder > v.2 * unit.1 then some (floor + 1)
    else if floor % 2 = 0 then some floor
    else some (floor + 1)

/-- Looks for a form with the fewest digits, from one digit on. Seventeen are always enough. -/
def Interval.search (i : Interval) (magnitude : Int) (digits : Nat) : Nat → Nat × Int
  | 0 => (0, 0)
  | tries + 1 =>
    let place := magnitude - digits + 1
    match i.candidate? place with
    | some n => (n, place)
    | none => i.search magnitude (digits + 1) tries

/-- Takes zeros off the end of a number and counts them. -/
def stripZeros (n : Nat) (place : Int) : Nat → Nat × Int
  | 0 => (n, place)
  | tries + 1 => if n ≠ 0 ∧ n % 10 = 0 then stripZeros (n / 10) (place + 1) tries else (n, place)

/-- The shortest decimal form of a positive finite number: digits, and the power of ten of the last one. -/
def shortest (x : Float) : Nat × Int :=
  let i := Interval.ofFloat x
  let (n, place) := i.search i.magnitude 1 17
  stripZeros n place 17

end Decimal

end Nominal
