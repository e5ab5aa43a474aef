/-!
# Shortest decimal of a binary fraction

The decimal with the fewest digits that still reads back as a given binary floating-point number.
The number is `significand * 2 ^ exponent`; every real between the midpoints to its two neighbours
reads back as it, the midpoints included when the significand is even. For one digit, two digits
and so on, the two decimals around the number are tried; of two that read back the nearer one is
taken, and the even one when they are equally near.

* `Magnitude.shortest` — the digits and the exponent of that decimal.
* `DecimalFormat.write` — the text of digits and exponent.
-/

namespace FieldFill

/-- A positive binary number `significand * 2 ^ exponent`. -/
structure Magnitude where
  significand : Nat
  exponent : Int
  /-- Whether the neighbour below is only half as far away as the one above. -/
  atPower : Bool
  deriving DecidableEq, Repr

/-- A positive decimal `digits * 10 ^ exponent`. -/
structure Decimal where
  digits : Nat
  exponent : Int
  deriving DecidableEq, Repr

/-- A quotient of two natural numbers. -/
structure Ratio where
  num : Nat
  den : Nat
  deriving DecidableEq, Repr

namespace Ratio

/-- `n * base ^ exponent` as a quotient. -/
def scaled (n base : Nat) (exponent : Int) : Ratio :=
  match exponent with
  | .ofNat k => ⟨n * Nat.pow base k, 1⟩
  | .negSucc k => ⟨n, Nat.pow base (k + 1)⟩

def le (a b : Ratio) : Bool :=
  decide (a.num * b.den ≤ b.num * a.den)

def lt (a b : Ratio) : Bool :=
  decide (a.num * b.den < b.num * a.den)

/-- The distance of two quotients. -/
def dist (a b : Ratio) : Ratio :=
  let left := a.num * b.den
  let right := b.num * a.den
  ⟨if left ≤ right then right - left else left - right, a.den * b.den⟩

end Ratio

namespace Magnitude

def value (m : Magnitude) : Ratio :=
  .scaled m.significand 2 m.exponent

/-- The midpoint to the neighbour above. -/
def upper (m : Magnitude) : Ratio :=
  .scaled (2 * m.significand + 1) 2 (m.exponent - 1)

/-- The midpoint to the neighbour below. -/
def lower (m : Magnitude) : Ratio :=
  if m.atPower then .scaled (4 * m.significand - 1) 2 (m.exponent - 2)
  else .scaled (2 * m.significand - 1) 2 (m.exponent - 1)

/-- Whether a decimal reads back as the number. -/
def admits (m : Magnitude) (d : Decimal) : Bool :=
  let x := Ratio.scaled d.digits 10 d.exponent
  if m.significand % 2 = 0 then m.lower.le x && x.le m.upper
  else m.lower.lt x && x.lt m.upper

/-- The place of the first digit: the power of ten at or below the number. -/
def leadingPlace (m : Magnitude) : Int :=
  let v := m.value
  if v.den ≤ v.num then ((Nat.toDigits 10 (v.num / v.den)).length : Int) - 1
  else
    let places := ((List.range 400).takeWhile fun j => decide (v.num * Nat.pow 10 (j + 1) < v.den)).length
    Int.negSucc places

/-- The decimal with `count` digits that is best among the two around the number, if one of them
reads back. -/
def around? (m : Magnitude) (count : Nat) : Option Decimal :=
  let place := m.leadingPlace - ((count : Int) - 1)
  let unit := Ratio.scaled 1 10 place
  let below := m.value.num * unit.den / (m.value.den * unit.num)
  let down : Decimal := ⟨below, place⟩
  let up : Decimal := ⟨below + 1, place⟩
  let gap := fun (d : Decimal) => (Ratio.scaled d.digits 10 d.exponent).dist m.value
  match m.admits down, m.admits up with
  | true, true =>
    if (gap down).lt (gap up) then some down
    else if (gap up).lt (gap down) then some up
    else if below % 2 = 0 then some down
    else some up
  | true, false => some down
  | false, true => some up
  | false, false => none

/-- The shortest decimal; seventeen digits always suffice. -/
def shortest (m : Magnitude) : Decimal :=
  (((List.range 17).map (· + 1)).findSome? m.around?).getD ⟨0, 0⟩

end Magnitude

/-! ## Text of a decimal -/

/-- How a decimal is written: positionally when the place of its first digit is from
`leastPlace` to `greatestPlace`, else with an exponent, which has a sign always. -/
structure DecimalFormat where
  leastPlace : Int
  greatestPlace : Int
  deriving DecidableEq, Repr

namespace DecimalFormat

def zeros (n : Int) : List Char :=
  List.replicate n.toNat '0'

def write (format : DecimalFormat) (d : Decimal) : List Char :=
  let digits := Nat.toDigits 10 d.digits
  let trimmed := (digits.reverse.dropWhile (· = '0')).reverse
  let place := d.exponent + (digits.length : Int) - 1
  let count : Int := trimmed.length
  if format.leastPlace ≤ place && place ≤ format.greatestPlace then
    if place < 0 then ['0', '.'] ++ zeros (-place - 1) ++ trimmed
    else if count ≤ place + 1 then trimmed ++ zeros (place + 1 - count) ++ ['.', '0']
    else trimmed.take (place + 1).toNat ++ ['.'] ++ trimmed.drop (place + 1).toNat
  else
    let fraction := if count = 1 then [] else '.' :: trimmed.drop 1
    let sign := if place < 0 then '-' else '+'
    trimmed.take 1 ++ fraction ++ ['e', sign] ++ Nat.toDigits 10 place.natAbs

end DecimalFormat

end FieldFill
