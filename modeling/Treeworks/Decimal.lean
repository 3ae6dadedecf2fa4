/-! Decimal text of binary64 numbers: the fewest digits that read back, positional between
10^-4 and 10^16. Also rounding to two places. -/
namespace Treeworks.Decimal

/-- A finite magnitude `mantissa * 2 ^ exponent`. -/
structure Dyadic where
  mantissa : Nat
  exponent : Int
  deriving DecidableEq, Inhabited

/-- The sign and magnitude of a finite number; none for infinities and not-a-number. -/
def decode (x : Float) : Option (Bool × Dyadic) :=
  let bits := x.toBits.toNat
  let negative := bits / Nat.pow 2 63 = 1
  let field : Nat := bits / Nat.pow 2 52 % Nat.pow 2 11
  let fraction : Nat := bits % Nat.pow 2 52
  if field = 2047 then none
  else if field = 0 then some (negative, ⟨fraction, -1074⟩)
  else some (negative, ⟨fraction + Nat.pow 2 52, (field : Int) - 1075⟩)

/-- A positive fraction as numerator and denominator, scaled by a power of ten. -/
def scaled (numerator : Nat) (twos : Int) (tens : Int) : Nat × Nat :=
  let n := numerator * Nat.pow 2 twos.toNat * Nat.pow 10 tens.toNat
  let d := Nat.pow 2 (-twos).toNat * Nat.pow 10 (-tens).toNat
  (n, d)

/-- Whether `digits * 10 ^ power` rounds to the number: it lies within half a gap on each side,
ends included when the mantissa is even. The gap below a power of two is half as wide. -/
def readsBack (x : Dyadic) (digits : Nat) (power : Int) : Bool :=
  let narrow := x.mantissa = Nat.pow 2 52 ∧ x.exponent ≠ -1074
  let low := if narrow then 4 * x.mantissa - 1 else 4 * x.mantissa - 2
  let high := 4 * x.mantissa + 2
  -- compare digits * 10 ^ power with bound * 2 ^ (exponent - 2)
  let (value, denominator) := scaled digits (2 - x.exponent) power
  let even := x.mantissa % 2 = 0
  if even then low * denominator ≤ value && value ≤ high * denominator
  else low * denominator < value && value < high * denominator

/-- The number of decimal digits before the point, at most one too many or too few by search:
the least `e` with the number below `10 ^ e`. -/
def pointPlace (x : Dyadic) : Int :=
  let guess : Int := ((Nat.log2 x.mantissa : Int) + x.exponent) * 30103 / 100000 - 1
  let below (e : Int) : Bool :=
    let (n, d) := scaled x.mantissa x.exponent (-e)
    n < d
  if below guess then guess
  else if below (guess + 1) then guess + 1
  else if below (guess + 2) then guess + 2
  else guess + 3

/-- The best candidate with a given number of digits: the nearer of the two grid neighbours that
read back, the even one on a tie. -/
def candidate? (x : Dyadic) (place : Int) (count : Nat) : Option (Nat × Int) :=
  let power := place - count
  let (n, d) := scaled x.mantissa x.exponent (-power)
  let down := n / d
  let rest := n % d
  let first := readsBack x down power
  let second := readsBack x (down + 1) power
  if first && second then
    if 2 * rest < d then some (down, power)
    else if 2 * rest > d then some (down + 1, power)
    else if down % 2 = 0 then some (down, power) else some (down + 1, power)
  else if first then some (down, power)
  else if second then some (down + 1, power)
  else none

/-- The fewest digits that read back, with the power of ten of the last one. -/
def shortest (x : Dyadic) : Nat × Int :=
  let place := pointPlace x
  ((List.range 17).findSome? fun i => candidate? x place (i + 1)).getD (0, 0)

/-- Digits without trailing zeros. -/
def trimmed : Nat → Nat × Int → Nat × Int
  | 0, d => d
  | fuel + 1, (digits, power) =>
    if digits ≠ 0 && digits % 10 = 0 then trimmed fuel (digits / 10, power + 1) else (digits, power)

/-- The text of digits with the last one at a power of ten. -/
def layout (digits : Nat) (power : Int) : String :=
  let ds := Nat.toDigits 10 digits
  let place : Int := ds.length + power
  if -4 < place && place ≤ 16 then
    if power ≥ 0 then String.ofList (ds ++ List.replicate power.toNat '0') ++ ".0"
    else if place ≤ 0 then "0." ++ String.ofList (List.replicate (-place).toNat '0' ++ ds)
    else String.ofList (ds.take place.toNat) ++ "." ++ String.ofList (ds.drop place.toNat)
  else
    let e := place - 1
    let size := toString e.natAbs
    let size := if size.length < 2 then "0" ++ size else size
    let mark := (if e < 0 then "e-" else "e+") ++ size
    match ds with
    | [d] => String.singleton d ++ mark
    | d :: rest => String.singleton d ++ "." ++ String.ofList rest ++ mark
    | [] => mark

/-- The text of a number. -/
def text (x : Float) : String :=
  match decode x with
  | none => if x.isNaN then "nan" else if x < 0 then "-inf" else "inf"
  | some (negative, magnitude) =>
    let sign := if negative then "-" else ""
    if magnitude.mantissa = 0 then sign ++ "0.0"
    else
      let (digits, power) := shortest magnitude
      let (digits, power) := trimmed 20 (digits, power)
      sign ++ layout digits power

/-- The text of a number among data, where infinities and not-a-number are words. -/
def literal (x : Float) : String :=
  match decode x with
  | none => if x.isNaN then "NaN" else if x < 0 then "-Infinity" else "Infinity"
  | some _ => text x

/-- Whether a number is the given whole number. -/
def isWhole (x : Float) (n : Int) : Bool :=
  match decode x with
  | none => false
  | some (negative, ⟨mantissa, exponent⟩) =>
    let m : Int := if negative then -mantissa else mantissa
    if exponent ≥ 0 then m * Nat.pow 2 exponent.toNat = n else m = n * Nat.pow 2 (-exponent).toNat

/-- A quotient rounded to the nearest whole number, a half to the even one. -/
def roundQuotient (n d : Nat) : Nat :=
  let q := n / d
  let r := n % d
  if 2 * r < d then q else if 2 * r > d then q + 1 else if q % 2 = 0 then q else q + 1

/-- A number rounded to two decimal places. -/
def hundredths (x : Float) : Float :=
  match decode x with
  | none => x
  | some (negative, magnitude) =>
    let (n, d) := scaled (magnitude.mantissa * 100) magnitude.exponent 0
    let rounded := Float.ofScientific (roundQuotient n d) true 2
    if negative then -rounded else rounded

/-- The number of a decimal with the given digits before and after the point and exponent. -/
def ofParts (negative : Bool) (digits : Nat) (power : Int) : Float :=
  let x := if power ≥ 0 then Float.ofScientific digits false power.toNat
    else Float.ofScientific digits true (-power).toNat
  if negative then -x else x

end Treeworks.Decimal
