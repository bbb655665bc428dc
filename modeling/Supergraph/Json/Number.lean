import Supergraph.Float64.Shortest

/-!
# JSON numbers

A number is an integer of 64 bits, with or without sign, or a finite float.

Reading keeps as many leading digits as fit into 64 bits. They are rounded to a float, which the
power of ten is then applied to: the float nearest to the power multiplies or divides it, and the
result is rounded again. So the float that is read need not be the one nearest to the number. Powers
beyond `10 ^ 308` divide in several steps and never multiply anything but zero. A number without
fraction and exponent is an integer, except for `-0` and for one beyond 64 bits.

Writing takes the shortest decimal of a float, a tie going to the even digit, and keeps a fraction
or an exponent, so that it never reads back as an integer. It is positional while the point lies
within sixteen digits behind and five places before the first digit, and has an exponent beyond.
-/

namespace Supergraph

/-- A number. A float is told apart from an integer of the same value. -/
inductive Json.Number where
  | int (value : Int) (range : -9223372036854775808 ≤ value ∧ value < 18446744073709551616)
  | real (value : Float64.Finite)
deriving DecidableEq, Repr

namespace Json.Number

open Float64 (Finite)

/-- The number, with a zero that is a float taken as positive. -/
def unsignZero : Number → Number
  | .int value range => .int value range
  | .real value => .real (if value.isZero then .zero false else value)

/-! ## Reading -/

/-- The greatest power of ten that is a float. -/
def greatestPower : Nat := 308

/-- The float nearest to a power of ten. -/
def tenTo? (power : Nat) : Option Finite :=
  (Float64.nearest false (.ofNat (Nat.pow 10 power))).finite?

/-- A float divided by the greatest power of ten as often as the count says. -/
def shrink? (value : Finite) : Nat → Option Finite
  | 0 => some value
  | count + 1 =>
    if value.isZero then some value
    else do shrink? (← (value.dividedBy (← tenTo? greatestPower)).finite?) count

/-- A float times a power of ten, unless it is infinite. -/
def scale? (value : Finite) (power : Int) : Option Finite :=
  if 0 ≤ power then
    if value.isZero then some value
    else if power ≤ greatestPower then do (value.times (← tenTo? power.toNat)).finite?
    else none
  else
    let places := (-power).toNat
    let count := (places - 1) / greatestPower
    do ((← shrink? value count).dividedBy (← tenTo? (places - greatestPower * count))).finite?

/-- The integer with the given sign and magnitude. Negative zero is none, and neither is one that
does not fit in 64 bits. -/
def integer? (negative : Bool) (magnitude : Nat) : Option Number :=
  let value : Int := if negative then -magnitude else magnitude
  if h : -9223372036854775808 ≤ value ∧ value < 18446744073709551616 then
    if negative ∧ magnitude = 0 then none else some (.int value h)
  else none

/-- Appends digits to a coefficient as long as it fits in 64 bits, and gives the digits that are
left. -/
def absorb (coefficient : Nat) : List Char → Nat × List Char
  | [] => (coefficient, [])
  | digit :: rest =>
    let next := 10 * coefficient + (Decimal.digit? digit).getD 0
    if next < 18446744073709551616 then absorb next rest else (coefficient, digit :: rest)

/-- The number with the given sign, digits before and behind the point, and exponent, unless it is
out of range. -/
def ofDigits? (negative : Bool) (whole : List Char) (places : Option (List Char))
    (power : Option Int) : Option Number :=
  let (head, dropped) := absorb 0 whole
  let (coefficient, ignored) := absorb head (places.getD [])
  let exponent : Int :=
    power.getD 0 + dropped.length - ((places.getD []).length - ignored.length : Nat)
  -- Rounded before it is scaled and again after, so the nearest float may be missed.
  let real := do
    let value ← (Float64.nearest negative (.ofNat coefficient)).finite?
    return .real (← scale? value exponent)
  if places.isNone ∧ power.isNone ∧ dropped = [] then (integer? negative head).or real else real

/-! ## Writing -/

/-- An integer in decimal. -/
def integerText (n : Int) : List Char :=
  if n < 0 then '-' :: Decimal.digits n.natAbs else Decimal.digits n.natAbs

/-- A digit row with the point behind its first digit and an exponent, which has a sign. -/
def scientific (row : List Char) (exponent : Int) : List Char :=
  let power := (if exponent < 0 then '-' else '+') :: Decimal.digits exponent.natAbs
  match row with
  | [] => []
  | [digit] => digit :: 'e' :: power
  | digit :: places => digit :: '.' :: places ++ 'e' :: power

/-- A decimal, which shows a fraction or an exponent. -/
def realText (d : Decimal) : List Char :=
  let row := Decimal.digits d.coefficient
  -- How many digits stand in front of the point.
  let point := row.length + d.exponent
  if 0 ≤ d.exponent ∧ point ≤ 16 then d.signText ++ d.positional ++ ['.', '0']
  else if -5 < point ∧ point ≤ 16 then d.signText ++ d.positional
  else d.signText ++ scientific row (point - 1)

/-- A number as text. -/
def text : Number → List Char
  | .int n _ => integerText n
  | .real value => realText (value.shortest .even)

example : realText (.normalize false 15 (-1)) = "1.5".toList := by decide +kernel
example : realText (.normalize false 1 16) = "1e+16".toList := by decide +kernel
example : realText (.normalize true 15 (-7)) = "-1.5e-6".toList := by decide +kernel
example : realText (.zero true) = "-0.0".toList := by decide +kernel
example : ((ofDigits? false ['3'] (some ['3']) (some 30)).map text) =
    some "3.2999999999999997e+30".toList := by decide +kernel
example : ((ofDigits? true ['0'] none none).map text) = some "-0.0".toList := by decide +kernel
example : ofDigits? false ['1'] none (some 309) = none := by decide +kernel
example : ((ofDigits? false ['1'] none (some (-324))).map text) = some "0.0".toList := by
  decide +kernel

end Json.Number

end Supergraph
