import Supergraph.Decimal.Basic
import Supergraph.Fraction

/-!
# Floats of 64 bits

A finite float is `± coefficient · 2 ^ exponent`. The coefficient has 53 bits, or fewer if the
exponent is the least one, -1074; so every float has one form, and zero keeps its sign.

A fraction is rounded to the nearest float, a tie going to the even coefficient. What rounds beyond
the greatest float is infinite. Products, quotients and decimals are rounded once, from their exact
values.
-/

namespace Supergraph.Float64

/-- The least coefficient of 53 bits, which is `2 ^ 52`. -/
def leastCoefficient : Nat := 4503599627370496

/-- Whether coefficient and exponent are in the form of a float. -/
abbrev IsNormal (coefficient : Nat) (exponent : Int) : Prop :=
  coefficient < 2 * leastCoefficient ∧ -1074 ≤ exponent ∧ exponent ≤ 971 ∧
    (leastCoefficient ≤ coefficient ∨ exponent = -1074)

/-- A finite float. -/
structure Finite where
  negative : Bool
  coefficient : Nat
  exponent : Int
  normal : IsNormal coefficient exponent
deriving DecidableEq

instance : Repr Finite where
  reprPrec f _ := repr (f.negative, f.coefficient, f.exponent)

end Float64

/-- A float that is finite or infinite. -/
inductive Float64 where
  | finite (value : Float64.Finite)
  | infinite (negative : Bool)
deriving DecidableEq, Repr

namespace Float64

/-- Zero, with a sign. -/
def Finite.zero (negative : Bool) : Finite := ⟨negative, 0, -1074, by decide⟩

/-- Whether a float is zero, of either sign. -/
def Finite.isZero (f : Finite) : Bool := f.coefficient = 0

def Finite.magnitude (f : Finite) : Fraction := (Fraction.ofNat f.coefficient).scale 2 f.exponent

/-- The float, unless it is infinite. -/
def finite? : Float64 → Option Finite
  | .finite value => some value
  | .infinite _ => none

/-! ## Rounding -/

/-- The float with the given parts. They are in normal form unless the exponent is too great. -/
def ofParts (negative : Bool) (coefficient : Nat) (exponent : Int) : Float64 :=
  if h : IsNormal coefficient exponent then .finite ⟨negative, coefficient, exponent, h⟩
  else .infinite negative

/-- The float nearest to a fraction, with a sign. The coefficient may round up to a power of two
with one bit too many. -/
def nearest (negative : Bool) (f : Fraction) : Float64 :=
  if f.num = 0 then .finite (.zero negative)
  else
    let top := f.floorLog 2 ((f.num.log2 : Int) - f.den.log2 - 1)
    -- Below the least exponent the coefficient has fewer bits.
    let exponent := max (top - 52) (-1074)
    let coefficient := (f.scale 2 (-exponent)).round
    if coefficient = 2 * leastCoefficient then ofParts negative leastCoefficient (exponent + 1)
    else ofParts negative coefficient exponent

def Finite.times (f g : Finite) : Float64 :=
  nearest (f.negative != g.negative) (f.magnitude.times g.magnitude)

/-- The rounded quotient of a float and one that is not zero. -/
def Finite.dividedBy (f g : Finite) : Float64 :=
  nearest (f.negative != g.negative) (f.magnitude.dividedBy g.magnitude)

/-- The float nearest to the decimal `± coefficient · 10 ^ exponent`. Magnitudes that are certainly
out of range are not computed. -/
def ofDecimal (negative : Bool) (coefficient : Nat) (exponent : Int) : Float64 :=
  let leading := ((Decimal.digits coefficient).length : Int) + exponent
  if coefficient = 0 ∨ leading < -330 then .finite (.zero negative)
  else if 310 < leading then .infinite negative
  else nearest negative ((Fraction.ofNat coefficient).scale 10 exponent)

example : ofDecimal false 1 (-1) = ofParts false 7205759403792794 (-56) := by decide +kernel
example : ofDecimal true 9007199254740993 0 = ofParts true leastCoefficient 1 := by decide +kernel
example : ofDecimal false 5 (-324) = ofParts false 1 (-1074) := by decide +kernel
example : ofDecimal false 2 308 = .infinite false := by decide +kernel

end Float64

end Supergraph
