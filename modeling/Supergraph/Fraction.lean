/-!
# Fractions of natural numbers

Exact arithmetic for what rounds and compares numbers of any size. The denominators are positive; a
fraction need not be in lowest terms.
-/

namespace Supergraph

/-- A fraction of natural numbers. -/
structure Fraction where
  num : Nat
  den : Nat
deriving DecidableEq, Repr, Inhabited

namespace Fraction

def ofNat (n : Nat) : Fraction := ⟨n, 1⟩

def times (f g : Fraction) : Fraction := ⟨f.num * g.num, f.den * g.den⟩

/-- The quotient of a fraction and one that is not zero. -/
def dividedBy (f g : Fraction) : Fraction := ⟨f.num * g.den, f.den * g.num⟩

/-- A fraction times a power. -/
def scale (f : Fraction) (base : Nat) (power : Int) : Fraction :=
  if 0 ≤ power then ⟨f.num * base.pow power.toNat, f.den⟩
  else ⟨f.num, f.den * base.pow (-power).toNat⟩

/-- The whole number nearest to a fraction, a tie going to the even one. -/
def round (f : Fraction) : Nat :=
  let whole := f.num / f.den
  let twice := 2 * (f.num % f.den)
  if twice < f.den then whole
  else if f.den < twice then whole + 1
  else whole + whole % 2

/-- The greatest `k` with `base ^ k ≤ f`, given a guess that is at most two too small. -/
def floorLog (f : Fraction) (base : Nat) (guess : Int) : Int :=
  let reaches := fun k : Int => let g := f.scale base (-k); g.den ≤ g.num
  if reaches (guess + 2) then guess + 2
  else if reaches (guess + 1) then guess + 1
  else guess

example : (Fraction.mk 5 2).round = 2 ∧ (Fraction.mk 7 2).round = 4 := by decide
example : (Fraction.mk 1 3).scale 10 2 = ⟨100, 3⟩ := by decide
example : (Fraction.mk 999 1).floorLog 10 1 = 2 := by decide

end Fraction

end Supergraph
