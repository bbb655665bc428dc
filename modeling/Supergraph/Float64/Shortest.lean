import Supergraph.Float64.Basic

/-!
# Shortest decimals of floats

The shortest decimal of a float is the one with the fewest digits that reads back as it, and the one
nearest to the float among those. The reals that read back as `m · 2 ^ q` form an interval, whose
ends belong to it iff `m` is even. Where two shortest decimals are equally near, a `Tie` decides.
-/

namespace Supergraph.Float64

/-- Which of two shortest decimals stands for a float half-way between them: the one with the even
last digit, or the greater one in absolute value. -/
inductive Tie where
  | even
  | up
deriving DecidableEq, Repr, Inhabited

/-- Of `below` and the number after it, the one that the tie goes to. -/
def Tie.choose (below : Nat) : Tie → Nat
  | .even => below + below % 2
  | .up => below + 1

namespace Finite

/-- Whether the decimal `n · 10 ^ k` rounds to the absolute value of a float. In units of a quarter
of `2 ^ exponent` the interval of what does reaches from `4 · coefficient - 2` to
`4 · coefficient + 2`, its lower half being half as wide when the coefficient is the least of its
range. -/
def readsBack (f : Finite) (n : Nat) (k : Int) : Bool :=
  let m := f.coefficient
  let low := if m = leastCoefficient ∧ -1074 < f.exponent then 4 * m - 1 else 4 * m - 2
  let high := 4 * m + 2
  let g := ((Fraction.ofNat (4 * n)).scale 10 k).scale 2 (-f.exponent)
  if m % 2 = 0 then low * g.den ≤ g.num && g.num ≤ high * g.den
  else low * g.den < g.num && g.num < high * g.den

/-- Among the two neighbours of a float on the grid of multiples of `10 ^ k`, the nearest that
rounds to it. -/
def onGrid? (f : Finite) (tie : Tie) (k : Int) : Option Nat :=
  let g := f.magnitude.scale 10 (-k)
  let below := g.num / g.den
  let twice := 2 * (g.num % g.den)
  match f.readsBack below k, f.readsBack (below + 1) k with
  | true, true =>
    some (if twice < g.den then below else if g.den < twice then below + 1 else tie.choose below)
  | true, false => some below
  | false, true => some (below + 1)
  | false, false => none

/-- The exact value as a coefficient and a power of ten. -/
def exact (f : Finite) : Nat × Int :=
  if 0 ≤ f.exponent then (f.coefficient * Nat.pow 2 f.exponent.toNat, 0)
  else (f.coefficient * Nat.pow 5 (-f.exponent).toNat, f.exponent)

/-- The shortest decimal of a float. Seventeen digits always suffice. -/
def shortest (f : Finite) (tie : Tie) : Decimal :=
  if f.isZero then .zero f.negative
  else
    -- A first guess at the power of ten: `30103 / 100000` is close to the logarithm of two.
    let top := f.magnitude.floorLog 10
      (Int.fdiv (((f.coefficient.log2 : Int) + f.exponent) * 30103) 100000 - 1)
    let onGrid := fun i : Nat => (f.onGrid? tie (top - i)).map fun n => (n, top - (i : Int))
    let (n, k) := ((List.range 17).findSome? onGrid).getD f.exact
    .normalize f.negative n k

end Finite

/-- The float in positional notation, a tie going up; infinity is written `inf`. -/
def text : Float64 → List Char
  | .finite value =>
    let d := value.shortest .up
    d.signText ++ d.positional
  | .infinite negative => (if negative then ['-'] else []) ++ ['i', 'n', 'f']

example : (ofDecimal false 112589990684262625 (-2)).text = "1125899906842626.3".toList := by
  decide +kernel
example : (ofDecimal false 1 22).text = "10000000000000000000000".toList := by decide +kernel
example : (ofDecimal false 3 (-1)).text = "0.3".toList := by decide +kernel
example : ((ofDecimal false 112589990684262625 (-2)).finite?.map (·.shortest .even)) =
    some (.normalize false 11258999068426262 (-1)) := by decide +kernel

end Supergraph.Float64
