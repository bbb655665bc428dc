import Mathlib.Algebra.Order.Field.Power
import Supergraph.Float64.Shortest
import Supergraph.Proofs.Decimal.Values

/-!
# Shortest decimals tell floats apart

**Theorem (`shortest_injective`).** Floats with the same shortest decimal are equal.

**Proof.** The shortest decimal of a float lies among the reals that round to it
(`rounds_shortest`), whichever of its digits were chosen, and no real rounds to two floats of one
sign (`Rounds.unique`): of two intervals that meet, one ends where the other begins, and the floats
there are neighbours, of which only one has an even coefficient.
-/

namespace Supergraph

/-! ## Fractions -/

namespace Fraction

/-- The value of a fraction. -/
def toRat (f : Fraction) : ℚ := f.num / f.den

theorem den_scale_pos {f : Fraction} (h : 0 < f.den) {base : Nat} (hbase : 0 < base) (power : Int) :
    0 < (f.scale base power).den := by
  rw [scale]
  split
  · exact h
  · exact Nat.mul_pos h (Nat.pow_pos hbase)

theorem toRat_scale (f : Fraction) {base : Nat} (hbase : 0 < base) (power : Int) :
    (f.scale base power).toRat = f.toRat * (base : ℚ) ^ power := by
  have hne : (base : ℚ) ≠ 0 := by exact_mod_cast hbase.ne'
  rw [scale]
  split
  · obtain ⟨n, rfl⟩ := Int.eq_ofNat_of_zero_le ‹0 ≤ power›
    simp only [toRat, Int.toNat_natCast, Nat.pow_eq, zpow_natCast]
    push_cast
    ring
  · obtain ⟨n, hn⟩ := Int.eq_ofNat_of_zero_le (show 0 ≤ -power by omega)
    obtain rfl : power = -(n : Int) := by omega
    simp only [toRat, neg_neg, Int.toNat_natCast, Nat.pow_eq, zpow_neg, zpow_natCast]
    push_cast
    rw [div_mul_eq_div_div, div_eq_mul_inv _ ((base : ℚ) ^ n)]

theorem natCast_le_toRat_iff {f : Fraction} (h : 0 < f.den) (n : Nat) :
    (n : ℚ) ≤ f.toRat ↔ n * f.den ≤ f.num := by
  rw [toRat, le_div_iff₀ (by exact_mod_cast h)]
  exact_mod_cast Iff.rfl

theorem toRat_le_natCast_iff {f : Fraction} (h : 0 < f.den) (n : Nat) :
    f.toRat ≤ n ↔ f.num ≤ n * f.den := by
  rw [toRat, div_le_iff₀ (by exact_mod_cast h)]
  exact_mod_cast Iff.rfl

end Fraction

namespace Float64.Finite

/-! ## The reals that round to a float -/

/-- The least of the reals that round to a float, in units of a quarter of its last place. -/
def lowEnd (f : Finite) : Nat :=
  if f.coefficient = leastCoefficient ∧ -1074 < f.exponent then 4 * f.coefficient - 1
  else 4 * f.coefficient - 2

/-- Whether a real that is not negative rounds to the absolute value of a float. -/
def Rounds (f : Finite) (x : ℚ) : Prop :=
  let y := 4 * x * (2 : ℚ) ^ (-f.exponent)
  if f.coefficient % 2 = 0 then f.lowEnd ≤ y ∧ y ≤ (4 * f.coefficient + 2 : Nat)
  else f.lowEnd < y ∧ y < (4 * f.coefficient + 2 : Nat)

theorem readsBack_iff (f : Finite) (n : Nat) (k : Int) :
    f.readsBack n k = true ↔ f.Rounds (n * (10 : ℚ) ^ k) := by
  set g := ((Fraction.ofNat (4 * n)).scale 10 k).scale 2 (-f.exponent) with hg
  have hpos : 0 < g.den :=
    Fraction.den_scale_pos (Fraction.den_scale_pos Nat.one_pos (by decide) _) (by decide) _
  have hvalue : 4 * (n * (10 : ℚ) ^ k) * (2 : ℚ) ^ (-f.exponent) = g.toRat := by
    rw [hg, Fraction.toRat_scale _ (by decide), Fraction.toRat_scale _ (by decide)]
    simp only [Fraction.toRat, Fraction.ofNat]
    push_cast
    ring
  have hreads : f.readsBack n k = if f.coefficient % 2 = 0 then
      decide (f.lowEnd * g.den ≤ g.num) && decide (g.num ≤ (4 * f.coefficient + 2) * g.den)
    else decide (f.lowEnd * g.den < g.num) &&
      decide (g.num < (4 * f.coefficient + 2) * g.den) := rfl
  have hlow := Fraction.natCast_le_toRat_iff hpos f.lowEnd
  have hhigh := Fraction.toRat_le_natCast_iff hpos (4 * f.coefficient + 2)
  have hlow' := Fraction.toRat_le_natCast_iff hpos f.lowEnd
  have hhigh' := Fraction.natCast_le_toRat_iff hpos (4 * f.coefficient + 2)
  rw [hreads, Rounds, hvalue]
  split
  · rw [Bool.and_eq_true, decide_eq_true_eq, decide_eq_true_eq, hlow, hhigh]
  · rw [Bool.and_eq_true, decide_eq_true_eq, decide_eq_true_eq, ← not_le, ← not_le, ← not_le,
      ← not_le, hlow', hhigh']

theorem Rounds.bounds {f : Finite} {x : ℚ} (h : f.Rounds x) :
    (f.lowEnd : ℚ) ≤ 4 * x * (2 : ℚ) ^ (-f.exponent) ∧
      4 * x * (2 : ℚ) ^ (-f.exponent) ≤ (4 * f.coefficient + 2 : Nat) := by
  rw [Rounds] at h
  split at h
  · exact h
  · exact ⟨h.1.le, h.2.le⟩

/-- The ends of the interval belong to it only if the coefficient is even. -/
theorem Rounds.even {f : Finite} {x : ℚ} (h : f.Rounds x)
    (hend : 4 * x * (2 : ℚ) ^ (-f.exponent) = f.lowEnd ∨
      4 * x * (2 : ℚ) ^ (-f.exponent) = (4 * f.coefficient + 2 : Nat)) :
    f.coefficient % 2 = 0 := by
  by_contra hodd
  rw [Rounds, if_neg hodd] at h
  rcases hend with hend | hend
  · exact absurd hend h.1.ne'
  · exact absurd hend h.2.ne

theorem four_mul_sub_two_le_lowEnd (f : Finite) : 4 * f.coefficient - 2 ≤ f.lowEnd := by
  rw [lowEnd]
  split <;> omega

theorem Rounds.coefficient_le {f g : Finite} {x : ℚ} (hf : f.Rounds x) (hg : g.Rounds x)
    (hexponent : f.exponent = g.exponent) : g.coefficient ≤ f.coefficient := by
  by_contra hlt
  have hlow := four_mul_sub_two_le_lowEnd g
  have hends : g.lowEnd ≤ 4 * f.coefficient + 2 := by
    have := hg.bounds.1.trans (hexponent ▸ hf.bounds.2)
    exact_mod_cast this
  -- The intervals of neighbours meet at one point, which would belong to both.
  have hmeet : g.lowEnd = 4 * f.coefficient + 2 ∧ g.coefficient = f.coefficient + 1 := by omega
  have hpoint : 4 * x * (2 : ℚ) ^ (-f.exponent) = (4 * f.coefficient + 2 : Nat) :=
    le_antisymm hf.bounds.2 (hmeet.1 ▸ hexponent ▸ hg.bounds.1)
  have hevenf := hf.even (.inr hpoint)
  have heveng := hg.even (.inl (by rw [← hexponent, hpoint, hmeet.1]))
  omega

theorem Rounds.exponent_le {f g : Finite} {x : ℚ} (hf : f.Rounds x) (hg : g.Rounds x) :
    g.exponent ≤ f.exponent := by
  by_contra hlt
  obtain ⟨hfc, hfe, -, -⟩ := f.normal
  have hgc : leastCoefficient ≤ g.coefficient := g.normal.2.2.2.resolve_right (by omega)
  obtain ⟨d, hd⟩ : ∃ d : Nat, g.exponent = f.exponent + (d + 1) :=
    ⟨(g.exponent - f.exponent - 1).toNat, by omega⟩
  have hscale : 4 * x * (2 : ℚ) ^ (-f.exponent) =
      4 * x * (2 : ℚ) ^ (-g.exponent) * (2 ^ d * 2) := by
    have hpower : -f.exponent = -g.exponent + ((d + 1 : Nat) : Int) := by omega
    rw [hpower, zpow_add₀ (by norm_num), zpow_natCast, pow_succ]
    ring
  have hone : (1 : ℚ) ≤ 2 ^ d := one_le_pow₀ (by norm_num)
  -- The interval of the greater float begins where that of the smaller one ends, or above.
  have hlowEnd : 4 * leastCoefficient - 1 ≤ g.lowEnd := by
    rw [lowEnd]
    split <;> omega
  have hhigh : (4 * f.coefficient + 2 : Nat) ≤ ((4 * leastCoefficient - 1 : Nat) : ℚ) * 2 := by
    have : 4 * f.coefficient + 2 ≤ (4 * leastCoefficient - 1) * 2 := by
      rw [leastCoefficient] at hfc ⊢
      omega
    exact_mod_cast this
  have hlow : ((4 * leastCoefficient - 1 : Nat) : ℚ) ≤ 4 * x * (2 : ℚ) ^ (-g.exponent) :=
    le_trans (by exact_mod_cast hlowEnd) hg.bounds.1
  have hup : ((4 * leastCoefficient - 1 : Nat) : ℚ) * 2 ≤ 4 * x * (2 : ℚ) ^ (-f.exponent) := by
    rw [hscale]
    exact mul_le_mul hlow (by linarith) (by norm_num) ((Nat.cast_nonneg _).trans hlow)
  -- So they meet at one point, which the lower one does not have, as its coefficient is odd.
  have hpoint : 4 * x * (2 : ℚ) ^ (-f.exponent) = (4 * f.coefficient + 2 : Nat) :=
    le_antisymm hf.bounds.2 (hhigh.trans hup)
  have hends : 4 * f.coefficient + 2 = (4 * leastCoefficient - 1) * 2 := by
    have := le_antisymm hhigh (hpoint ▸ hup)
    exact_mod_cast this
  have heven := hf.even (.inr hpoint)
  rw [leastCoefficient] at hends
  omega

/-- **No real rounds to two floats** of one sign. -/
theorem Rounds.unique {f g : Finite} {x : ℚ} (hf : f.Rounds x) (hg : g.Rounds x)
    (hnegative : f.negative = g.negative) : f = g := by
  have hexponent := le_antisymm (hg.exponent_le hf) (hf.exponent_le hg)
  have hcoefficient :=
    le_antisymm (hg.coefficient_le hf hexponent.symm) (hf.coefficient_le hg hexponent)
  cases f
  cases g
  cases hnegative
  cases hexponent
  cases hcoefficient
  rfl

/-! ## The shortest decimal -/

theorem readsBack_of_onGrid? {f : Finite} {tie : Tie} {n : Nat} {k : Int}
    (h : f.onGrid? tie k = some n) : f.readsBack n k = true := by
  simp only [onGrid?] at h
  split at h
  · next hbelow habove =>
    obtain rfl := Option.some.inj h
    split
    · exact hbelow
    · split
      · exact habove
      · cases tie with
        | even =>
          rcases Nat.mod_two_eq_zero_or_one ((f.magnitude.scale 10 (-k)).num /
              (f.magnitude.scale 10 (-k)).den) with hparity | hparity <;>
            rw [Tie.choose, hparity] <;> assumption
        | up => exact habove
  · next hbelow habove =>
    obtain rfl := Option.some.inj h
    exact hbelow
  · next hbelow habove =>
    obtain rfl := Option.some.inj h
    exact habove
  · cases h

theorem rounds_exact (f : Finite) : f.Rounds (f.exact.1 * (10 : ℚ) ^ f.exact.2) := by
  have hvalue : (f.exact.1 : ℚ) * 10 ^ f.exact.2 = f.coefficient * (2 : ℚ) ^ f.exponent := by
    rw [exact]
    split
    · obtain ⟨n, hn⟩ := Int.eq_ofNat_of_zero_le ‹0 ≤ f.exponent›
      rw [hn]
      simp
    · -- A negative power of two is a power of five by one of ten.
      obtain ⟨n, hn⟩ := Int.eq_ofNat_of_zero_le (show 0 ≤ -f.exponent by omega)
      obtain hn' : f.exponent = -(n : Int) := by omega
      have hten : (10 : ℚ) ^ n = 5 ^ n * 2 ^ n := by rw [← mul_pow]; norm_num
      have hfive : (5 : ℚ) ^ n ≠ 0 := pow_ne_zero _ (by norm_num)
      simp only [hn', neg_neg, Int.toNat_natCast, Nat.pow_eq, zpow_neg, zpow_natCast, hten]
      push_cast
      field_simp
  have hpoint : 4 * ((f.exact.1 : ℚ) * 10 ^ f.exact.2) * (2 : ℚ) ^ (-f.exponent) =
      (4 * f.coefficient : Nat) := by
    have htwo : (2 : ℚ) ^ f.exponent ≠ 0 := zpow_ne_zero _ (by norm_num)
    rw [hvalue, zpow_neg]
    push_cast
    field_simp
  have hlow : f.coefficient % 2 = 0 ∨ f.lowEnd < 4 * f.coefficient := by
    rw [lowEnd]
    split <;> omega
  have hle : f.lowEnd ≤ 4 * f.coefficient := by
    rw [lowEnd]
    split <;> omega
  rw [Rounds, hpoint]
  split
  · exact ⟨by exact_mod_cast hle, by exact_mod_cast Nat.le_add_right _ 2⟩
  · next hodd =>
    exact ⟨by exact_mod_cast hlow.resolve_left hodd,
      by exact_mod_cast Nat.lt_add_of_pos_right two_pos⟩

/-- The coefficient and the power of ten that the shortest decimal is made of round to the float. -/
theorem exists_shortest_eq {f : Finite} (hzero : f.isZero = false) (tie : Tie) :
    ∃ n k, f.shortest tie = .normalize f.negative n k ∧ f.Rounds (n * (10 : ℚ) ^ k) := by
  rw [shortest, hzero]
  set top := f.magnitude.floorLog 10
    (Int.fdiv (((f.coefficient.log2 : Int) + f.exponent) * 30103) 100000 - 1)
  set onGrid := fun i : Nat => (f.onGrid? tie (top - i)).map fun n => (n, top - (i : Int))
  refine ⟨(((List.range 17).findSome? onGrid).getD f.exact).1,
    (((List.range 17).findSome? onGrid).getD f.exact).2, rfl, ?_⟩
  -- A float that no short decimal stands for is written out exactly.
  cases hfound : (List.range 17).findSome? onGrid with
  | none => exact rounds_exact f
  | some found =>
    obtain ⟨i, -, hi⟩ := List.exists_of_findSome?_eq_some hfound
    obtain ⟨n, hn, rfl⟩ := Option.map_eq_some_iff.1 hi
    exact (readsBack_iff f n _).1 (readsBack_of_onGrid? hn)

/-- The shortest decimal of a float has its sign, and rounds to it. -/
theorem rounds_shortest {f : Finite} (hzero : f.isZero = false) (tie : Tie) :
    (f.shortest tie).negative = f.negative ∧ f.Rounds (f.shortest tie).value := by
  obtain ⟨n, k, heq, hrounds⟩ := exists_shortest_eq hzero tie
  rw [heq, Decimal.value_normalize, Decimal.negative_normalize]
  exact ⟨rfl, hrounds⟩

theorem Rounds.ne_zero {f : Finite} {x : ℚ} (hzero : f.isZero = false) (h : f.Rounds x) :
    x ≠ 0 := by
  rintro rfl
  have hcoefficient : f.coefficient ≠ 0 := by simpa [isZero] using hzero
  have hlow := h.bounds.1
  have hlowEnd := four_mul_sub_two_le_lowEnd f
  simp only [mul_zero, zero_mul] at hlow
  have : f.lowEnd ≤ 0 := by exact_mod_cast hlow
  omega

theorem shortest_of_isZero {f : Finite} (hzero : f.isZero = true) (tie : Tie) :
    f.shortest tie = .zero f.negative := by
  rw [shortest, if_pos hzero]

theorem eq_zero_of_isZero {f : Finite} (hzero : f.isZero = true) : f = zero f.negative := by
  obtain ⟨negative, coefficient, exponent, normal⟩ := f
  obtain rfl : coefficient = 0 := of_decide_eq_true hzero
  obtain rfl : exponent = -1074 := normal.2.2.2.resolve_left (by decide)
  rfl

/-- The shortest decimal of a float is zero only if the float is. -/
theorem value_shortest_eq_zero_iff (f : Finite) (tie : Tie) :
    (f.shortest tie).value = 0 ↔ f.isZero = true := by
  cases hzero : f.isZero with
  | true => simp [shortest_of_isZero hzero, Decimal.value, Decimal.zero]
  | false => simpa using (rounds_shortest hzero tie).2.ne_zero hzero

/-- **Floats with the same shortest decimal are equal.** -/
theorem shortest_injective {f g : Finite} {tie : Tie} (h : f.shortest tie = g.shortest tie) :
    f = g := by
  have hsame : f.isZero = true ↔ g.isZero = true := by
    rw [← value_shortest_eq_zero_iff f tie, ← value_shortest_eq_zero_iff g tie, h]
  cases hf : f.isZero with
  | true =>
    have hg := hsame.1 hf
    rw [shortest_of_isZero hf, shortest_of_isZero hg] at h
    have hnegative : f.negative = g.negative := congrArg Decimal.negative h
    rw [eq_zero_of_isZero hf, eq_zero_of_isZero hg, hnegative]
  | false =>
    have hg : g.isZero = false := Bool.eq_false_iff.2 fun hg => by
      rw [hsame.2 hg] at hf
      cases hf
    obtain ⟨hnf, hrf⟩ := rounds_shortest hf tie
    obtain ⟨hng, hrg⟩ := rounds_shortest hg tie
    rw [h] at hnf hrf
    exact hrf.unique hrg (hnf.symm.trans hng)

end Float64.Finite

end Supergraph
