import Mathlib.Algebra.Order.Field.Basic
import Mathlib.Algebra.Order.Field.Rat
import Mathlib.Data.Rat.Cast.Order
import Mathlib.Tactic.FieldSimp
import Mathlib.Tactic.Linarith
import Mathlib.Tactic.Ring
import Supergraph.Decimal.Basic

/-!
# Values of decimals

The digit row of a number stands for that number, begins with a zero only if it is `0`, and grows by
appending digits. A decimal is known by its sign and its absolute value, since it has no trailing
zeros; so `Decimal.eq_of_value` compares decimals that were reached on different ways.
-/

namespace Supergraph.Decimal

/-! ## Digit rows -/

theorem digit?_of_isDigit {c : Char} (h : c.isDigit = true) :
    (digit? c).getD 0 = c.toNat - '0'.toNat := by
  obtain ⟨hlow, hhigh⟩ : '0'.val ≤ c.val ∧ c.val ≤ '9'.val := by
    simpa [Char.isDigit] using h
  have hdigit : '0' ≤ c ∧ c ≤ '9' := ⟨hlow, hhigh⟩
  rw [digit?, if_pos hdigit]
  rfl

theorem ofDigits_eq {row : List Char} (h : ∀ c ∈ row, c.isDigit = true) :
    ofDigits row = Nat.ofDigitChars 10 row 0 := by
  rw [ofDigits, Nat.ofDigitChars_eq_foldl]
  exact List.foldl_ext _ _ _ fun value c hc => by rw [digit?_of_isDigit (h c hc)]

theorem isDigit_of_mem_digits {n : Nat} {c : Char} (h : c ∈ digits n) : c.isDigit = true :=
  Nat.isDigit_of_mem_toDigits (by decide) (by decide) h

theorem ofDigits_digits (n : Nat) : ofDigits (digits n) = n := by
  rw [ofDigits_eq fun _ => isDigit_of_mem_digits]
  exact Nat.ofDigitChars_ten_toDigits

theorem ofDigits_append (row places : List Char) :
    ofDigits (row ++ places) = 10 ^ places.length * ofDigits row + ofDigits places := by
  have hstep : ∀ (places : List Char) (value : Nat),
      places.foldl (fun value c => 10 * value + (digit? c).getD 0) value =
        10 ^ places.length * value + ofDigits places := by
    intro places
    induction places with
    | nil => simp [ofDigits]
    | cons c rest ih =>
      intro value
      rw [ofDigits, List.foldl_cons, List.foldl_cons, ih, ih (10 * 0 + _), List.length_cons]
      ring
  rw [ofDigits, List.foldl_append]
  exact hstep places _

theorem ofDigits_replicate (n : Nat) : ofDigits (List.replicate n '0') = 0 := by
  induction n with
  | zero => rfl
  | succ n ih =>
    have hzero : ofDigits ['0'] = 0 := by decide
    rw [List.replicate_succ', ofDigits_append, ih, hzero, Nat.mul_zero]

/-- A digit row that begins with a zero is that of zero. -/
theorem digits_eq_of_head?_eq {n : Nat} (h : (digits n).head? = some '0') : n = 0 := by
  have hchar : ∀ d < 10, Nat.digitChar d = '0' → d = 0 := by decide
  induction n using Nat.strong_induction_on with
  | _ n ih =>
    rw [digits, Nat.toDigits_eq_if (by decide)] at h
    by_cases hsmall : n < 10
    · rw [if_pos hsmall] at h
      exact hchar n hsmall (Option.some.inj h)
    · rw [if_neg hsmall, List.head?_append_of_ne_nil _ Nat.toDigits_ne_nil] at h
      have hless : n / 10 < n := Nat.div_lt_self (by omega) (by decide)
      have := ih (n / 10) hless h
      omega

theorem digits_ne_nil (n : Nat) : digits n ≠ [] := Nat.toDigits_ne_nil

/-! ## Values -/

/-- The absolute value of a decimal. -/
def value (d : Decimal) : ℚ := d.coefficient * (10 : ℚ) ^ d.exponent

theorem value_normalize (negative : Bool) (n : Nat) (k : Int) :
    (normalize negative n k).value = n * (10 : ℚ) ^ k := by
  fun_induction normalize negative n k with
  | case1 k => simp [value, zero]
  | case2 n k hn hten ih =>
    obtain ⟨m, rfl⟩ : 10 ∣ n := Nat.dvd_of_mod_eq_zero hten
    rw [ih, Nat.mul_div_cancel_left m (by decide), zpow_add₀ (by norm_num)]
    push_cast
    ring
  | case3 n k hn hten => rfl

theorem negative_normalize (negative : Bool) (n : Nat) (k : Int) :
    (normalize negative n k).negative = negative := by
  fun_induction normalize negative n k with
  | case1 k => rfl
  | case2 n k hn hten ih => exact ih
  | case3 n k hn hten => rfl

theorem value_eq_zero_iff (d : Decimal) : d.value = 0 ↔ d.coefficient = 0 := by
  simp [value, zpow_ne_zero]

/-- Two coefficients without trailing zeros that stand for the same value are equal. -/
theorem exponent_le_of_value_eq {m n : Nat} {j k : Int} (hm : m % 10 ≠ 0)
    (h : (m : ℚ) * 10 ^ j = n * 10 ^ k) : k ≤ j := by
  by_contra hlt
  obtain ⟨i, hi⟩ : ∃ i : Nat, k = j + (i + 1) := ⟨(k - j - 1).toNat, by omega⟩
  have hpower : (10 : ℚ) ^ k = 10 ^ j * (10 ^ i * 10) := by
    rw [hi, zpow_add₀ (by norm_num), ← Nat.cast_succ, zpow_natCast, pow_succ]
  have hten : (10 : ℚ) ^ j ≠ 0 := zpow_ne_zero _ (by norm_num)
  have hcast : (m : ℚ) = n * (10 ^ i * 10) := by
    rw [hpower] at h
    exact mul_right_cancel₀ hten (by linarith)
  have hnat : m = n * (10 ^ i * 10) := by exact_mod_cast hcast
  rw [← Nat.mul_assoc] at hnat
  omega

/-- **A decimal is known by its sign and its absolute value.** -/
theorem eq_of_value {d e : Decimal} (hnegative : d.negative = e.negative)
    (hvalue : d.value = e.value) : d = e := by
  have hzero : d.coefficient = 0 ↔ e.coefficient = 0 := by
    rw [← value_eq_zero_iff, ← value_eq_zero_iff, hvalue]
  obtain ⟨dn, dc, dk, hd⟩ := d
  obtain ⟨en, ec, ek, he⟩ := e
  obtain rfl : dn = en := hnegative
  simp only at hzero
  rcases hd with hd | ⟨rfl, rfl⟩
  · have hec : ec % 10 ≠ 0 := he.resolve_right fun h => by
      rw [hzero.2 h.1] at hd
      exact hd rfl
    obtain rfl : dk = ek :=
      le_antisymm (exponent_le_of_value_eq hec hvalue.symm) (exponent_le_of_value_eq hd hvalue)
    have hcast : (dc : ℚ) = ec := mul_right_cancel₀ (zpow_ne_zero _ (by norm_num)) hvalue
    obtain rfl : dc = ec := by exact_mod_cast hcast
    rfl
  · obtain rfl : ec = 0 := hzero.1 rfl
    rcases he with he | ⟨-, rfl⟩
    · exact absurd rfl he
    · rfl

end Supergraph.Decimal
