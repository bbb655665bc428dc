/-!
# Decimal numbers

A `Decimal` is `± coefficient · 10 ^ exponent`, in the one form without trailing zeros in the
coefficient; zero keeps its sign. Two decimals are equal exactly when they have the same sign and
the same value, so a decimal is its own normal form.

A digit row has the most significant digit first.
-/

namespace Supergraph

/-- A finite decimal number in normal form. -/
structure Decimal where
  negative : Bool
  coefficient : Nat
  exponent : Int
  normal : coefficient % 10 ≠ 0 ∨ (coefficient = 0 ∧ exponent = 0)
deriving DecidableEq

namespace Decimal

instance : Repr Decimal where
  reprPrec d _ := repr (d.negative, d.coefficient, d.exponent)

/-- Zero, with a sign. -/
def zero (negative : Bool) : Decimal := ⟨negative, 0, 0, .inr ⟨rfl, rfl⟩⟩

/-- The decimal of the given sign with absolute value `coefficient · 10 ^ exponent`. -/
def normalize (negative : Bool) (coefficient : Nat) (exponent : Int) : Decimal :=
  if h : coefficient = 0 then zero negative
  else if h' : coefficient % 10 = 0 then normalize negative (coefficient / 10) (exponent + 1)
  else ⟨negative, coefficient, exponent, .inl h'⟩
termination_by coefficient

/-- The value of a decimal digit. -/
def digit? (c : Char) : Option Nat :=
  if '0' ≤ c ∧ c ≤ '9' then some (c.toNat - '0'.toNat) else none

/-- The number written by a digit row. Characters that are no digits count as zero. -/
def ofDigits (digits : List Char) : Nat :=
  digits.foldl (fun value c => 10 * value + (digit? c).getD 0) 0

def digits (n : Nat) : List Char := Nat.toDigits 10 n

/-- The sign as it is written: a minus or nothing. -/
def signText (d : Decimal) : List Char := if d.negative then ['-'] else []

/-- The absolute value in positional notation, without a point when it is whole. -/
def positional (d : Decimal) : List Char :=
  let row := digits d.coefficient
  if 0 ≤ d.exponent then row ++ List.replicate d.exponent.toNat '0'
  else
    let places := (-d.exponent).toNat
    if places < row.length then
      row.take (row.length - places) ++ '.' :: row.drop (row.length - places)
    else '0' :: '.' :: List.replicate (places - row.length) '0' ++ row

example : (normalize true 1500 (-2)).positional = "15".toList := by decide +kernel
example : (normalize false 25 (-3)).positional = "0.025".toList := by decide +kernel
example : (normalize false 1234 (-2)).positional = "12.34".toList := by decide +kernel

end Decimal

end Supergraph
