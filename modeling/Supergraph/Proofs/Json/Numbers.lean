import Mathlib.Data.List.TakeWhile
import Supergraph.Json.Parser
import Supergraph.Proofs.Float64.Shortest

/-!
# Texts of numbers

A number is spelled by a sign, digits, perhaps digits behind a point, and perhaps a power of ten
(`Spelling`). Wherever a spelling stands, as long as what follows it cannot go on with a number, the
reader finds exactly its parts (`run_spelling`). So the text of a number is read as what its
spelling stands for, which is the number itself for an integer, but not for every float
(`run_number`), and no two numbers have the same text (`text_unique`).
-/

namespace Supergraph.Json

/-- Nothing that follows a value goes on with it. -/
def EndsValue (rest : List Char) : Prop := ∀ c ∈ rest.head?, c = ',' ∨ c = ']' ∨ c = '\x7d'

theorem endsValue_nil : EndsValue [] := fun _ h => nomatch h

theorem EndsValue.ne {rest : List Char} (h : EndsValue rest) {c : Char}
    (hc : c ≠ ',' ∧ c ≠ ']' ∧ c ≠ '\x7d') : ∀ d ∈ rest.head?, d ≠ c := by
  rintro d hd rfl
  rcases h d hd with rfl | rfl | rfl
  · exact hc.1 rfl
  · exact hc.2.1 rfl
  · exact hc.2.2 rfl

namespace Number

/-! ## Spellings -/

/-- The parts of the text of a number. -/
structure Spelling where
  negative : Bool
  whole : List Char
  places : Option (List Char)
  power : Option Int
deriving DecidableEq

namespace Spelling

/-- The text of the digits behind a point. -/
def placesText : Option (List Char) → List Char
  | none => []
  | some row => '.' :: row

/-- The text of a power of ten, with its sign. -/
def powerText : Option Int → List Char
  | none => []
  | some power => 'e' :: (if power < 0 then '-' else '+') :: Decimal.digits power.natAbs

/-- The text with the given parts. -/
def chars (s : Spelling) : List Char :=
  (if s.negative then ['-'] else []) ++ (s.whole ++ (placesText s.places ++ powerText s.power))

/-- The number that is read from the given parts. -/
def number? (s : Spelling) : Option Number := ofDigits? s.negative s.whole s.places s.power

/-- A row of one or more digits. -/
def IsRow (row : List Char) : Prop := row ≠ [] ∧ ∀ c ∈ row, c.isDigit = true

/-- The digits are digits, and a zero does not stand in front of others. -/
structure IsProper (s : Spelling) : Prop where
  whole : IsRow s.whole
  leading : s.whole.head? = some '0' → s.whole = ['0']
  places : ∀ row ∈ s.places, IsRow row

/-- The absolute value. -/
def value (s : Spelling) : ℚ :=
  Decimal.ofDigits (s.whole ++ s.places.getD []) *
    (10 : ℚ) ^ (s.power.getD 0 - ((s.places.getD []).length : Int))

end Spelling

end Number

/-! ## Reading spellings -/

namespace Reader

open Number (Spelling)
open Number.Spelling (IsRow placesText powerText)

/-- A reader goes on where the one before it has stopped. -/
theorem run_bind_of_run {α β : Type} {first : Reader α} {next : α → Reader β} {a : α}
    {text rest : List Char} (h : first.run text = some (a, rest)) :
    (first >>= next).run text = (next a).run rest := by
  rw [StateT.run_bind, h]
  rfl

theorem run_charIfNext_self (c : Char) (rest : List Char) :
    (charIfNext c).run (c :: rest) = some (true, rest) := by
  simp [charIfNext, StateT.run]

theorem run_charIfNext_of_ne {c : Char} {rest : List Char} (h : ∀ d ∈ rest.head?, d ≠ c) :
    (charIfNext c).run rest = some (false, rest) := by
  cases rest with
  | nil => rfl
  | cons d rest =>
    have hne : d ≠ c := h d rfl
    simp [charIfNext, StateT.run, hne]

theorem run_peek (text : List Char) : peek.run text = some (text.head?, text) := rfl

/-- What follows a digit row is no digit. -/
def EndsDigits (rest : List Char) : Prop := ∀ c ∈ rest.head?, isDigit c = false

theorem run_digits {row rest : List Char} (hrow : IsRow row) (hrest : EndsDigits rest) :
    digits.run (row ++ rest) = some (row, rest) := by
  have hdigits : ∀ c ∈ row, isDigit c = true := hrow.2
  have hspan : rest.takeWhile isDigit = [] ∧ rest.dropWhile isDigit = rest := by
    cases rest with
    | nil => exact ⟨rfl, rfl⟩
    | cons c rest => simp [hrest c rfl]
  have hmany : (many isDigit).run (row ++ rest) = some (row, rest) := by
    show some (_, _) = _
    rw [List.takeWhile_append_of_pos hdigits, List.dropWhile_append_of_pos hdigits, hspan.1,
      hspan.2, List.append_nil]
  have hne : row.isEmpty = false := by simpa using hrow.1
  rw [digits, run_bind_of_run hmany, hne]
  rfl

theorem run_wholeDigits {row rest : List Char} (hrow : IsRow row)
    (hleading : row.head? = some '0' → row = ['0']) (hrest : EndsDigits rest) :
    wholeDigits.run (row ++ rest) = some (row, rest) := by
  -- No digit may follow a leading zero, so a proper row that begins with one ends with it.
  by_cases hzero : row.head? = some '0'
  · rw [hleading hzero]
    have hpeek : (rest.head?.map isDigit).getD false = false := by
      cases hhead : rest.head? with
      | none => rfl
      | some c => exact hrest c hhead
    rw [wholeDigits, List.cons_append, run_bind_of_run (run_charIfNext_self _ _), if_pos rfl,
      List.nil_append, run_bind_of_run (run_peek _), hpeek]
    rfl
  · have hother : (charIfNext '0').run (row ++ rest) = some (false, row ++ rest) := by
      refine run_charIfNext_of_ne fun d hd heq => hzero ?_
      rw [List.head?_append_of_ne_nil _ hrow.1] at hd
      exact heq ▸ hd
    rw [wholeDigits, run_bind_of_run hother]
    exact run_digits hrow hrest

theorem run_fraction {places : Option (List Char)} {rest : List Char}
    (hplaces : ∀ row ∈ places, IsRow row) (hrest : EndsDigits rest)
    (hpoint : ∀ c ∈ rest.head?, c ≠ '.') :
    fraction.run (placesText places ++ rest) = some (places, rest) := by
  cases places with
  | none =>
    rw [fraction, placesText, List.nil_append, run_bind_of_run (run_charIfNext_of_ne hpoint)]
    rfl
  | some row =>
    rw [fraction, placesText, List.cons_append, run_bind_of_run (run_charIfNext_self _ _),
      if_pos rfl, run_bind_of_run (run_digits (hplaces row rfl) hrest)]
    rfl

theorem isRow_digits (n : Nat) : IsRow (Decimal.digits n) :=
  ⟨Decimal.digits_ne_nil n, fun _ => Decimal.isDigit_of_mem_digits⟩

theorem run_exponent {power : Option Int} {rest : List Char} (hrest : EndsDigits rest)
    (hmark : ∀ c ∈ rest.head?, c ≠ 'e' ∧ c ≠ 'E') :
    exponent.run (powerText power ++ rest) = some (power, rest) := by
  cases power with
  | none =>
    have hother : ¬ (rest.head? = some 'e' ∨ rest.head? = some 'E') := by
      rintro (h | h)
      · exact (hmark _ h).1 rfl
      · exact (hmark _ h).2 rfl
    rw [exponent, powerText, List.nil_append, run_bind_of_run (run_peek _), if_neg hother]
    rfl
  | some power =>
    have hnext : ∀ (c : Char) (text : List Char), next.run (c :: text) = some (c, text) :=
      fun _ _ => rfl
    have hdigits := run_digits (isRow_digits power.natAbs) hrest
    have hvalue := Decimal.ofDigits_digits power.natAbs
    rw [exponent, powerText, List.cons_append, run_bind_of_run (run_peek _),
      if_pos (.inl (by rfl)), run_bind_of_run (hnext _ _), List.cons_append]
    by_cases hnegative : power < 0
    · rw [if_pos hnegative, run_bind_of_run (run_charIfNext_self _ _)]
      simp only [Bool.not_true, Bool.false_eq_true, if_false, if_true]
      rw [run_bind_of_run hdigits, hvalue]
      show some (some _, rest) = _
      congr 3
      omega
    · have hminus : (charIfNext '-').run ('+' :: (Decimal.digits power.natAbs ++ rest)) =
          some (false, '+' :: (Decimal.digits power.natAbs ++ rest)) :=
        run_charIfNext_of_ne (by simp)
      rw [if_neg hnegative, run_bind_of_run hminus]
      simp only [Bool.not_false, if_true, Bool.false_eq_true, if_false]
      rw [run_bind_of_run (run_charIfNext_self _ _), run_bind_of_run hdigits, hvalue]
      show some (some _, rest) = _
      congr 3
      omega

/-- Reads the parts of a number. -/
def spelling : Reader Spelling := do
  let negative ← charIfNext '-'
  let whole ← wholeDigits
  let places ← fraction
  return ⟨negative, whole, places, ← exponent⟩

theorem number_eq : number = (·.number?) <$> spelling := by
  simp only [number, spelling, map_bind, map_pure]
  rfl

theorem endsDigits_of_endsValue {rest : List Char} (h : EndsValue rest) : EndsDigits rest := by
  intro c hc
  rcases h c hc with rfl | rfl | rfl <;> decide

theorem head?_append_cases {text rest : List Char} {c d : Char} (hd : d ∈ (text ++ rest).head?)
    (htext : text.head? = some c ∨ text = []) : d = c ∨ d ∈ rest.head? := by
  rcases htext with htext | rfl
  · rw [List.head?_append, htext] at hd
    exact .inl (Option.some.inj hd).symm
  · exact .inr hd

theorem head?_powerText (power : Option Int) :
    (powerText power).head? = some 'e' ∨ powerText power = [] := by
  cases power with
  | none => exact .inr rfl
  | some power => exact .inl rfl

theorem head?_placesText (places : Option (List Char)) :
    (placesText places).head? = some '.' ∨ placesText places = [] := by
  cases places with
  | none => exact .inr rfl
  | some row => exact .inl rfl

/-- **The parts of a number are found again**, wherever its text stands. -/
theorem run_spelling {s : Spelling} (h : s.IsProper) {rest : List Char} (hrest : EndsValue rest) :
    spelling.run (s.chars ++ rest) = some (s, rest) := by
  -- From the back: a part begins with no digit and with no mark of the part before it.
  have hpower : exponent.run (powerText s.power ++ rest) = some (s.power, rest) :=
    run_exponent (endsDigits_of_endsValue hrest)
      fun c hc => ⟨hrest.ne (by decide) c hc, hrest.ne (by decide) c hc⟩
  have hpowerEnds : EndsDigits (powerText s.power ++ rest) := by
    intro c hc
    rcases head?_append_cases hc (head?_powerText s.power) with rfl | hc
    · decide
    · exact endsDigits_of_endsValue hrest c hc
  have hpowerPoint : ∀ c ∈ (powerText s.power ++ rest).head?, c ≠ '.' := by
    intro c hc
    rcases head?_append_cases hc (head?_powerText s.power) with rfl | hc
    · decide
    · exact hrest.ne (by decide) c hc
  have hplaces := run_fraction h.places hpowerEnds hpowerPoint
  have hplacesEnds : EndsDigits (placesText s.places ++ (powerText s.power ++ rest)) := by
    intro c hc
    rcases head?_append_cases hc (head?_placesText s.places) with rfl | hc
    · decide
    · exact hpowerEnds c hc
  have hwhole := run_wholeDigits h.whole h.leading hplacesEnds
  have hsign : (charIfNext '-').run (s.chars ++ rest) = some (s.negative,
      s.whole ++ (placesText s.places ++ (powerText s.power ++ rest))) := by
    obtain ⟨negative, whole, places, power⟩ := s
    cases negative with
    | true =>
      simp only [Spelling.chars, if_true, List.append_assoc, List.cons_append, List.nil_append]
      exact run_charIfNext_self _ _
    | false =>
      simp only [Spelling.chars, Bool.false_eq_true, if_false, List.append_assoc, List.nil_append]
      -- A number without a sign begins with a digit.
      refine run_charIfNext_of_ne fun d hd => ?_
      rw [List.head?_append_of_ne_nil _ h.whole.1] at hd
      rintro rfl
      exact absurd (h.whole.2 _ (List.mem_of_mem_head? hd)) (by decide)
  rw [spelling, run_bind_of_run hsign, run_bind_of_run hwhole, run_bind_of_run hplaces,
    run_bind_of_run hpower]
  rfl

/-- No proper spelling begins like another one and goes on differently. -/
theorem spelling_unique {s t : Spelling} (hs : s.IsProper) (ht : t.IsProper)
    {rest rest' : List Char} (hrest : EndsValue rest) (hrest' : EndsValue rest')
    (h : s.chars ++ rest = t.chars ++ rest') : s = t ∧ rest = rest' := by
  have hboth := (run_spelling hs hrest).symm.trans (h ▸ run_spelling ht hrest')
  exact Prod.mk.injEq .. ▸ Option.some.inj hboth

theorem run_number_chars {s : Spelling} (h : s.IsProper)
    {rest : List Char} (hrest : EndsValue rest) :
    number.run (s.chars ++ rest) = some (s.number?, rest) := by
  rw [number_eq, StateT.run_map, run_spelling h hrest]
  rfl

end Reader

/-! ## Spellings of decimals -/

namespace Number

open Spelling (IsRow)

/-- A spelling has the sign and the absolute value of a decimal, and is not that of an integer. -/
structure Spelling.IsOf (s : Spelling) (d : Decimal) : Prop where
  proper : s.IsProper
  negative : s.negative = d.negative
  value : s.value = d.value
  real : s.places.isSome ∨ s.power.isSome

theorem ofDigits_zero_cons (row : List Char) :
    Decimal.ofDigits ('0' :: row) = Decimal.ofDigits row := by
  have h := Decimal.ofDigits_append ['0'] row
  have hzero : Decimal.ofDigits ['0'] = 0 := by decide
  rw [hzero, Nat.mul_zero, Nat.zero_add] at h
  exact h

theorem isRow_append {row places : List Char} (h : IsRow row)
    (hplaces : ∀ c ∈ places, c.isDigit = true) : IsRow (row ++ places) :=
  ⟨List.append_ne_nil_of_left_ne_nil h.1 _, fun c hc =>
    (List.mem_append.1 hc).elim (h.2 c) (hplaces c)⟩

theorem isDigit_of_mem_replicate {n : Nat} {c : Char} (h : c ∈ List.replicate n '0') :
    c.isDigit = true := by
  rw [List.eq_of_mem_replicate h]
  decide

theorem coefficient_ne_zero {d : Decimal} (h : d.exponent ≠ 0) : d.coefficient ≠ 0 := fun hzero =>
  h (d.normal.resolve_left fun hne => hne (by rw [hzero])).2

/-- A whole number: its digits, zeros, and a zero behind the point. -/
theorem isOf_whole {d : Decimal} (h : 0 ≤ d.exponent) :
    Spelling.IsOf ⟨d.negative, Decimal.digits d.coefficient ++
      List.replicate d.exponent.toNat '0', some ['0'], none⟩ d where
  proper := {
    whole := isRow_append (Reader.isRow_digits _) fun _ => isDigit_of_mem_replicate
    leading := fun hhead => by
      rw [List.head?_append_of_ne_nil _ (Decimal.digits_ne_nil _)] at hhead
      have hzero := Decimal.digits_eq_of_head?_eq hhead
      -- The coefficient is zero, and then the decimal is normal only without an exponent.
      have hexponent : d.exponent = 0 := by
        by_contra hne
        exact coefficient_ne_zero hne hzero
      simp only [hzero, hexponent]
      decide
    places := fun row hrow => by
      obtain rfl := Option.some.inj hrow
      exact ⟨by decide, fun c hc => List.mem_singleton.1 hc ▸ rfl⟩ }
  negative := rfl
  value := by
    obtain ⟨n, hn⟩ := Int.eq_ofNat_of_zero_le h
    have hzero : Decimal.ofDigits ['0'] = 0 := by decide
    simp only [Spelling.value, Option.getD_some, Option.getD_none, Decimal.ofDigits_append,
      Decimal.ofDigits_digits, Decimal.ofDigits_replicate, hzero, hn, Int.toNat_natCast,
      List.length_replicate, List.length_singleton, Decimal.value]
    have htenth : (10 : ℚ) ^ ((0 : Int) - (1 : Nat)) = 1 / 10 := by norm_num
    rw [htenth, zpow_natCast]
    push_cast
    ring
  real := .inl rfl

/-- The digits with the point between them. -/
theorem isOf_pointed {d : Decimal} (h : d.exponent < 0) {places : Nat}
    (hplaces : d.exponent = -places) (hless : places < (Decimal.digits d.coefficient).length) :
    Spelling.IsOf ⟨d.negative,
      (Decimal.digits d.coefficient).take ((Decimal.digits d.coefficient).length - places),
      some ((Decimal.digits d.coefficient).drop ((Decimal.digits d.coefficient).length - places)),
      none⟩ d where
  proper := {
    whole := by
      refine ⟨fun hnil => ?_, fun c hc =>
        Decimal.isDigit_of_mem_digits (List.mem_of_mem_take hc)⟩
      have := congrArg List.length hnil
      rw [List.length_take, List.length_nil] at this
      omega
    leading := fun hhead => by
      rw [List.head?_take, if_neg (by omega)] at hhead
      exact absurd (Decimal.digits_eq_of_head?_eq hhead) (coefficient_ne_zero (by omega))
    places := fun row hrow => by
      obtain rfl := Option.some.inj hrow
      refine ⟨fun hnil => ?_, fun c hc => Decimal.isDigit_of_mem_digits (List.mem_of_mem_drop hc)⟩
      have := congrArg List.length hnil
      rw [List.length_drop, List.length_nil] at this
      omega }
  negative := rfl
  value := by
    simp only [Spelling.value, Option.getD_some, Option.getD_none, List.take_append_drop,
      Decimal.ofDigits_digits, List.length_drop, Decimal.value]
    rw [hplaces, Nat.sub_sub_self hless.le, zero_sub]
  real := .inl rfl

/-- A fraction below one: a zero, the point, zeros, and the digits. -/
theorem isOf_fraction {d : Decimal} {places : Nat} (hplaces : d.exponent = -places)
    (hle : (Decimal.digits d.coefficient).length ≤ places) :
    Spelling.IsOf ⟨d.negative, ['0'], some (List.replicate
      (places - (Decimal.digits d.coefficient).length) '0' ++ Decimal.digits d.coefficient),
      none⟩ d where
  proper := {
    whole := Reader.isRow_digits 0
    leading := fun _ => rfl
    places := fun row hrow => by
      obtain rfl := Option.some.inj hrow
      exact ⟨List.append_ne_nil_of_right_ne_nil _ (Decimal.digits_ne_nil _), fun c hc =>
        (List.mem_append.1 hc).elim isDigit_of_mem_replicate Decimal.isDigit_of_mem_digits⟩ }
  negative := rfl
  value := by
    simp only [Spelling.value, Option.getD_some, Option.getD_none, List.singleton_append,
      ofDigits_zero_cons, Decimal.ofDigits_append, Decimal.ofDigits_replicate,
      Decimal.ofDigits_digits, Nat.mul_zero, Nat.zero_add, List.length_append,
      List.length_replicate, Decimal.value]
    rw [Nat.sub_add_cancel hle, hplaces, zero_sub]
  real := .inl rfl

/-- A digit, the other digits behind the point, and a power of ten. -/
theorem isOf_scientific {d : Decimal} {digit : Char} {rest : List Char}
    (hrow : Decimal.digits d.coefficient = digit :: rest) :
    Spelling.IsOf ⟨d.negative, [digit], if rest = [] then none else some rest,
      some (rest.length + d.exponent)⟩ d where
  proper := {
    whole := ⟨by simp, fun c hc => Decimal.isDigit_of_mem_digits
      (hrow ▸ List.mem_cons.2 (.inl (List.mem_singleton.1 hc)))⟩
    leading := fun hhead => by rw [Option.some.inj hhead]
    places := fun row hplaces => by
      by_cases hnil : rest = []
      · rw [if_pos hnil] at hplaces
        cases hplaces
      · rw [if_neg hnil] at hplaces
        obtain rfl := Option.some.inj hplaces
        exact ⟨hnil, fun c hc => Decimal.isDigit_of_mem_digits (hrow ▸ List.mem_cons_of_mem _ hc)⟩ }
  negative := rfl
  value := by
    have hrest : (if rest = [] then none else some rest).getD [] = rest := by
      by_cases hnil : rest = []
      · rw [if_pos hnil, hnil]
        rfl
      · rw [if_neg hnil]
        rfl
    simp only [Spelling.value, hrest, List.singleton_append, ← hrow, Decimal.ofDigits_digits,
      Option.getD_some, add_sub_cancel_left, Decimal.value]
  real := .inr rfl

theorem positional_of_nonneg {d : Decimal} (h : 0 ≤ d.exponent) :
    d.positional = Decimal.digits d.coefficient ++ List.replicate d.exponent.toNat '0' := by
  rw [Decimal.positional, if_pos h]

theorem positional_of_neg {d : Decimal} {places : Nat} (hneg : d.exponent < 0)
    (hplaces : d.exponent = -places) :
    d.positional = if places < (Decimal.digits d.coefficient).length then
        (Decimal.digits d.coefficient).take ((Decimal.digits d.coefficient).length - places) ++
          '.' :: (Decimal.digits d.coefficient).drop
            ((Decimal.digits d.coefficient).length - places)
      else '0' :: '.' :: List.replicate (places - (Decimal.digits d.coefficient).length) '0' ++
        Decimal.digits d.coefficient := by
  have htoNat : (-d.exponent).toNat = places := by omega
  rw [Decimal.positional, if_neg (by omega), htoNat]

/-- The text of a decimal is spelled by its sign and its absolute value. -/
theorem exists_spelling (d : Decimal) : ∃ s : Spelling, s.IsOf d ∧ s.chars = realText d := by
  have hchars : ∀ whole places power, Spelling.chars ⟨d.negative, whole, places, power⟩ =
      d.signText ++ (whole ++ (Spelling.placesText places ++ Spelling.powerText power)) :=
    fun _ _ _ => rfl
  simp only [realText]
  split
  · next hwhole =>
    refine ⟨_, isOf_whole hwhole.1, ?_⟩
    rw [hchars, positional_of_nonneg hwhole.1]
    simp [Spelling.placesText, Spelling.powerText]
  · next hwhole =>
    split
    · next hpositional =>
      obtain ⟨places, hplaces⟩ := Int.eq_ofNat_of_zero_le (show 0 ≤ -d.exponent by omega)
      have hexponent : d.exponent = -(places : Int) := by omega
      have hneg : d.exponent < 0 := by omega
      -- The point stands among the digits, or zeros stand between it and them.
      by_cases hless : places < (Decimal.digits d.coefficient).length
      · refine ⟨_, isOf_pointed hneg hexponent hless, ?_⟩
        rw [hchars, positional_of_neg hneg hexponent, if_pos hless]
        simp [Spelling.placesText, Spelling.powerText]
      · refine ⟨_, isOf_fraction hexponent (Nat.le_of_not_lt hless), ?_⟩
        rw [hchars, positional_of_neg hneg hexponent, if_neg hless]
        simp [Spelling.placesText, Spelling.powerText]
    · cases hrow : Decimal.digits d.coefficient with
      | nil => exact absurd hrow (Decimal.digits_ne_nil _)
      | cons digit rest =>
        have hpoint :
            ((digit :: rest).length : Int) + d.exponent - 1 = rest.length + d.exponent := by
          rw [List.length_cons]
          omega
        refine ⟨_, isOf_scientific hrow, ?_⟩
        rw [hchars, hpoint]
        cases rest <;> simp [Spelling.placesText, Spelling.powerText, scientific]

/-! ## Spellings of numbers -/

/-- The text of a number is a proper spelling, which is that of no other number. -/
theorem exists_spelling_text (n : Number) : ∃ s : Spelling, s.IsProper ∧ s.chars = n.text ∧
    match n with
    | .int value _ => s = ⟨decide (value < 0), Decimal.digits value.natAbs, none, none⟩
    | .real value => s.IsOf (value.shortest .even) := by
  cases n with
  | int value range =>
    refine ⟨_, ⟨Reader.isRow_digits _, fun hhead => ?_, by simp⟩, ?_, rfl⟩
    · simp only [Decimal.digits_eq_of_head?_eq hhead]
      decide
    · by_cases hneg : value < 0 <;>
        simp [Spelling.chars, Spelling.placesText, Spelling.powerText, text, integerText, hneg]
  | real value =>
    obtain ⟨s, hs, htext⟩ := exists_spelling (value.shortest .even)
    exact ⟨s, hs.proper, htext, hs⟩

/-- **The text of a number is that of no other number**, wherever it stands. -/
theorem text_unique {m n : Number} {rest rest' : List Char} (hrest : EndsValue rest)
    (hrest' : EndsValue rest') (h : m.text ++ rest = n.text ++ rest') : m = n ∧ rest = rest' := by
  obtain ⟨s, hs, hstext, hsof⟩ := exists_spelling_text m
  obtain ⟨t, ht, httext, htof⟩ := exists_spelling_text n
  rw [← hstext, ← httext] at h
  obtain ⟨rfl, hrests⟩ := Reader.spelling_unique hs ht hrest hrest' h
  refine ⟨?_, hrests⟩
  cases m with
  | int value range =>
    cases n with
    | int value' range' =>
      obtain ⟨hneg, hdigits, -, -⟩ := Spelling.mk.injEq .. ▸ hsof.symm.trans htof
      have habs : value.natAbs = value'.natAbs := by
        rw [← Decimal.ofDigits_digits value.natAbs, hdigits, Decimal.ofDigits_digits]
      have hneg' : value < 0 ↔ value' < 0 := decide_eq_decide.1 hneg
      obtain rfl : value = value' := by omega
      rfl
    | real value' =>
      -- An integer has neither places nor a power, and a float has one of them.
      subst hsof
      rcases htof.real with h | h <;> cases h
  | real value =>
    cases n with
    | int value' range' =>
      subst htof
      rcases hsof.real with h | h <;> cases h
    | real value' =>
      have hdecimal : value.shortest .even = value'.shortest .even :=
        Decimal.eq_of_value (hsof.negative.symm.trans htof.negative)
          (hsof.value.symm.trans htof.value)
      rw [Float64.Finite.shortest_injective hdecimal]

/-- The text of a number begins with a minus or a digit. -/
theorem exists_head?_text (n : Number) :
    ∃ c, n.text.head? = some c ∧ (c = '-' ∨ c.isDigit = true) := by
  obtain ⟨s, hs, htext, -⟩ := exists_spelling_text n
  obtain ⟨c, hc⟩ : ∃ c, s.whole.head? = some c :=
    Option.ne_none_iff_exists'.1 fun hnil => hs.whole.1 (List.head?_eq_none_iff.1 hnil)
  rw [← htext, Spelling.chars]
  by_cases hnegative : s.negative
  · rw [if_pos hnegative]
    exact ⟨'-', rfl, .inl rfl⟩
  · rw [if_neg hnegative, List.nil_append, List.head?_append_of_ne_nil _ hs.whole.1]
    exact ⟨c, hc, .inr (hs.whole.2 c (List.mem_of_mem_head? hc))⟩

/-! ## Reading numbers again -/

/-- What the text of a number is read as. Floats need not come back. -/
def reread? (n : Number) : Option Number := (Reader.number.run n.text).bind (·.1)

/-- **A number is read as its own text is**, wherever that stands. -/
theorem run_number (n : Number) {rest : List Char} (hrest : EndsValue rest) :
    Reader.number.run (n.text ++ rest) = some (n.reread?, rest) := by
  obtain ⟨s, hs, htext, -⟩ := exists_spelling_text n
  have hown : Reader.number.run (s.chars ++ []) = some (s.number?, []) :=
    Reader.run_number_chars hs endsValue_nil
  rw [List.append_nil] at hown
  rw [reread?, ← htext, hown]
  exact Reader.run_number_chars hs hrest

theorem absorb_eq {coefficient : Nat} {row : List Char} (hrow : ∀ c ∈ row, c.isDigit = true)
    (h : 10 ^ row.length * coefficient + Decimal.ofDigits row < 18446744073709551616) :
    absorb coefficient row = (10 ^ row.length * coefficient + Decimal.ofDigits row, []) := by
  induction row generalizing coefficient with
  | nil => simp [absorb, Decimal.ofDigits]
  | cons digit rest ih =>
    have hvalue : 10 ^ (digit :: rest).length * coefficient + Decimal.ofDigits (digit :: rest) =
        10 ^ rest.length * (10 * coefficient + (Decimal.digit? digit).getD 0) +
          Decimal.ofDigits rest := by
      have hcons := Decimal.ofDigits_append [digit] rest
      rw [List.singleton_append] at hcons
      rw [hcons, List.length_cons, pow_succ]
      simp only [Decimal.ofDigits, List.foldl_cons, List.foldl_nil, Nat.mul_zero, Nat.zero_add]
      ring
    have hpower : 1 ≤ 10 ^ rest.length := Nat.one_le_pow _ _ (by decide)
    have hnext : 10 * coefficient + (Decimal.digit? digit).getD 0 < 18446744073709551616 := by
      refine lt_of_le_of_lt ?_ (hvalue ▸ h)
      exact (Nat.le_mul_of_pos_left _ hpower).trans (Nat.le_add_right _ _)
    rw [absorb, if_pos hnext, ih (fun c hc => hrow c (List.mem_cons_of_mem _ hc)) (hvalue ▸ h),
      hvalue]

/-- **An integer comes back.** -/
theorem reread?_int (value : Int)
    (range : -9223372036854775808 ≤ value ∧ value < 18446744073709551616) :
    reread? (.int value range) = some (.int value range) := by
  obtain ⟨s, hs, htext, rfl⟩ := exists_spelling_text (.int value range)
  have hown := Reader.run_number_chars hs endsValue_nil
  rw [List.append_nil, htext] at hown
  have hrow : ∀ c ∈ Decimal.digits value.natAbs, c.isDigit = true :=
    fun _ => Decimal.isDigit_of_mem_digits
  -- The digits of an integer fit in 64 bits, so none of them is dropped.
  have habsorb : absorb 0 (Decimal.digits value.natAbs) = (value.natAbs, []) := by
    have hsmall := Decimal.ofDigits_digits value.natAbs
    rw [absorb_eq hrow (by omega), hsmall, Nat.mul_zero, Nat.zero_add]
  have hinteger : integer? (decide (value < 0)) value.natAbs = some (.int value range) := by
    have hsigned :
        (if decide (value < 0) then -(value.natAbs : Int) else value.natAbs) = value := by
      by_cases hneg : value < 0
      · rw [if_pos (by simpa using hneg)]
        omega
      · rw [if_neg (by simpa using hneg)]
        omega
    simp only [integer?, hsigned]
    -- Only a zero with a minus would be read as a float.
    rw [dif_pos range, if_neg]
    simp only [decide_eq_true_eq]
    omega
  rw [reread?, hown, Option.bind_some, Spelling.number?, ofDigits?]
  simp only [habsorb]
  rw [if_pos (by simp), hinteger]
  rfl

end Number

end Supergraph.Json
