import Mathlib.Algebra.Order.Field.Power
import Mathlib.Algebra.Order.Group.Unbundled.Abs
import ScriptEngine.Numeric.Shortest
import ScriptEngine.Proofs.Numbers.Rounding

/-!
Nine digits are enough. The code of a decimal number depends on its value alone and grows with it, so
that reading needs no power of ten beyond what a magnitude can hold. The neighbours of a magnitude on
the grid of its first nine digits are at most half a step away, a step is less than every gap near the
magnitude, and so the nearer neighbour reads back. The search for the shortest decimal number therefore
always finds one, and what it finds reads back.
-/
namespace ScriptEngine

/-! The value of a decimal number -/

namespace Decimal

def value (d : Decimal) : ℚ := d.digits * (10 : ℚ) ^ d.exponent

/-- The value as a number of units. -/
def inUnits (d : Decimal) : ℚ := d.value * 2 ^ 149

theorem exists_round (d : Decimal) :
    ∃ num den : Nat, 0 < den ∧ d.code = Magnitude.round num den ∧ (num : ℚ) / den = d.inUnits := by
  obtain ⟨digits, exponent⟩ := d
  by_cases hexponent : 0 ≤ exponent
  · obtain ⟨n, rfl⟩ := Int.eq_ofNat_of_zero_le hexponent
    refine ⟨_, 1, Nat.one_pos, by rw [code, if_pos hexponent], ?_⟩
    rw [Nat.cast_one, div_one, Nat.shiftLeft_eq, Nat.pow_eq, Int.toNat_natCast]
    push_cast [inUnits, value, zpow_natCast, Magnitude.unitBits]
    rfl
  · obtain ⟨n, hn⟩ := Int.eq_ofNat_of_zero_le (show 0 ≤ -exponent by omega)
    obtain rfl : exponent = -n := by omega
    have hpos : 0 < 10 ^ n := Nat.pow_pos (by decide)
    refine ⟨digits <<< Magnitude.unitBits, 10 ^ n, hpos, ?_, ?_⟩
    · simp [code, show ¬ (n = 0) from fun h => hexponent (by simp [h])]
    · rw [inUnits, value, zpow_neg, zpow_natCast, Nat.shiftLeft_eq]
      push_cast [Magnitude.unitBits]
      ring

/-- The code grows with the value. -/
theorem code_mono {d d' : Decimal} (h : d.inUnits ≤ d'.inUnits) : d.code ≤ d'.code := by
  obtain ⟨num, den, hden, hcode, hvalue⟩ := d.exists_round
  obtain ⟨num', den', hden', hcode', hvalue'⟩ := d'.exists_round
  rw [hcode, hcode']
  exact Magnitude.round_mono hden hden' (by rwa [hvalue, hvalue'])

/-- Decimal numbers of one value have one code, however many zeros they end with. -/
theorem code_congr {d d' : Decimal} (h : d.value = d'.value) : d.code = d'.code := by
  have hunits : d.inUnits = d'.inUnits := congrArg (· * 2 ^ 149) h
  exact (code_mono hunits.le).antisymm (code_mono hunits.ge)

theorem code_of_near {d : Decimal} {code : Nat} (hcode : code ≤ Magnitude.infinity)
    (hbelow : ∀ before, code = before + 1 →
      (2 * Magnitude.units code : ℚ) - Magnitude.gap before < 2 * d.inUnits)
    (habove : 2 * d.inUnits < (2 * Magnitude.units code : ℚ) + Magnitude.gap code) :
    d.code = code := by
  obtain ⟨num, den, hden, hround, hvalue⟩ := d.exists_round
  rw [← hvalue] at hbelow habove
  rw [hround]
  exact Magnitude.round_of_near hden hcode hbelow habove

/-- A code that the units of a decimal number reach is not above the code of the number. -/
theorem le_code {d : Decimal} {code : Nat} (hcode : code ≤ Magnitude.infinity)
    (h : (Magnitude.units code : ℚ) ≤ d.inUnits) : code ≤ d.code := by
  obtain ⟨num, den, hden, hround, hvalue⟩ := d.exists_round
  rw [hround]
  calc code = Magnitude.round (Magnitude.units code) 1 := (Magnitude.round_units hcode).symm
    _ ≤ Magnitude.round num den :=
      Magnitude.round_mono Nat.one_pos hden (by rwa [hvalue, Nat.cast_one, div_one])

/-- What is less than half a unit has the code of zero. -/
theorem code_eq_zero {d : Decimal} (h : 2 * d.inUnits < 1) : d.code = 0 := by
  refine code_of_near (Nat.zero_le _) (fun before hbefore => ?_) ?_
  · exact absurd hbefore (Nat.succ_ne_zero before).symm
  · simpa [Magnitude.units, Magnitude.fractionBits, Magnitude.gap] using h

/-! The number of digits -/

theorem lt_pow_digitCount (n : Nat) : n < 10 ^ digitCount n :=
  (Nat.length_toDigits_le_iff (by decide) Nat.length_toDigits_pos).1 le_rfl

theorem pow_digitCount_le {n : Nat} (hn : 0 < n) : 10 ^ (digitCount n - 1) ≤ n := by
  by_contra hlt
  rcases Nat.eq_zero_or_pos (digitCount n - 1) with hone | hmore
  · rw [hone] at hlt
    omega
  · have hle := (Nat.length_toDigits_le_iff (by decide) hmore).2 (not_le.1 hlt)
    change digitCount n ≤ digitCount n - 1 at hle
    omega

theorem digitCount_pos (n : Nat) : 0 < digitCount n := Nat.length_toDigits_pos

theorem value_lt (d : Decimal) : d.value < (10 : ℚ) ^ (digitCount d.digits + d.exponent) := by
  have hdigits : (d.digits : ℚ) < (10 : ℚ) ^ (digitCount d.digits : ℤ) := by
    rw [zpow_natCast]
    exact_mod_cast lt_pow_digitCount d.digits
  have hpower : (0 : ℚ) < 10 ^ d.exponent := by positivity
  rw [value, zpow_add₀ (by norm_num)]
  exact mul_lt_mul_of_pos_right hdigits hpower

theorem le_value {d : Decimal} (hd : d.digits ≠ 0) :
    (10 : ℚ) ^ (digitCount d.digits + d.exponent - 1) ≤ d.value := by
  have hpos := digitCount_pos d.digits
  have hdigits : (10 : ℚ) ^ ((digitCount d.digits - 1 : Nat) : ℤ) ≤ d.digits := by
    rw [zpow_natCast]
    exact_mod_cast pow_digitCount_le (Nat.pos_of_ne_zero hd)
  rw [show (digitCount d.digits + d.exponent - 1 : ℤ) = (digitCount d.digits - 1 : Nat) + d.exponent by
    omega, zpow_add₀ (by norm_num)]
  have hpower : (0 : ℚ) < 10 ^ d.exponent := by positivity
  exact mul_le_mul_of_nonneg_right hdigits hpower.le

end Decimal

/-! Reading a decimal number -/

theorem Magnitude.units_infinity : Magnitude.units Magnitude.infinity = 2 ^ 277 := by decide +kernel

namespace Decimal

/-- Without a digit, or with the first digit far behind the point, a number is less than half a unit. -/
theorem code_of_few_places {d : Decimal}
    (h : d.digits = 0 ∨ digitCount d.digits + d.exponent < -60) : d.code = 0 := by
  apply code_eq_zero
  rcases h with hdigits | hplaces
  · simp [inUnits, value, hdigits]
  · have hpower : (10 : ℚ) ^ (digitCount d.digits + d.exponent) ≤ 10 ^ (-61 : ℤ) :=
      zpow_le_zpow_right₀ (by norm_num) (by omega)
    have hvalue : d.value < 10 ^ (-61 : ℤ) := d.value_lt.trans_le hpower
    calc 2 * d.inUnits = d.value * 2 ^ 150 := by
          rw [inUnits]
          ring
      _ < 10 ^ (-61 : ℤ) * 2 ^ 150 := mul_lt_mul_of_pos_right hvalue (by positivity)
      _ < 1 := by norm_num

/-- With the first digit far before the point, a number is above all finite magnitudes. -/
theorem code_of_many_places {d : Decimal} (hdigits : d.digits ≠ 0)
    (hplaces : 60 < digitCount d.digits + d.exponent) : d.code = Magnitude.infinity := by
  refine d.code_le.antisymm (le_code le_rfl ?_)
  have hpower : (10 : ℚ) ^ (60 : ℤ) ≤ 10 ^ (digitCount d.digits + d.exponent - 1) :=
    zpow_le_zpow_right₀ (by norm_num) (by omega)
  have hvalue : (10 : ℚ) ^ (60 : ℤ) ≤ d.value := hpower.trans (le_value hdigits)
  calc (Magnitude.units Magnitude.infinity : ℚ) = 2 ^ 128 * 2 ^ 149 := by
        rw [Magnitude.units_infinity, Nat.cast_pow, ← pow_add]
        rfl
    _ ≤ 10 ^ (60 : ℤ) * 2 ^ 149 := mul_le_mul_of_nonneg_right (by norm_num) (by positivity)
    _ ≤ d.inUnits := mul_le_mul_of_nonneg_right hvalue (by positivity)

end Decimal

/-- A decimal number is read as the nearest number also where no power of ten is computed. -/
theorem Single.ofDecimal_eq (d : Decimal) : ofDecimal d = signed false d.code d.code_le := by
  unfold ofDecimal
  dsimp only
  split_ifs with hsmall hlarge
  · simp [zero, Decimal.code_of_few_places hsmall]
  · have hdigits : d.digits ≠ 0 := fun h => hsmall (Or.inl h)
    simp [infinite, Decimal.code_of_many_places hdigits hlarge]
  · rfl

/-! The neighbours of a magnitude -/

namespace Decimal

open Magnitude

/-- The number of units in one step of the grid of multiples of `10 ^ exponent`. -/
def step (exponent : ℤ) : ℚ := (10 : ℚ) ^ exponent * 2 ^ 149

theorem step_pos (exponent : ℤ) : 0 < step exponent := by
  unfold step
  positivity

theorem inUnits_eq (d : Decimal) : d.inUnits = d.digits * step d.exponent := by
  rw [inUnits, value, step, mul_assoc]

/-- The magnitude divided by a step, as the quotient that is computed. -/
theorem exists_steps (code : Nat) (exponent : ℤ) :
    ∃ num den : Nat, 0 < den ∧ (num : ℚ) = units code / step exponent * den ∧
      neighbours code exponent =
        if 2 * (num % den) < den then [⟨num / den, exponent⟩, ⟨num / den + 1, exponent⟩]
        else [⟨num / den + 1, exponent⟩, ⟨num / den, exponent⟩] := by
  by_cases hexponent : 0 ≤ exponent
  · obtain ⟨n, rfl⟩ := Int.eq_ofNat_of_zero_le hexponent
    have hpos : 0 < 10 ^ n <<< unitBits := by
      rw [Nat.shiftLeft_eq]
      positivity
    refine ⟨units code, 10 ^ n <<< unitBits, hpos, ?_, by simp [neighbours]⟩
    have hstep : step (n : ℤ) = (10 ^ n <<< unitBits : Nat) := by
      rw [step, zpow_natCast, Nat.shiftLeft_eq, Nat.cast_mul, Nat.cast_pow, Nat.cast_pow]
      rfl
    rw [hstep, div_mul_cancel₀]
    exact_mod_cast hpos.ne'
  · obtain ⟨n, hn⟩ := Int.eq_ofNat_of_zero_le (show 0 ≤ -exponent by omega)
    obtain rfl : exponent = -n := by omega
    refine ⟨units code * 10 ^ n, 1 <<< unitBits, by decide, ?_, ?_⟩
    · have hscale : ((1 <<< unitBits : Nat) : ℚ) = 2 ^ 149 := by
        rw [Nat.one_shiftLeft, Nat.cast_pow]
        rfl
      rw [step, zpow_neg, zpow_natCast, hscale]
      push_cast
      field_simp
    · simp [neighbours, show ¬ (n = 0) from fun h => hexponent (by simp [h])]

/-- Half a step in steps is half a step in units. -/
theorem distance_le {count q : ℚ} (exponent : ℤ) (h : |2 * (count - q)| ≤ 1) :
    |2 * (count * step exponent) - 2 * (q * step exponent)| ≤ step exponent := by
  have hstep := step_pos exponent
  calc |2 * (count * step exponent) - 2 * (q * step exponent)| =
        |2 * (count - q)| * step exponent := by
        rw [← abs_of_pos hstep, ← abs_mul, abs_of_pos hstep]
        ring_nf
    _ ≤ 1 * step exponent := mul_le_mul_of_nonneg_right h hstep.le
    _ = step exponent := one_mul _

/-- The first neighbour is at most half a step away. -/
theorem exists_near (code : Nat) (exponent : ℤ) :
    ∃ near far, neighbours code exponent = [near, far] ∧
      |2 * near.inUnits - 2 * units code| ≤ step exponent := by
  obtain ⟨num, den, hden, hnum, hneighbours⟩ := exists_steps code exponent
  have hpos : (0 : ℚ) < den := by exact_mod_cast hden
  have hstep := step_pos exponent
  have hdivision : (num : ℚ) = (num / den : Nat) * den + (num % den : Nat) := by
    exact_mod_cast (Nat.div_add_mod' num den).symm
  have hunits : (units code : ℚ) = num / den * step exponent := by
    rw [hnum]
    field_simp
  -- The distance in steps is the remainder, or what it lacks to a whole step.
  have hremainder : (num % den : Nat) < den := Nat.mod_lt num hden
  have hquotient : (num : ℚ) / den = (num / den : Nat) + (num % den : Nat) / den := by
    rw [hdivision]
    field_simp
  rw [hneighbours]
  split_ifs with hhalf
  · refine ⟨_, _, rfl, ?_⟩
    rw [inUnits_eq, hunits]
    apply distance_le
    have hless : (2 * (num % den : Nat) : ℚ) / den ≤ 1 := by
      rw [div_le_one hpos]
      exact_mod_cast hhalf.le
    have hnonneg : (0 : ℚ) ≤ (num % den : Nat) / den := by positivity
    rw [hquotient, abs_le]
    constructor <;> linarith [mul_div_assoc (2 : ℚ) (num % den : Nat) den]
  · refine ⟨_, _, rfl, ?_⟩
    rw [inUnits_eq, hunits]
    apply distance_le
    have hmore : 1 ≤ (2 * (num % den : Nat) : ℚ) / den := by
      rw [one_le_div hpos]
      exact_mod_cast not_lt.1 hhalf
    have hless : ((num % den : Nat) : ℚ) / den ≤ 1 := by
      rw [div_le_one hpos]
      exact_mod_cast hremainder.le
    rw [hquotient, abs_le]
    push_cast
    constructor <;> linarith [mul_div_assoc (2 : ℚ) (num % den : Nat) den]

/-! Nine digits -/

/-- A magnitude above zero reaches the power of ten of its first digit. -/
theorem step_places_le {code : Nat} (hcode : 0 < code) : step (places code - 1) ≤ units code := by
  have hunits : 0 < units code := by
    have hmono := units_strictMono hcode
    omega
  have hscaled : 0 < (units code * Nat.pow 10 60) >>> unitBits := by
    rw [Nat.shiftRight_eq_div_pow]
    refine Nat.div_pos ?_ (by positivity)
    calc 2 ^ unitBits ≤ 1 * Nat.pow 10 60 := by decide
      _ ≤ units code * Nat.pow 10 60 := Nat.mul_le_mul_right _ hunits
  have hpow := pow_digitCount_le hscaled
  rw [Nat.shiftRight_eq_div_pow, Nat.le_div_iff_mul_le (by positivity), ← Nat.shiftRight_eq_div_pow]
    at hpow
  have hpos := digitCount_pos ((units code * Nat.pow 10 60) >>> unitBits)
  unfold places step
  generalize digitCount ((units code * Nat.pow 10 60) >>> unitBits) = count at *
  obtain ⟨n, rfl⟩ : ∃ n, count = n + 1 := ⟨count - 1, by omega⟩
  have hpow : (10 : ℚ) ^ n * 2 ^ 149 ≤ units code * 10 ^ 60 := by exact_mod_cast hpow
  rw [show ((n + 1 : Nat) - 60 - 1 : ℤ) = n - (60 : Nat) by push_cast; ring,
    zpow_sub₀ (by norm_num), zpow_natCast, zpow_natCast, div_mul_eq_mul_div,
    div_le_iff₀ (by positivity)]
  exact hpow

theorem gap_mono {code code' : Nat} (h : code ≤ code') : gap code ≤ gap code' :=
  Nat.pow_le_pow_right (by decide) (Nat.sub_le_sub_right (Nat.div_le_div_right h) 1)

/-- On the grid of nine digits a step is less than the gap before the magnitude. -/
theorem step_lt_gap (before : Nat) : step (places (before + 1) - 9) < gap before := by
  have hplaces := step_places_le (Nat.succ_pos before)
  have hgap : (units (before + 1) : ℚ) ≤ 16777216 * gap before := by
    exact_mod_cast units_succ_le before
  have hpos : (0 : ℚ) < gap before := by exact_mod_cast gap_pos before
  have hstep : step (places (before + 1) - 1) = step (places (before + 1) - 9) * 10 ^ 8 := by
    rw [step, step, show (places (before + 1) - 1 : ℤ) = places (before + 1) - 9 + (8 : Nat) by
      push_cast; ring, zpow_add₀ (by norm_num), zpow_natCast]
    ring
  rw [hstep] at hplaces
  linarith

/-- On the grid of nine digits the first neighbour reads back. -/
theorem ofCode?_nine {code : Nat} (hpos : 0 < code) (hcode : code ≤ infinity) :
    ofCode? code 9 ≠ none := by
  obtain ⟨before, rfl⟩ : ∃ before, code = before + 1 := ⟨code - 1, by omega⟩
  obtain ⟨near, far, hneighbours, hdistance⟩ :=
    exists_near (before + 1) (places (before + 1) - (9 : Nat))
  have hnear := abs_le.1 hdistance
  have hstep : step (places (before + 1) - (9 : Nat)) < gap before := step_lt_gap before
  have hreads : near.code = before + 1 := by
    refine code_of_near hcode (fun other hother => ?_) ?_
    · obtain rfl : before = other := by omega
      linarith
    · have hmono : (gap before : ℚ) ≤ gap (before + 1) := by
        exact_mod_cast gap_mono (Nat.le_succ before)
      linarith
  rw [ofCode?, hneighbours, List.find?_cons_of_pos (by simpa using hreads)]
  simp

/-! The search -/

theorem code_of_ofCode? {code count : Nat} {d : Decimal} (h : ofCode? code count = some d) :
    d.code = code := by
  simpa using List.find?_some h

theorem value_trimPower (count : Nat) (d : Decimal) : (trimPower count d).value = d.value := by
  unfold trimPower
  split_ifs with hpower
  · have hdigits : (d.digits : ℚ) = 10 ^ count := by exact_mod_cast hpower
    rw [value, value, hdigits, zpow_add₀ (by norm_num), zpow_natCast]
    ring
  · rfl

/-- Whatever the search finds reads back. -/
theorem code_of_search {code : Nat} {counts : List Nat} {d : Decimal}
    (h : search code counts = some d) : d.code = code := by
  obtain ⟨count, -, hcount⟩ := List.exists_of_findSome?_eq_some h
  obtain ⟨found, hfound, rfl⟩ := Option.map_eq_some_iff.1 hcount
  rw [code_congr (value_trimPower count found)]
  exact code_of_ofCode? hfound

/-- The search finds something, if it comes to nine digits. -/
theorem search_ne_none {code : Nat} (hpos : 0 < code) (hcode : code ≤ infinity) {counts : List Nat}
    (hnine : 9 ∈ counts) : search code counts ≠ none := by
  intro hnone
  have hfails := List.findSome?_eq_none_iff.1 hnone 9 hnine
  exact ofCode?_nine hpos hcode (Option.map_eq_none_iff.1 hfails)

/-- The shortest decimal number of a magnitude above zero reads back. -/
theorem code_shortest {code : Nat} (hpos : 0 < code) (hcode : code ≤ infinity) :
    (shortest code).code = code := by
  have hnine : 9 ∈ [1, 2, 3, 4, 5, 6, 7, 8, 9] := by decide
  obtain ⟨d, hd⟩ := Option.ne_none_iff_exists'.1 (search_ne_none hpos hcode hnine)
  rw [shortest, hd, Option.getD_some]
  exact code_of_search hd

end Decimal

end ScriptEngine
