import ScriptEngine.Numeric.Notation
import ScriptEngine.Proofs.Numbers.Literals
import ScriptEngine.Proofs.Numbers.Shortest

/-!
Numbers as they are written. Positional and scientific notation both spell a float literal: digits, a
point, digits and perhaps an exponent, and the literal has the value of the decimal number that is
written. The shortest decimal number of a magnitude reads back, and so does the text of every finite
number, with its sign before it.
-/
namespace ScriptEngine

/-! Rows of digits -/

namespace Digits

/-- The digit zero alone. -/
def zero : Digits where
  text := ['0']
  nonempty := by simp
  digits := by
    intro c hc
    rw [List.mem_singleton.1 hc]
    rfl

theorem number_zero : zero.number = 0 := rfl

theorem number_append (a b : Digits) :
    (a.append b).number = a.number * 10 ^ b.text.length + b.number := by
  rw [number, append, Nat.ofDigitChars_append, Nat.ofDigitChars_eq_ofDigitChars_zero, Nat.mul_comm]
  rfl

/-- Zeros after the digits. -/
def scale (count : Nat) (d : Digits) : Digits where
  text := d.text ++ List.replicate count '0'
  nonempty := by simp [d.nonempty]
  digits := by
    intro c hc
    rcases List.mem_append.1 hc with hc | hc
    · exact d.digits c hc
    · rw [List.eq_of_mem_replicate hc]
      decide

@[simp] theorem number_scale (count : Nat) (d : Digits) :
    (scale count d).number = d.number * 10 ^ count := by
  rw [number, scale, Nat.ofDigitChars_append, Nat.ofDigitChars_replicate_zero, Nat.mul_comm]
  rfl

/-- Zeros before the digits. -/
def pad (count : Nat) (d : Digits) : Digits where
  text := List.replicate count '0' ++ d.text
  nonempty := by simp [d.nonempty]
  digits := by
    intro c hc
    rcases List.mem_append.1 hc with hc | hc
    · rw [List.eq_of_mem_replicate hc]
      decide
    · exact d.digits c hc

@[simp] theorem number_pad (count : Nat) (d : Digits) : (pad count d).number = d.number := by
  rw [number, pad, Nat.ofDigitChars_append, Nat.ofDigitChars_replicate_zero, Nat.mul_zero]
  rfl

/-- The digits can be parted anywhere between the first and the last. -/
theorem exists_parts (d : Digits) {count : Nat} (hpos : 0 < count) (hcount : count < d.text.length) :
    ∃ front back : Digits, front.text = d.text.take count ∧ back.text = d.text.drop count ∧
      (front.append back).number = d.number := by
  have htake : d.text.take count ≠ [] := by
    rw [← List.length_pos_iff, List.length_take]
    omega
  have hdrop : d.text.drop count ≠ [] := by
    rw [← List.length_pos_iff, List.length_drop]
    omega
  refine ⟨⟨d.text.take count, htake, fun c hc => d.digits c (List.mem_of_mem_take hc)⟩,
    ⟨d.text.drop count, hdrop, fun c hc => d.digits c (List.mem_of_mem_drop hc)⟩, rfl, rfl, ?_⟩
  exact congrArg (Nat.ofDigitChars 10 · 0) (List.take_append_drop _ _)

theorem not_mem_text (d : Digits) {c : Char} (hc : c.isDigit = false) : c ∉ d.text := by
  intro hmem
  rw [d.digits c hmem] at hc
  exact absurd hc (by decide)

end Digits

/-! Notations as spellings -/

namespace Decimal

/-- Zeros at the end count as much as the exponent. -/
theorem value_scaled (digits count : Nat) (exponent : ℤ) :
    value ⟨digits * 10 ^ count, exponent⟩ = value ⟨digits, count + exponent⟩ := by
  rw [value, value, zpow_add₀ (by norm_num), zpow_natCast]
  push_cast
  ring

/-- The text is a float literal with a point, with or without an exponent, and has the value of the
decimal number. -/
def Spelled (d : Decimal) (scientific : Bool) (text : List Char) : Prop :=
  ∃ whole fraction exponent?, exponent?.isSome = scientific ∧
    text = (FloatSpelling.pointed whole fraction exponent?).text ∧
    (FloatSpelling.pointed whole fraction exponent?).decimal.value = d.value

/-- Zeros at the end of the digits are made up for by the exponent. -/
theorem spelled_of_number {d : Decimal} {whole fraction : Digits} {count : Nat}
    (exponent? : Option ExponentSpelling)
    (hnumber : (whole.append fraction).number = d.digits * 10 ^ count)
    (hexponent : exponent?.elim 0 ExponentSpelling.value - fraction.text.length = d.exponent - count) :
    d.Spelled exponent?.isSome (FloatSpelling.pointed whole fraction exponent?).text := by
  refine ⟨whole, fraction, exponent?, rfl, rfl, ?_⟩
  rw [FloatSpelling.decimal, hnumber, value_scaled, hexponent, add_sub_cancel]

/-- With places after the point, positional notation is digits on both sides of it. -/
theorem exists_pointed {d : Decimal} (hexponent : ¬ 0 ≤ d.exponent) :
    ∃ whole fraction : Digits, d.positional = String.ofList (whole.text ++ '.' :: fraction.text) ∧
      d.exponent = -fraction.text.length ∧ (whole.append fraction).number = d.digits := by
  have hlength : (Nat.toDigits 10 d.digits).length = (Digits.ofNat d.digits).text.length := rfl
  by_cases hinside : (-d.exponent).toNat < (Nat.toDigits 10 d.digits).length
  · have hpos : 0 < (Digits.ofNat d.digits).text.length - (-d.exponent).toNat := by omega
    obtain ⟨front, back, hfront, hback, hnumber⟩ :=
      (Digits.ofNat d.digits).exists_parts hpos (by omega)
    refine ⟨front, back, ?_, ?_, by rw [hnumber, Digits.number_ofNat]⟩
    · rw [positional, if_neg hexponent, if_pos hinside, hfront, hback]
      rfl
    · rw [hback, List.length_drop]
      omega
  · refine ⟨.zero, .pad ((-d.exponent).toNat - (Nat.toDigits 10 d.digits).length) (.ofNat d.digits),
      ?_, ?_, ?_⟩
    · rw [positional, if_neg hexponent, if_neg hinside]
      rfl
    · rw [Digits.pad, List.length_append, List.length_replicate]
      omega
    · rw [Digits.number_append, Digits.number_zero, Digits.number_pad, Digits.number_ofNat,
        Nat.zero_mul, Nat.zero_add]

/-- Positional notation, with a fraction where there was none. -/
theorem spelled_positional (d : Decimal) :
    d.Spelled false
      (if d.positional.contains '.' then d.positional else d.positional ++ ".0").toList := by
  rw [String.contains_char_eq]
  by_cases hexponent : 0 ≤ d.exponent
  · have htext : d.positional =
        String.ofList ((Digits.ofNat d.digits).scale d.exponent.toNat).text := by
      rw [positional, if_pos hexponent]
      rfl
    have hpoint : '.' ∉ d.positional.toList := by
      rw [htext, String.toList_ofList]
      exact Digits.not_mem_text _ rfl
    rw [decide_eq_false hpoint, if_neg Bool.false_ne_true, String.toList_append, htext,
      String.toList_ofList]
    have hnumber : (((Digits.ofNat d.digits).scale d.exponent.toNat).append .zero).number =
        d.digits * 10 ^ (d.exponent.toNat + 1) := by
      rw [Digits.number_append, Digits.number_scale, Digits.number_ofNat, Digits.number_zero]
      exact Nat.mul_assoc _ _ _
    refine spelled_of_number none hnumber ?_
    rw [Option.elim_none, Nat.cast_succ, Int.toNat_of_nonneg hexponent]
    change (0 : ℤ) - 1 = _
    omega
  · obtain ⟨whole, fraction, htext, hcount, hnumber⟩ := exists_pointed hexponent
    have hpoint : '.' ∈ d.positional.toList := by simp [htext]
    rw [decide_eq_true hpoint, if_pos rfl, htext, String.toList_ofList]
    have hsame : (whole.append fraction).number = d.digits * 10 ^ 0 := by
      rw [hnumber, Nat.pow_zero, Nat.mul_one]
    have hspelled : d.Spelled false (FloatSpelling.pointed whole fraction none).text :=
      spelled_of_number none hsame (by simp [hcount])
    rwa [FloatSpelling.text, Option.elim_none, List.append_nil] at hspelled

end Decimal

namespace ExponentSpelling

/-- How the exponent of scientific notation is written. -/
def ofInt (n : ℤ) : ExponentSpelling := ⟨true, if n < 0 then some true else none, .ofNat n.natAbs⟩

theorem text_ofInt (n : ℤ) : (ofInt n).text = 'E' :: (toString n).toList := by
  rw [toList_toString_int]
  by_cases hn : n < 0 <;> simp [text, ofInt, mark, sign, Single.sign, hn]

theorem value_ofInt (n : ℤ) : (ofInt n).value = n := by
  rw [value, ofInt, Digits.number_ofNat]
  by_cases hn : n < 0
  · rw [if_pos hn, if_pos rfl]
    omega
  · rw [if_neg hn, if_neg (Option.some_ne_none true).symm]
    omega

end ExponentSpelling

namespace Decimal

/-- Scientific notation has one digit before the point. A zero stands after it when there are no other
digits. -/
theorem exists_mantissa (d : Decimal) :
    ∃ (whole fraction : Digits) (count : Nat),
      d.scientific = String.ofList (whole.text ++ '.' :: fraction.text ++
        'E' :: (toString (d.exponent + (Digits.ofNat d.digits).text.length - 1)).toList) ∧
      (whole.append fraction).number = d.digits * 10 ^ count ∧
      (fraction.text.length : ℤ) = (Digits.ofNat d.digits).text.length - 1 + count := by
  have hlength : (Nat.toDigits 10 d.digits).length = (Digits.ofNat d.digits).text.length := rfl
  have hpos := List.length_pos_iff.2 (Digits.ofNat d.digits).nonempty
  by_cases hone : (Nat.toDigits 10 d.digits).length ≤ 1
  · refine ⟨.ofNat d.digits, .zero, 1, ?_, ?_, ?_⟩
    · rw [scientific, if_pos hone, List.take_of_length_le hone]
      rfl
    · rw [Digits.number_append, Digits.number_ofNat, Digits.number_zero]
      rfl
    · rw [show (Digits.ofNat d.digits).text.length = 1 by omega]
      rfl
  · obtain ⟨front, back, hfront, hback, hnumber⟩ :=
      (Digits.ofNat d.digits).exists_parts Nat.one_pos (by omega)
    refine ⟨front, back, 0, ?_, ?_, ?_⟩
    · rw [scientific, if_neg hone, hfront, hback]
      rfl
    · rw [hnumber, Digits.number_ofNat, Nat.pow_zero, Nat.mul_one]
    · rw [hback, List.length_drop]
      omega

theorem spelled_scientific (d : Decimal) : d.Spelled true d.scientific.toList := by
  obtain ⟨whole, fraction, count, htext, hnumber, hcount⟩ := d.exists_mantissa
  rw [htext, String.toList_ofList, ← ExponentSpelling.text_ofInt, List.append_assoc, List.cons_append]
  refine spelled_of_number (some (.ofInt _)) hnumber ?_
  rw [Option.elim_some, ExponentSpelling.value_ofInt]
  omega

/-! What a spelled text has -/

section Spelled

variable {d : Decimal} {scientific : Bool} {text : List Char}

theorem Spelled.exists_point (h : d.Spelled scientific text) :
    ∃ before digit after, text = before ++ '.' :: digit :: after ∧ digit.isDigit := by
  obtain ⟨whole, fraction, exponent?, -, rfl, -⟩ := h
  obtain ⟨digit, rest, hdigit⟩ := List.exists_cons_of_ne_nil fraction.nonempty
  refine ⟨whole.text, digit, rest ++ exponent?.elim [] ExponentSpelling.text, ?_, ?_⟩
  · rw [FloatSpelling.text, hdigit, List.cons_append]
  · exact fraction.digits digit (by rw [hdigit]; exact List.mem_cons_self)

theorem Spelled.exists_mark_iff (h : d.Spelled scientific text) :
    (∃ c ∈ text, c = 'e' ∨ c = 'E') ↔ scientific = true := by
  obtain ⟨whole, fraction, exponent?, rfl, rfl, -⟩ := h
  constructor
  · rintro ⟨c, hc, hmark⟩
    have hdigit : c.isDigit = false := by rcases hmark with rfl | rfl <;> rfl
    have hpoint : c ≠ '.' := by rcases hmark with rfl | rfl <;> decide
    cases exponent? with
    | some exponent => rfl
    | none =>
      simp [FloatSpelling.text, Digits.not_mem_text _ hdigit, hpoint] at hc
  · intro hexponent
    obtain ⟨exponent, rfl⟩ := Option.isSome_iff_exists.1 hexponent
    refine ⟨exponent.mark, ?_, ?_⟩
    · simp [FloatSpelling.text, ExponentSpelling.text]
    · cases hcapital : exponent.capital <;> simp [ExponentSpelling.mark, hcapital]

/-- With a sign before it and a semicolon after it the text comes to the number that the decimal
number is rounded to. -/
theorem Spelled.comesTo (h : d.Spelled scientific text) (negative : Bool) :
    ComesTo ((Single.sign negative).toList ++ (text ++ [';']))
      (.float (.signed negative d.code d.code_le)) := by
  obtain ⟨whole, fraction, exponent?, -, rfl, hvalue⟩ := h
  set f := FloatSpelling.pointed whole fraction exponent?
  have hcomes := (Spelling.float f).comesTo_statement rfl (l := .float (Single.ofDecimal f.decimal))
    rfl negative
  have hsigned : (Literal.float (Single.ofDecimal f.decimal)).signedValue negative =
      .float (.signed negative d.code d.code_le) := by
    have hcode : f.decimal.code = d.code := code_congr hvalue
    rw [Single.ofDecimal_eq]
    cases negative <;> simp [Literal.signedValue, Literal.toValue, UnaryOp.apply, Value.number,
      Single.neg, hcode]
  rwa [hsigned] at hcomes

end Spelled

end Decimal

/-! The text of a number -/

namespace Magnitude

/-- The magnitudes from a bound on are the codes from the first one that reaches it. -/
theorem succ_le_iff {before : Nat} {bound : ℚ} (hbelow : value before < bound)
    (habove : bound ≤ value (before + 1)) (code : Nat) :
    before + 1 ≤ code ↔ bound ≤ value code := by
  constructor
  · exact fun h => habove.trans (value_strictMono.monotone h)
  · intro h
    exact value_strictMono.lt_iff_lt.1 (hbelow.trans_le h)

theorem code_thousandth_le_iff (code : Nat) :
    Decimal.code ⟨1, -3⟩ ≤ code ↔ 1 / 1000 ≤ value code := by
  rw [show Decimal.code ⟨1, -3⟩ = 981668462 + 1 by decide +kernel]
  apply succ_le_iff
  · rw [value, div_lt_div_iff₀ (by positivity) (by norm_num), one_mul]
    exact_mod_cast (show units 981668462 * 1000 < 2 ^ 149 by decide +kernel)
  · rw [value, div_le_div_iff₀ (by norm_num) (by positivity), one_mul]
    exact_mod_cast (show 2 ^ 149 ≤ units (981668462 + 1) * 1000 by decide +kernel)

theorem code_ten_million_le_iff (code : Nat) :
    Decimal.code ⟨1, 7⟩ ≤ code ↔ 10 ^ 7 ≤ value code := by
  rw [show Decimal.code ⟨1, 7⟩ = 1259902591 + 1 by decide +kernel]
  apply succ_le_iff
  · rw [value, div_lt_iff₀ (by positivity)]
    exact_mod_cast (show units 1259902591 < 10 ^ 7 * 2 ^ 149 by decide +kernel)
  · rw [value, le_div_iff₀ (by positivity)]
    exact_mod_cast (show 10 ^ 7 * 2 ^ 149 ≤ units (1259902591 + 1) by decide +kernel)

end Magnitude

namespace Single

def isFinite : Single → Bool
  | nan => false
  | signed _ code _ => code != Magnitude.infinity

theorem writtenPositionally_iff (code : Nat) :
    writtenPositionally code = true ↔
      Magnitude.value code = 0 ∨ 1 / 1000 ≤ Magnitude.value code ∧ Magnitude.value code < 10 ^ 7 := by
  have hzero : code = 0 ↔ Magnitude.value code = 0 := by
    rw [← Magnitude.value_strictMono.injective.eq_iff, Magnitude.value_zero]
  have hbelow : code < Decimal.code ⟨1, 7⟩ ↔ Magnitude.value code < 10 ^ 7 := by
    rw [← not_le, ← not_le, Magnitude.code_ten_million_le_iff]
  simp [writtenPositionally, hzero, hbelow, Magnitude.code_thousandth_le_iff]

theorem exists_spelled (negative : Bool) {code : Nat} (hcode : code ≤ Magnitude.infinity)
    (hfinite : code ≠ Magnitude.infinity) :
    ∃ (d : Decimal) (digits : List Char), d.code = code ∧
      d.Spelled (!writtenPositionally code) digits ∧
      (signed negative code hcode).text.toList = (sign negative).toList ++ digits := by
  by_cases hzero : code = 0
  · subst hzero
    refine ⟨⟨0, 0⟩, _, rfl, Decimal.spelled_positional ⟨0, 0⟩, ?_⟩
    have hdigits : Decimal.positional ⟨0, 0⟩ = positional 0 := by decide +kernel
    have hpositional : writtenPositionally 0 = true := rfl
    rw [text, if_neg hfinite, if_pos hpositional, String.toList_append, hdigits]
  · have hshortest := Decimal.code_shortest (Nat.pos_of_ne_zero hzero) hcode
    cases hpositional : writtenPositionally code with
    | true =>
      refine ⟨_, _, hshortest, Decimal.spelled_positional _, ?_⟩
      rw [text, if_neg hfinite, if_pos hpositional, positional, if_neg hzero, String.toList_append]
    | false =>
      refine ⟨_, _, hshortest, Decimal.spelled_scientific _, ?_⟩
      rw [text, if_neg hfinite, if_neg (by simp [hpositional]), String.toList_append]

/-- The text of a finite number has a digit after a point; it has an exponent exactly when the number
is neither zero nor between a thousandth and ten million; and as a statement it comes to the number. -/
theorem text_of_isFinite {x : Single} (hx : x.isFinite) :
    (∃ before digit after, x.text.toList = before ++ '.' :: digit :: after ∧ digit.isDigit) ∧
    ((∃ c ∈ x.text.toList, c = 'e' ∨ c = 'E') ↔
      x.magnitude ≠ 0 ∧ ¬ (1 / 1000 ≤ x.magnitude ∧ x.magnitude < 10 ^ 7)) ∧
    ComesTo (x.text.toList ++ [';']) (.float x) := by
  cases x with
  | nan => exact absurd hx (by decide)
  | signed negative code hcode =>
    have hfinite : code ≠ Magnitude.infinity := by simpa [isFinite] using hx
    obtain ⟨d, digits, rfl, hspelled, htext⟩ := exists_spelled negative hcode hfinite
    rw [htext]
    refine ⟨?_, ?_, ?_⟩
    · obtain ⟨before, digit, after, hdigits, hdigit⟩ := hspelled.exists_point
      exact ⟨(sign negative).toList ++ before, digit, after, by rw [hdigits, List.append_assoc], hdigit⟩
    · have hsign : ¬ ∃ c ∈ (sign negative).toList, c = 'e' ∨ c = 'E' := by
        cases negative <;> simp [sign]
      simp only [List.mem_append, or_and_right, exists_or, hspelled.exists_mark_iff]
      rw [or_iff_right hsign, magnitude, ← not_or, ← writtenPositionally_iff,
        Bool.not_eq_true', Bool.not_eq_true]
    · rw [List.append_assoc]
      exact hspelled.comesTo negative

/-- The least magnitude above zero, with a minus. -/
theorem text_of_isFinite_least :
    (signed true 1 (by decide)).isFinite ∧ (signed true 1 (by decide)).text = "-1.0E-45" ∧
    ComesTo "-1.0E-45;".toList (.float (signed true 1 (by decide))) := by
  have htext : (signed true 1 (by decide)).text = "-1.0E-45" := by decide +kernel
  have hcomes := (text_of_isFinite (show (signed true 1 (by decide)).isFinite from rfl)).2.2
  rw [htext] at hcomes
  exact ⟨rfl, htext, hcomes⟩

end Single

end ScriptEngine
