import ScriptEngine.Proofs.Numbers.Rounding
import ScriptEngine.Value.Operators

/-!
Division of any two values. The quotient of two integers is truncated and the remainder is what it
leaves, in 32-bit arithmetic; only the least integer divided by -1 has a quotient that does not fit. Of
the values that are cast to an integer only what is less than 1 in magnitude, or not a number, is cast
to zero, and the operators fail for zeros alone.
-/
namespace ScriptEngine

/-- `q` and `r` are the quotient and the remainder of `m` by `n`. -/
structure WholeDivision (m n q r : Int32) : Prop where
  sum : m = q * n + r
  smaller : r.toInt.natAbs < n.toInt.natAbs
  sign : r = 0 ∨ r.toInt.sign = m.toInt.sign
  quotient : ¬ (m = Int32.minValue ∧ n = -1) → q.toInt = m.toInt.tdiv n.toInt
  overflow : m = Int32.minValue ∧ n = -1 → q = Int32.minValue ∧ r = 0

theorem wholeDivision {m n : Int32} (hn : n ≠ 0) : WholeDivision m n (m / n) (m % n) where
  sum := by
    apply Int32.toInt_inj.1
    rw [Int32.toInt_add, Int32.toInt_mul, Int32.toInt_div, Int32.toInt_mod, Int.bmod_mul_bmod,
      Int.bmod_add_bmod, Int.mul_comm, Int.mul_tdiv_add_tmod]
    exact (Int32.toInt_bmod m).symm
  smaller := by
    rw [Int32.toInt_mod, Int.natAbs_tmod]
    exact Nat.mod_lt _ (Int.natAbs_pos.2 fun h => hn (Int32.toInt_inj.1 h))
  sign := by
    rw [← Int32.toInt_inj, Int32.toInt_mod]
    by_cases hdvd : n.toInt ∣ m.toInt
    · exact .inl (Int.tmod_eq_zero_of_dvd hdvd)
    · exact .inr (by rw [Int.sign_tmod, if_neg hdvd])
  quotient := by
    intro hfits
    by_cases hm : m = Int32.minValue
    · exact Int32.toInt_div_of_ne_right m n fun h => hfits ⟨hm, h⟩
    · exact Int32.toInt_div_of_ne_left m n hm
  overflow := by
    rintro ⟨rfl, rfl⟩
    decide

namespace Single

theorem truncate_eq_zero_iff (x : Single) : x.truncate = 0 ↔ x.isNaN ∨ x.magnitude < 1 := by
  cases x with
  | nan => simp [truncate, isNaN]
  | signed negative code hcode =>
    have hwhole : Magnitude.units code >>> Magnitude.unitBits = 0 ↔ Magnitude.value code < 1 := by
      rw [Nat.shiftRight_eq_div_pow, Nat.div_eq_zero_iff_lt (by positivity), Magnitude.value,
        div_lt_one (by positivity)]
      norm_cast
    simp only [truncate, isNaN, magnitude, Bool.false_eq_true, false_or, ← hwhole]
    generalize Magnitude.units code >>> Magnitude.unitBits = whole
    have hleast : Int32.minValue.toInt = -2147483648 := rfl
    have hgreatest : Int32.maxValue.toInt = 2147483647 := rfl
    have hzero : (0 : Int32).toInt = 0 := rfl
    cases negative with
    | true =>
      rw [if_pos rfl, ← Int32.toInt_inj, Int32.toInt_ofInt_of_le (by omega) (by omega)]
      omega
    | false =>
      rw [if_neg Bool.false_ne_true, ← Int32.toInt_inj,
        Int32.toInt_ofInt_of_le (by omega) (by omega)]
      omega

end Single

namespace Value

def isFloat : Value → Bool
  | float _ => true
  | _ => false

theorem number_of_not_isFloat {v : Value} (h : v.isFloat = false) : v.number = .integer v.toInt32 := by
  cases v with
  | float x => simp [isFloat] at h
  | _ => rfl

theorem exists_number_of_isFloat {v : Value} (h : v.isFloat) : ∃ x, v.number = .float x := by
  cases v with
  | float x => exact ⟨x, rfl⟩
  | _ => simp [isFloat] at h

/-- What the two operators of division do with any two values. -/
structure DivisionLaws (σ : Store) (x y : Value) : Prop where
  div_eq_error_iff : ∀ fault, BinaryOp.div.apply σ x y = .error fault ↔
    fault = .divisionByZero ∧ x.isFloat = false ∧ y.isFloat = false ∧ y.toInt32 = 0
  mod_eq_error_iff : ∀ fault, BinaryOp.mod.apply σ x y = .error fault ↔
    fault = .moduloByZero ∧ y.toInt32 = 0
  float_toInt32 : ∀ f, y = .float f → (y.toInt32 = 0 ↔ f.isNaN ∨ f.magnitude < 1)
  whole : x.isFloat = false → y.isFloat = false → y.toInt32 ≠ 0 →
    ∃ q r, BinaryOp.div.apply σ x y = .ok (.integer q) ∧
      BinaryOp.mod.apply σ x y = .ok (.integer r) ∧ WholeDivision x.toInt32 y.toInt32 q r

theorem divide_of_not_isFloat {x y : Value} (hx : x.isFloat = false) (hy : y.isFloat = false) :
    x.divide y =
      if y.toInt32 = 0 then .error .divisionByZero else .ok (.integer (x.toInt32 / y.toInt32)) := by
  rw [divide, number_of_not_isFloat hx, number_of_not_isFloat hy]

theorem divide_of_isFloat {x y : Value} (h : x.isFloat ∨ y.isFloat) :
    x.divide y = .ok (.float (x.number.toSingle.div y.number.toSingle)) := by
  rcases h with hx | hy
  · obtain ⟨f, hf⟩ := exists_number_of_isFloat hx
    rw [divide, hf]
  · obtain ⟨f, hf⟩ := exists_number_of_isFloat hy
    rw [divide, hf]
    cases x.number <;> rfl

theorem divisionLaws (σ : Store) (x y : Value) : DivisionLaws σ x y where
  div_eq_error_iff fault := by
    change x.divide y = _ ↔ _
    by_cases hfloat : x.isFloat ∨ y.isFloat
    · rw [divide_of_isFloat hfloat]
      refine iff_of_false (by simp) fun ⟨_, hx, hy, _⟩ => ?_
      simp [hx, hy] at hfloat
    · obtain ⟨hx, hy⟩ : x.isFloat = false ∧ y.isFloat = false := by simpa using hfloat
      rw [divide_of_not_isFloat hx hy]
      split_ifs with hzero <;> simp [hx, hy, hzero, eq_comm]
  mod_eq_error_iff fault := by
    change x.modulo y = _ ↔ _
    unfold modulo
    split_ifs with hzero <;> simp [hzero, eq_comm]
  float_toInt32 := by
    rintro f rfl
    exact f.truncate_eq_zero_iff
  whole hx hy hzero := by
    refine ⟨_, _, ?_, ?_, wholeDivision hzero⟩
    · exact (divide_of_not_isFloat hx hy).trans (if_neg hzero)
    · exact if_neg hzero

end Value

end ScriptEngine
