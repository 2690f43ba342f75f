import Mathlib.Algebra.Order.Field.Basic
import Mathlib.Algebra.Order.Field.Rat
import Mathlib.Order.Monotone.Basic
import Mathlib.Tactic.FieldSimp
import Mathlib.Tactic.Linarith
import Mathlib.Tactic.NormNum
import Mathlib.Tactic.Positivity
import Mathlib.Tactic.Ring
import ScriptEngine.Numeric.Rounding

/-!
Rounding by its rule. The units of the codes grow strictly, from each code to the next by the gap
between them. A quotient lies between two neighbouring codes, and rounding gives the nearer of them, of
two equally near the even one. So rounding depends on the value of the quotient alone, keeps the order,
and gives a code back for everything that is less than half a gap away from its units.
-/
namespace ScriptEngine

namespace Magnitude

/-- The number of units from a code to the next one. -/
def gap (code : Nat) : Nat := 2 ^ (code / 8388608 - 1)

theorem gap_pos (code : Nat) : 0 < gap code := Nat.two_pow_pos _

/-- In the first block a code is its number of units; in each later one there are units of one size. -/
theorem units_block (block : Nat) {fraction : Nat} (h : fraction < 8388608) :
    units (8388608 * block + fraction) =
      if block = 0 then fraction else (8388608 + fraction) * 2 ^ (block - 1) := by
  have hblock : (8388608 * block + fraction) / 8388608 = block := by omega
  have hfraction : (8388608 * block + fraction) % 8388608 = fraction := by omega
  by_cases hzero : block = 0
  · subst hzero
    simp [units, fractionBits, Nat.shiftRight_eq_div_pow, h]
  · simp [units, fractionBits, Nat.shiftRight_eq_div_pow, Nat.shiftLeft_eq, hblock, hfraction, hzero]

theorem exists_block (code : Nat) :
    ∃ block fraction, fraction < 8388608 ∧ code = 8388608 * block + fraction :=
  ⟨code / 8388608, code % 8388608, by omega, by omega⟩

theorem gap_block (block : Nat) {fraction : Nat} (h : fraction < 8388608) :
    gap (8388608 * block + fraction) = 2 ^ (block - 1) := by
  rw [gap, show (8388608 * block + fraction) / 8388608 = block by omega]

theorem units_succ (code : Nat) : units (code + 1) = units code + gap code := by
  obtain ⟨block, fraction, hfraction, rfl⟩ := exists_block code
  rw [gap_block block hfraction, units_block block hfraction]
  by_cases hlast : fraction + 1 < 8388608
  · rw [Nat.add_assoc, units_block block hlast]
    by_cases hzero : block = 0
    · simp [hzero]
    · rw [if_neg hzero, if_neg hzero]
      ring
  · obtain rfl : fraction = 8388607 := by omega
    have hnext := units_block (block + 1) (show 0 < 8388608 by decide)
    rw [if_neg (Nat.succ_ne_zero block), Nat.add_sub_cancel] at hnext
    rw [show 8388608 * block + 8388607 + 1 = 8388608 * (block + 1) + 0 by omega, hnext]
    cases block with
    | zero => rfl
    | succ block =>
      rw [if_neg (Nat.succ_ne_zero block), Nat.add_sub_cancel, Nat.pow_succ]
      ring

theorem units_strictMono : StrictMono units :=
  strictMono_nat_of_lt_succ fun code => by
    rw [units_succ]
    exact Nat.lt_add_of_pos_right (gap_pos code)

/-- The number that a finite code stands for. -/
def value (code : Nat) : ℚ := units code / 2 ^ 149

theorem value_strictMono : StrictMono value := fun code code' h => by
  have hunits : (units code : ℚ) < units code' := by exact_mod_cast units_strictMono h
  exact div_lt_div_of_pos_right hunits (by positivity)

theorem value_zero : value 0 = 0 := by simp [value, units]

/-- A gap is at least the part 2 ^ -24 of what comes after it. -/
theorem units_succ_le (code : Nat) : units (code + 1) ≤ 16777216 * gap code := by
  obtain ⟨block, fraction, hfraction, rfl⟩ := exists_block code
  rw [units_succ, gap_block block hfraction, units_block block hfraction]
  by_cases hzero : block = 0
  · rw [if_pos hzero, hzero]
    norm_num
    omega
  · have hsum : (8388608 + fraction) * 2 ^ (block - 1) + 2 ^ (block - 1) =
        (8388609 + fraction) * 2 ^ (block - 1) := by ring
    rw [if_neg hzero, hsum]
    exact Nat.mul_le_mul_right _ (by omega)

/-! The greatest code that is not too large -/

/-- From the second block on, the block is the one in which the leading digit of the units stands. -/
theorem exists_shift {u : Nat} (h : 8388608 ≤ u) :
    ∃ shift, u.log2 = 23 + shift ∧ 2 ^ 23 * 2 ^ shift ≤ u ∧ u < 2 ^ 24 * 2 ^ shift := by
  have hlog : 23 ≤ u.log2 := by
    rw [Nat.le_log2 (by omega)]
    omega
  obtain ⟨shift, hshift⟩ := Nat.exists_eq_add_of_le hlog
  refine ⟨shift, hshift, ?_, ?_⟩
  · rw [← Nat.pow_add, ← hshift]
    exact Nat.log2_self_le (by omega)
  · rw [← Nat.pow_add, show 24 + shift = u.log2 + 1 by omega]
    exact Nat.lt_log2_self

theorem floorCode_eq (u : Nat) :
    ∃ block fraction, fraction < 8388608 ∧ floorCode u = (8388608 * block + fraction, 2 ^ (block - 1)) ∧
      units (8388608 * block + fraction) ≤ u ∧
      u < units (8388608 * block + fraction) + 2 ^ (block - 1) := by
  by_cases hsmall : u < 8388608
  · have hlog : u.log2 - 23 = 0 := by
      by_cases hzero : u = 0
      · simp [hzero]
      · have := (Nat.log2_lt hzero).2 (show u < 2 ^ 23 by omega)
        omega
    refine ⟨0, u, hsmall, ?_, ?_⟩
    · simp [floorCode, fractionBits, hlog]
    · rw [units_block 0 hsmall]
      simp
  · obtain ⟨shift, hshift, hlow, hhigh⟩ := exists_shift (not_lt.1 hsmall)
    have hpos : 0 < 2 ^ shift := Nat.two_pow_pos shift
    have hge : 8388608 ≤ u / 2 ^ shift := (Nat.le_div_iff_mul_le hpos).2 hlow
    have hlt : u / 2 ^ shift < 16777216 := (Nat.div_lt_iff_lt_mul hpos).2 hhigh
    have hfraction : u / 2 ^ shift - 8388608 < 8388608 := by omega
    refine ⟨shift + 1, u / 2 ^ shift - 8388608, hfraction, ?_, ?_⟩
    · simp only [floorCode, fractionBits, hshift, Nat.shiftRight_eq_div_pow, Nat.shiftLeft_eq,
        Nat.add_sub_cancel_left, Nat.one_mul, Nat.add_sub_cancel]
      refine congrArg (·, 2 ^ shift) ?_
      omega
    · have hunits : (8388608 + (u / 2 ^ shift - 8388608)) * 2 ^ shift = u / 2 ^ shift * 2 ^ shift := by
        rw [Nat.add_sub_cancel' hge]
      rw [units_block _ hfraction, if_neg (Nat.succ_ne_zero shift), Nat.add_sub_cancel, hunits]
      have hdivision := Nat.div_add_mod' u (2 ^ shift)
      have hremainder := Nat.mod_lt u hpos
      omega

theorem floorCode_spec (u : Nat) :
    units (floorCode u).1 ≤ u ∧ u < units ((floorCode u).1 + 1) ∧
      (floorCode u).2 = gap (floorCode u).1 := by
  obtain ⟨block, fraction, hfraction, hfloor, hle, hlt⟩ := floorCode_eq u
  rw [hfloor, units_succ, gap_block block hfraction]
  exact ⟨hle, hlt, rfl⟩

/-! The rule -/

/-- Of the code and the next one the nearer to a number of units between them, of two equally near the
even one. -/
def nearer (code : Nat) (q : ℚ) : Nat :=
  if gap code < 2 * (q - units code) ∨ gap code = 2 * (q - units code) ∧ code % 2 = 1 then code + 1
  else code

/-- The code and the next one enclose the quotient. -/
def Encloses (code : Nat) (q : ℚ) : Prop := (units code : ℚ) ≤ q ∧ q < units (code + 1)

theorem encloses_floorCode (num : Nat) {den : Nat} (hden : 0 < den) :
    Encloses (floorCode (num / den)).1 (num / den) := by
  obtain ⟨hle, hlt, -⟩ := floorCode_spec (num / den)
  have hpos : (0 : ℚ) < den := by exact_mod_cast hden
  constructor
  · rw [le_div_iff₀ hpos]
    exact_mod_cast (Nat.le_div_iff_mul_le hden).1 hle
  · rw [div_lt_iff₀ hpos]
    exact_mod_cast (Nat.div_lt_iff_lt_mul hden).1 hlt

theorem Encloses.unique {code code' : Nat} {q : ℚ} (h : Encloses code q) (h' : Encloses code' q) :
    code = code' := by
  have hlt : units code < units (code' + 1) := by exact_mod_cast h.1.trans_lt h'.2
  have hlt' : units code' < units (code + 1) := by exact_mod_cast h'.1.trans_lt h.2
  have := units_strictMono.lt_iff_lt.1 hlt
  have := units_strictMono.lt_iff_lt.1 hlt'
  omega

theorem round_eq_nearer {num den code : Nat} (hden : 0 < den) (h : Encloses code (num / den)) :
    round num den = min (nearer code (num / den)) infinity := by
  have hpos : (0 : ℚ) < den := by exact_mod_cast hden
  obtain rfl := (encloses_floorCode num hden).unique h
  obtain ⟨hle, -, hgap⟩ := floorCode_spec (num / den)
  have hunits : units (floorCode (num / den)).1 * den ≤ num := (Nat.le_div_iff_mul_le hden).1 hle
  unfold round nearer
  generalize floorCode (num / den) = floor at *
  obtain ⟨code, width⟩ := floor
  obtain rfl : width = gap code := hgap
  dsimp only at hunits ⊢
  have habove : (2 : ℚ) * (num / den - units code) = (2 * (num - units code * den) : Nat) / den := by
    rw [Nat.cast_mul, Nat.cast_sub hunits]
    push_cast
    field_simp
  have hless : gap code * den < 2 * (num - units code * den) ↔
      (gap code : ℚ) < 2 * (num / den - units code) := by
    rw [habove, lt_div_iff₀ hpos]
    norm_cast
  have hequal : gap code * den = 2 * (num - units code * den) ↔
      (gap code : ℚ) = 2 * (num / den - units code) := by
    rw [habove, eq_div_iff hpos.ne']
    norm_cast
  simp only [hless, hequal]

theorem le_nearer (code : Nat) (q : ℚ) : code ≤ nearer code q := by
  unfold nearer
  split <;> omega

theorem nearer_le (code : Nat) (q : ℚ) : nearer code q ≤ code + 1 := by
  unfold nearer
  split <;> omega

theorem nearer_mono (code : Nat) {q q' : ℚ} (h : q ≤ q') : nearer code q ≤ nearer code q' := by
  by_cases hup : gap code < 2 * (q' - units code) ∨
      gap code = 2 * (q' - units code) ∧ code % 2 = 1
  · rw [nearer, nearer, if_pos hup]
    split <;> omega
  · have hdown : ¬ (gap code < 2 * (q - units code) ∨
        gap code = 2 * (q - units code) ∧ code % 2 = 1) := by
      rintro (hless | ⟨hequal, hodd⟩)
      · exact hup (Or.inl (by linarith))
      · rcases h.lt_or_eq with hlt | rfl
        · exact hup (Or.inl (by linarith))
        · exact hup (Or.inr ⟨hequal, hodd⟩)
    rw [nearer, nearer, if_neg hup, if_neg hdown]

/-- Rounding keeps the order of the quotients. -/
theorem round_mono {num den num' den' : Nat} (hden : 0 < den) (hden' : 0 < den')
    (h : (num : ℚ) / den ≤ num' / den') : round num den ≤ round num' den' := by
  have hencloses := encloses_floorCode num hden
  have hencloses' := encloses_floorCode num' hden'
  rw [round_eq_nearer hden hencloses, round_eq_nearer hden' hencloses']
  generalize (floorCode (num / den)).1 = code at *
  generalize (floorCode (num' / den')).1 = code' at *
  have hlt : units code < units (code' + 1) := by
    exact_mod_cast (hencloses.1.trans h).trans_lt hencloses'.2
  rcases (Nat.lt_succ_iff.1 (units_strictMono.lt_iff_lt.1 hlt)).lt_or_eq with hless | rfl
  · have hnearer : nearer code (num / den) ≤ nearer code' (num' / den') :=
      ((nearer_le _ _).trans hless).trans (le_nearer _ _)
    exact min_le_min_right _ hnearer
  · exact min_le_min_right _ (nearer_mono code h)

/-- What lies less than half a gap above or below the units of a code is rounded to it. -/
theorem round_of_near {num den code : Nat} (hden : 0 < den) (hcode : code ≤ infinity)
    (hbelow : ∀ before, code = before + 1 → (2 * units code : ℚ) - gap before < 2 * (num / den))
    (habove : 2 * (num / den) < (2 * units code : ℚ) + gap code) : round num den = code := by
  have hnext : (units (code + 1) : ℚ) = units code + gap code := by exact_mod_cast units_succ code
  have hgap : (0 : ℚ) < gap code := by exact_mod_cast gap_pos code
  by_cases hle : (units code : ℚ) ≤ num / den
  · have hencloses : Encloses code (num / den) := ⟨hle, by linarith⟩
    have hnearer : nearer code (num / den) = code := by
      refine if_neg ?_
      rintro (hless | ⟨hequal, -⟩) <;> linarith
    rw [round_eq_nearer hden hencloses, hnearer, min_eq_left hcode]
  · cases code with
    | zero =>
      have hzero : (0 : ℚ) ≤ num / den := by positivity
      exact absurd hzero (by simpa [units, fractionBits] using hle)
    | succ before =>
      have hstep : (units (before + 1) : ℚ) = units before + gap before := by
        exact_mod_cast units_succ before
      have hlow := hbelow before rfl
      have hpos : (0 : ℚ) < gap before := by exact_mod_cast gap_pos before
      have hencloses : Encloses before (num / den) := ⟨by linarith, by linarith⟩
      have hnearer : nearer before (num / den) = before + 1 := if_pos (Or.inl (by linarith))
      rw [round_eq_nearer hden hencloses, hnearer, min_eq_left hcode]

/-- The units of a code are rounded to it. -/
theorem round_units {code : Nat} (hcode : code ≤ infinity) : round (units code) 1 = code := by
  refine round_of_near Nat.one_pos hcode (fun before _ => ?_) ?_
  · have hpos : (0 : ℚ) < gap before := by exact_mod_cast gap_pos before
    rw [Nat.cast_one, div_one]
    linarith
  · have hpos : (0 : ℚ) < gap code := by exact_mod_cast gap_pos code
    rw [Nat.cast_one, div_one]
    linarith

end Magnitude

/-- The absolute value of a number. Infinity counts as the power of two after the last finite value. -/
def Single.magnitude : Single → ℚ
  | nan => 0
  | signed _ code _ => Magnitude.value code

end ScriptEngine
