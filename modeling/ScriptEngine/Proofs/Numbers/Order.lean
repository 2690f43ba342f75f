import ScriptEngine.Proofs.Numbers.Rounding
import ScriptEngine.Value.Operators

/-!
Comparison of any two values. Two integers are compared exactly and all other pairs after rounding, and
rounding keeps the order: what is below something is not above it once both are rounded, and integers
that are apart after rounding were so before. So the comparisons form one order, in which only what is
not a number has no place.
-/
namespace ScriptEngine

/-! The places of rounded integers -/

namespace Single

/-- The place of a rounded integer. -/
def intRank (n : ℤ) : ℤ :=
  let code := Magnitude.round (n.natAbs <<< Magnitude.unitBits) 1
  if n < 0 then -code else code

theorem rank?_ofInt (n : ℤ) : (ofInt n).rank? = some (intRank n) := by
  by_cases hn : n < 0 <;> simp [ofInt, ofUnits, rank?, intRank, hn]

theorem round_natAbs_mono {m n : ℤ} (h : m.natAbs ≤ n.natAbs) :
    Magnitude.round (m.natAbs <<< Magnitude.unitBits) 1 ≤
      Magnitude.round (n.natAbs <<< Magnitude.unitBits) 1 := by
  apply Magnitude.round_mono Nat.one_pos Nat.one_pos
  rw [Nat.shiftLeft_eq, Nat.shiftLeft_eq, Nat.cast_one, div_one, div_one]
  exact_mod_cast Nat.mul_le_mul_right _ h

/-- Rounding keeps the order of the integers. -/
theorem intRank_mono {m n : ℤ} (h : m ≤ n) : intRank m ≤ intRank n := by
  unfold intRank
  dsimp only
  by_cases hm : m < 0
  · by_cases hn : n < 0
    · have hround := round_natAbs_mono (show n.natAbs ≤ m.natAbs by omega)
      rw [if_pos hm, if_pos hn]
      omega
    · rw [if_pos hm, if_neg hn]
      omega
  · have hround := round_natAbs_mono (show m.natAbs ≤ n.natAbs by omega)
    rw [if_neg hm, if_neg (by omega)]
    omega

theorem less_iff {x y : Single} :
    x.less y ↔ ∃ i j, x.rank? = some i ∧ y.rank? = some j ∧ i < j := by
  unfold less
  cases x.rank? <;> cases y.rank? <;> simp

theorem exists_rank {x : Single} (h : x.isNaN = false) : ∃ i, x.rank? = some i := by
  cases x with
  | nan => exact absurd h (by decide)
  | signed negative code => exact ⟨_, rfl⟩

end Single

/-! Numbers -/

namespace Number

variable {a b c : Number}

/-- The place of a number after rounding. -/
def rank? (a : Number) : Option ℤ := a.toSingle.rank?

theorem rank?_integer (n : Int32) : (integer n).rank? = some (Single.intRank n.toInt) :=
  Single.rank?_ofInt n.toInt

/-- One integer is below another, or the one number is below the other after rounding. -/
theorem less_cases (h : a.less b) :
    (∃ m n, a = integer m ∧ b = integer n ∧ m < n) ∨
      ∃ i j, a.rank? = some i ∧ b.rank? = some j ∧ i < j := by
  cases a with
  | integer m =>
    cases b with
    | integer n => exact .inl ⟨m, n, rfl, rfl, by simpa [less] using h⟩
    | float y => exact .inr (Single.less_iff.1 h)
  | float x => exact .inr (Single.less_iff.1 (by cases b <;> exact h))

/-- What is below after rounding was below before. -/
theorem less_of_rank_lt {i j : ℤ} (ha : a.rank? = some i) (hb : b.rank? = some j) (hij : i < j) :
    a.less b := by
  have hless : a.toSingle.less b.toSingle := Single.less_iff.2 ⟨i, j, ha, hb, hij⟩
  cases a with
  | integer m =>
    cases b with
    | integer n =>
      rw [rank?_integer, Option.some_inj] at ha hb
      have hmn : m < n := by
        by_contra hnot
        have hmono := Single.intRank_mono (Int32.le_iff_toInt_le.1 (Int32.not_lt.1 hnot))
        omega
      simpa [less] using hmn
    | float y => exact hless
  | float x => cases b <;> exact hless

theorem less_irrefl (a : Number) : ¬ a.less a := by
  intro h
  rcases less_cases h with ⟨m, n, rfl, hn, hmn⟩ | ⟨i, j, hi, hj, hij⟩
  · obtain rfl : m = n := by injection hn
    exact Int32.lt_irrefl hmn
  · obtain rfl := Option.some.inj (hi.symm.trans hj)
    exact lt_irrefl i hij

theorem less_trans (hab : a.less b) (hbc : b.less c) : a.less c := by
  rcases less_cases hab with ⟨m, n, rfl, rfl, hmn⟩ | ⟨i, j, hi, hj, hij⟩
  · have hmono := Single.intRank_mono (Int32.le_iff_toInt_le.1 (Int32.le_of_lt hmn))
    rcases less_cases hbc with ⟨n', k, hn', rfl, hnk⟩ | ⟨j, k, hj, hk, hjk⟩
    · obtain rfl : n = n' := by injection hn'
      simpa [less] using Int32.lt_trans hmn hnk
    · obtain rfl := Option.some.inj ((rank?_integer n).symm.trans hj)
      exact less_of_rank_lt (rank?_integer m) hk (hmono.trans_lt hjk)
  · rcases less_cases hbc with ⟨m, n, rfl, rfl, hmn⟩ | ⟨j', k, hj', hk, hjk⟩
    · have hmono := Single.intRank_mono (Int32.le_iff_toInt_le.1 (Int32.le_of_lt hmn))
      obtain rfl := Option.some.inj ((rank?_integer m).symm.trans hj)
      exact less_of_rank_lt hi (rank?_integer n) (hij.trans_le hmono)
    · obtain rfl := Option.some.inj (hj.symm.trans hj')
      exact less_of_rank_lt hi hk (hij.trans hjk)

theorem equal_comm (a b : Number) : a.equal b = b.equal a := by
  cases a <;> cases b <;> first | exact Bool.beq_comm | exact Single.equal_comm _ _

/-- Two numbers that have places are below, equal or above as the two integers or the places are. -/
theorem exists_places (ha : a.toSingle.isNaN = false) (hb : b.toSingle.isNaN = false) :
    ∃ i j : ℤ, (a.less b ↔ i < j) ∧ (a.equal b ↔ i = j) ∧ (b.less a ↔ j < i) := by
  obtain ⟨i, hi⟩ := Single.exists_rank ha
  obtain ⟨j, hj⟩ := Single.exists_rank hb
  have hplaces : (a.toSingle.less b.toSingle ↔ i < j) ∧ (a.toSingle.equal b.toSingle ↔ i = j) ∧
      (b.toSingle.less a.toSingle ↔ j < i) := by
    simp [Single.less, Single.equal, hi, hj]
  cases a with
  | integer m =>
    cases b with
    | integer n =>
      refine ⟨m.toInt, n.toInt, ?_, ?_, ?_⟩
      · simp [less, Int32.lt_iff_toInt_lt]
      · simp [equal, Int32.toInt_inj]
      · simp [less, Int32.lt_iff_toInt_lt]
    | float y => exact ⟨i, j, hplaces⟩
  | float x => exact ⟨i, j, by cases b <;> exact hplaces⟩

end Number

/-! Values -/

namespace Value

/-- Truth values, integers and the floats that are numbers. -/
def isOrdered : Value → Bool
  | boolean _ | integer _ => true
  | float x => !x.isNaN
  | _ => false

theorem isNaN_of_isOrdered {v : Value} (h : v.isOrdered) : v.number.toSingle.isNaN = false := by
  cases v with
  | float x => simpa [isOrdered, number, Number.toSingle] using h
  | boolean b => rfl
  | integer n => rfl
  | _ => simp [isOrdered] at h

theorem isNumeric_of_isOrdered {v : Value} (h : v.isOrdered) : v.isNumeric := by
  cases v <;> first | exact absurd h Bool.false_ne_true | rfl

theorem looselyEqual_of_isNumeric {a b : Value} (ha : a.isNumeric) (hb : b.isNumeric) :
    a.looselyEqual b = a.number.equal b.number := by
  cases a <;> cases b <;>
    first | exact absurd ha Bool.false_ne_true | exact absurd hb Bool.false_ne_true | rfl

theorem looselyEqual_comm (a b : Value) : a.looselyEqual b = b.looselyEqual a := by
  by_cases hnumeric : a.isNumeric ∧ b.isNumeric
  · rw [looselyEqual_of_isNumeric hnumeric.1 hnumeric.2, Number.equal_comm,
      looselyEqual_of_isNumeric hnumeric.2 hnumeric.1]
  · cases a <;> cases b <;>
      first
      | exact absurd ⟨rfl, rfl⟩ hnumeric
      | simp only [looselyEqual, isNumeric, Bool.and_false, Bool.false_and, Bool.beq_comm]

end Value

/-- The operator gives true for the two values. -/
def BinaryOp.Holds (σ : Store) (op : BinaryOp) (a b : Value) : Prop :=
  op.apply σ a b = .ok (.boolean true)

def ExactlyOne (p q r : Prop) : Prop := (p ∧ ¬ q ∧ ¬ r) ∨ (¬ p ∧ q ∧ ¬ r) ∨ (¬ p ∧ ¬ q ∧ r)

/-- The laws of comparison and equality, for values of all kinds. -/
structure ComparisonLaws (σ : Store) : Prop where
  decided : ∀ op ∈ [BinaryOp.less, .greater, .lessEqual, .greaterEqual, .equal, .notEqual], ∀ a b,
    ∃ answer, op.apply σ a b = .ok (.boolean answer)
  irrefl : ∀ a, ¬ BinaryOp.less.Holds σ a a
  asymm : ∀ a b, BinaryOp.less.Holds σ a b → ¬ BinaryOp.less.Holds σ b a
  trans : ∀ a b c, BinaryOp.less.Holds σ a b → BinaryOp.less.Holds σ b c → BinaryOp.less.Holds σ a c
  greater_iff : ∀ a b, BinaryOp.greater.Holds σ a b ↔ BinaryOp.less.Holds σ b a
  lessEqual_iff : ∀ a b, BinaryOp.lessEqual.Holds σ a b ↔ ¬ BinaryOp.greater.Holds σ a b
  greaterEqual_iff : ∀ a b, BinaryOp.greaterEqual.Holds σ a b ↔ ¬ BinaryOp.less.Holds σ a b
  equal_comm : ∀ a b, BinaryOp.equal.Holds σ a b ↔ BinaryOp.equal.Holds σ b a
  notEqual_iff : ∀ a b, BinaryOp.notEqual.Holds σ a b ↔ ¬ BinaryOp.equal.Holds σ a b
  trichotomy : ∀ a b, a.isOrdered → b.isOrdered →
    ExactlyOne (BinaryOp.less.Holds σ a b) (BinaryOp.equal.Holds σ a b) (BinaryOp.greater.Holds σ a b)

namespace BinaryOp

variable {σ : Store} {a b : Value}

theorem holds_less : less.Holds σ a b ↔ a.less b := by simp [Holds, apply]

theorem holds_greater : greater.Holds σ a b ↔ b.less a := by simp [Holds, apply]

theorem holds_lessEqual : lessEqual.Holds σ a b ↔ ¬ b.less a := by simp [Holds, apply]

theorem holds_greaterEqual : greaterEqual.Holds σ a b ↔ ¬ a.less b := by simp [Holds, apply]

theorem holds_equal : equal.Holds σ a b ↔ a.looselyEqual b := by simp [Holds, apply]

theorem holds_notEqual : notEqual.Holds σ a b ↔ ¬ a.looselyEqual b := by simp [Holds, apply]

theorem comparisonLaws (σ : Store) : ComparisonLaws σ where
  decided op hop a b := by
    simp only [List.mem_cons, List.not_mem_nil, or_false] at hop
    rcases hop with rfl | rfl | rfl | rfl | rfl | rfl <;> exact ⟨_, rfl⟩
  irrefl a := fun h => a.number.less_irrefl (holds_less.1 h)
  asymm a b hab hba :=
    a.number.less_irrefl (Number.less_trans (holds_less.1 hab) (holds_less.1 hba))
  trans a b c hab hbc := holds_less.2 (Number.less_trans (holds_less.1 hab) (holds_less.1 hbc))
  greater_iff a b := holds_greater.trans holds_less.symm
  lessEqual_iff a b := holds_lessEqual.trans (not_congr holds_greater.symm)
  greaterEqual_iff a b := holds_greaterEqual.trans (not_congr holds_less.symm)
  equal_comm a b := by rw [holds_equal, holds_equal, a.looselyEqual_comm]
  notEqual_iff a b := holds_notEqual.trans (not_congr holds_equal.symm)
  trichotomy a b ha hb := by
    obtain ⟨i, j, hless, hequal, hgreater⟩ := Number.exists_places
      (Value.isNaN_of_isOrdered ha) (Value.isNaN_of_isOrdered hb)
    rw [holds_less, holds_equal, holds_greater,
      Value.looselyEqual_of_isNumeric (Value.isNumeric_of_isOrdered ha) (Value.isNumeric_of_isOrdered hb)]
    unfold ExactlyOne Value.less
    rw [hless, hequal, hgreater]
    omega

end BinaryOp

end ScriptEngine
