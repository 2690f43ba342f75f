import Mathlib.Data.List.Forall2
import ScriptEngine.Proofs.Running.Frames
import ScriptEngine.Proofs.Running.Realm
import ScriptEngine.Value.Operators

/-!
Values on two sides that are the same but for their numbers. Frames, cells and callables have numbers,
and some numbers on one side go together with some on the other, one with one. Numbers that are given
out on both sides at the same time go together from then on. No cast and no operator shows which side
one is on.
-/
namespace ScriptEngine

/-! Numbers -/

/-- So many numbers have been given out on either side, and some of them go together. -/
structure Pairing where
  left : Nat
  right : Nat
  pairs : Nat → Nat → Prop
  below : ∀ i j, pairs i j → i < left ∧ j < right
  one_to_one : ∀ i j i' j', pairs i j → pairs i' j' → (i = i' ↔ j = j')

namespace Pairing

variable {p q r : Pairing}

/-- The next number on either side, which go together. -/
def next (p : Pairing) : Pairing where
  left := p.left + 1
  right := p.right + 1
  pairs := fun i j => p.pairs i j ∨ i = p.left ∧ j = p.right
  below := by
    rintro i j (h | ⟨rfl, rfl⟩)
    · exact ⟨Nat.lt_succ_of_lt (p.below i j h).1, Nat.lt_succ_of_lt (p.below i j h).2⟩
    · exact ⟨Nat.lt_succ_self _, Nat.lt_succ_self _⟩
  one_to_one := by
    rintro i j i' j' (h | ⟨rfl, rfl⟩) (h' | ⟨rfl, rfl⟩)
    · exact p.one_to_one i j i' j' h h'
    · have hbelow := p.below i j h
      omega
    · have hbelow := p.below i' j' h'
      omega
    · simp

/-- Numbers that are given out on the second side only. -/
def await (p : Pairing) {right : Nat} (h : p.right ≤ right) : Pairing where
  left := p.left
  right := right
  pairs := p.pairs
  below := fun i j hij => ⟨(p.below i j hij).1, Nat.lt_of_lt_of_le (p.below i j hij).2 h⟩
  one_to_one := p.one_to_one

/-- Some of the first numbers, each with itself. -/
def same (count : Nat) (chosen : Nat → Prop) : Pairing where
  left := count
  right := count
  pairs := fun i j => i = j ∧ i < count ∧ chosen i
  below := by
    rintro i j ⟨rfl, hlt, -⟩
    exact ⟨hlt, hlt⟩
  one_to_one := by
    rintro i j i' j' ⟨rfl, -⟩ ⟨rfl, -⟩
    rfl

theorem next_pairs (p : Pairing) : p.next.pairs p.left p.right := Or.inr ⟨rfl, rfl⟩

/-- What goes together later: all that goes together already, and new numbers with new ones. No new
number is on the first side only. -/
structure Grows (p q : Pairing) : Prop where
  left : p.left ≤ q.left
  right : p.right ≤ q.right
  kept : ∀ i j, p.pairs i j → q.pairs i j
  fresh : ∀ i j, q.pairs i j → p.pairs i j ∨ p.left ≤ i ∧ p.right ≤ j
  covered : ∀ i, p.left ≤ i → i < q.left → ∃ j, q.pairs i j

theorem Grows.of_left_eq (hleft : p.left = q.left) (hright : p.right ≤ q.right)
    (hkept : ∀ i j, p.pairs i j → q.pairs i j) (hfresh : ∀ i j, q.pairs i j → p.pairs i j) :
    p.Grows q :=
  ⟨Nat.le_of_eq hleft, hright, hkept, fun i j h => Or.inl (hfresh i j h),
    fun _ hi hlt => absurd (hleft ▸ hlt) (Nat.not_lt_of_le hi)⟩

theorem Grows.refl (p : Pairing) : p.Grows p :=
  .of_left_eq rfl (Nat.le_refl _) (fun _ _ h => h) fun _ _ h => h

theorem Grows.trans (h : p.Grows q) (h' : q.Grows r) : p.Grows r := by
  refine ⟨Nat.le_trans h.left h'.left, Nat.le_trans h.right h'.right,
    fun i j hij => h'.kept i j (h.kept i j hij), fun i j hij => ?_, fun i hi hlt => ?_⟩
  · rcases h'.fresh i j hij with hij | ⟨hi, hj⟩
    · exact h.fresh i j hij
    · exact Or.inr ⟨Nat.le_trans h.left hi, Nat.le_trans h.right hj⟩
  · by_cases hold : i < q.left
    · obtain ⟨j, hij⟩ := h.covered i hi hold
      exact ⟨j, h'.kept i j hij⟩
    · exact h'.covered i (Nat.le_of_not_lt hold) hlt

theorem grows_next (p : Pairing) : p.Grows p.next := by
  refine ⟨Nat.le_succ _, Nat.le_succ _, fun _ _ h => Or.inl h, ?_, fun i hi hlt => ?_⟩
  · rintro i j (h | ⟨rfl, rfl⟩)
    · exact Or.inl h
    · exact Or.inr ⟨Nat.le_refl _, Nat.le_refl _⟩
  · obtain rfl : p.left = i := Nat.le_antisymm hi (Nat.le_of_lt_succ hlt)
    exact ⟨p.right, p.next_pairs⟩

theorem grows_await {right : Nat} (h : p.right ≤ right) : p.Grows (p.await h) :=
  .of_left_eq rfl h (fun _ _ h => h) fun _ _ h => h

/-- When every number on the first side went together with one, every number still does. -/
theorem Grows.all (h : p.Grows q) (hp : ∀ i < p.left, ∃ j, p.pairs i j) {i : Nat} (hi : i < q.left) :
    ∃ j, q.pairs i j := by
  by_cases hold : i < p.left
  · obtain ⟨j, hij⟩ := hp i hold
    exact ⟨j, h.kept i j hij⟩
  · exact h.covered i (Nat.le_of_not_lt hold) hi

theorem mem_iff {is js : List Nat} (h : List.Forall₂ p.pairs is js) {i j : Nat}
    (hij : p.pairs i j) : i ∈ is ↔ j ∈ js := by
  induction h with
  | nil => simp
  | cons hfirst _ ih => rw [List.mem_cons, List.mem_cons, ih, p.one_to_one _ _ _ _ hij hfirst]

end Pairing

/-- Which frames, cells and callables go together. -/
structure Matching where
  frames : Pairing
  cells : Pairing
  identities : Pairing

namespace Matching

variable {M N L : Matching}

structure Grows (M N : Matching) : Prop where
  frames : M.frames.Grows N.frames
  cells : M.cells.Grows N.cells
  identities : M.identities.Grows N.identities

theorem Grows.refl (M : Matching) : M.Grows M := ⟨.refl _, .refl _, .refl _⟩

theorem Grows.trans (h : M.Grows N) (h' : N.Grows L) : M.Grows L :=
  ⟨h.frames.trans h'.frames, h.cells.trans h'.cells, h.identities.trans h'.identities⟩

/-! Values -/

/-- The values are the same but for their numbers, and these go together. -/
inductive Alike (M : Matching) : Value → Value → Prop where
  | scalar {v : Value} (hv : v.isScalar) : Alike M v v
  | array {cell cell' : CellId} (hcell : M.cells.pairs cell cell') :
      Alike M (.array cell) (.array cell')
  | struct {cell cell' : CellId} (hcell : M.cells.pairs cell cell') :
      Alike M (.struct cell) (.struct cell')
  | function {i i' : Nat} {definition : FunctionDef} {home home' : FrameId}
      (hidentity : M.identities.pairs i i') (hhome : M.frames.pairs home home') :
      Alike M (.function ⟨i, definition, home⟩) (.function ⟨i', definition, home'⟩)
  | native {i i' : Nat} {name : String} {params : List String} {action : NativeAction}
      (hidentity : M.identities.pairs i i') :
      Alike M (.native ⟨i, name, params, action⟩) (.native ⟨i', name, params, action⟩)

def AlikeEntries (M : Matching) : Entries Value → Entries Value → Prop :=
  List.Forall₂ fun entry entry' => entry.1 = entry'.1 ∧ M.Alike entry.2 entry'.2

inductive AlikeCells (M : Matching) : Cell → Cell → Prop where
  | array {items items' : Array Value} (h : List.Forall₂ M.Alike items.toList items'.toList) :
      AlikeCells M (.array items) (.array items')
  | struct {fields fields' : Entries Value} (h : M.AlikeEntries fields fields') :
      AlikeCells M (.struct fields) (.struct fields')

section

variable {v v' w w' : Value}

theorem Alike.mono (h : M.Alike v v') (hN : M.Grows N) : N.Alike v v' := by
  cases h with
  | scalar hv => exact .scalar hv
  | array hcell => exact .array (hN.cells.kept _ _ hcell)
  | struct hcell => exact .struct (hN.cells.kept _ _ hcell)
  | function hidentity hhome =>
    exact .function (hN.identities.kept _ _ hidentity) (hN.frames.kept _ _ hhome)
  | native hidentity => exact .native (hN.identities.kept _ _ hidentity)

theorem Alike.null : M.Alike .null .null := .scalar rfl

/-! What does not show -/

theorem Alike.typeName (h : M.Alike v v') : v'.typeName = v.typeName := by
  cases h <;> rfl

theorem Alike.isCallable (h : M.Alike v v') : v'.isCallable = v.isCallable := by
  cases h <;> rfl

theorem Alike.isNull (h : M.Alike v v') : v'.isNull = v.isNull := by
  cases h <;> rfl

theorem Alike.isString (h : M.Alike v v') : v'.isString = v.isString := by
  cases h <;> rfl

theorem Alike.number (h : M.Alike v v') : v'.number = v.number := by
  cases h <;> rfl

theorem Alike.toInt32 (h : M.Alike v v') : v'.toInt32 = v.toInt32 :=
  congrArg Number.toInt32 h.number

theorem Alike.truth (h : M.Alike v v') : v'.truth = v.truth := by
  cases h <;> rfl

theorem Alike.isScalar (h : M.Alike v v') (hv : v.isScalar) : v' = v := by
  cases h with
  | scalar => rfl
  | _ => exact absurd hv (by simp [Value.isScalar])

theorem Alike.unary (h : M.Alike v v') (op : UnaryOp) : op.apply v' = op.apply v := by
  cases op with
  | negate =>
    unfold UnaryOp.apply
    rw [h.number]
  | not => exact congrArg (fun b => Value.boolean !b) h.truth

theorem Alike.arithmetic (h : M.Alike v v') (hw : M.Alike w w')
    (onIntegers : Int32 → Int32 → Int32) (onFloats : Single → Single → Single) :
    v'.arithmetic onIntegers onFloats w' = v.arithmetic onIntegers onFloats w := by
  unfold Value.arithmetic
  rw [h.number, hw.number]

theorem Alike.less (h : M.Alike v v') (hw : M.Alike w w') : v'.less w' = v.less w := by
  unfold Value.less
  rw [h.number, hw.number]

/-- Numbers that go together are the same on both sides or on none. -/
theorem beq_of_pairs {p : Pairing} {i j i' j' : Nat} (h : p.pairs i i') (h' : p.pairs j j') :
    (i' == j') = (i == j) := by
  rw [Bool.eq_iff_iff, beq_iff_eq, beq_iff_eq]
  exact (p.one_to_one i i' j j' h h').symm

theorem Alike.looselyEqual (h : M.Alike v v') (hw : M.Alike w w') :
    v'.looselyEqual w' = v.looselyEqual w := by
  cases h with
  | scalar hv =>
    cases hw with
    | scalar => rfl
    | _ => cases v <;> first | rfl | exact absurd hv (by simp [Value.isScalar])
  | array hcell =>
    cases hw with
    | scalar hw => cases w <;> first | rfl | exact absurd hw (by simp [Value.isScalar])
    | array hcell' => exact beq_of_pairs hcell hcell'
    | _ => rfl
  | struct hcell =>
    cases hw with
    | scalar hw => cases w <;> first | rfl | exact absurd hw (by simp [Value.isScalar])
    | struct hcell' => exact beq_of_pairs hcell hcell'
    | _ => rfl
  | function hidentity =>
    cases hw with
    | scalar hw => cases w <;> first | rfl | exact absurd hw (by simp [Value.isScalar])
    | function hidentity' => exact beq_of_pairs hidentity hidentity'
    | _ => rfl
  | native hidentity =>
    cases hw with
    | scalar hw => cases w <;> first | rfl | exact absurd hw (by simp [Value.isScalar])
    | native hidentity' => exact beq_of_pairs hidentity hidentity'
    | _ => rfl

end

/-! Entries -/

section

variable {entries entries' : Entries Value}

theorem AlikeEntries.mono (h : M.AlikeEntries entries entries') (hN : M.Grows N) :
    N.AlikeEntries entries entries' :=
  h.imp fun _ _ hentry => ⟨hentry.1, hentry.2.mono hN⟩

theorem AlikeEntries.names (h : M.AlikeEntries entries entries') : entries'.names = entries.names := by
  induction h with
  | nil => rfl
  | cons hfirst _ ih => exact congrArg₂ List.cons hfirst.1.symm ih

theorem AlikeEntries.get? (h : M.AlikeEntries entries entries') (name : String) :
    Option.Rel M.Alike (entries.get? name) (entries'.get? name) := by
  induction h with
  | nil => exact .none
  | @cons entry entry' rest rest' hfirst _ ih =>
    obtain ⟨n, v⟩ := entry
    obtain ⟨n', v'⟩ := entry'
    obtain ⟨rfl, hv⟩ : n = n' ∧ M.Alike v v' := hfirst
    unfold Entries.get?
    split
    · exact .some hv
    · exact ih

theorem AlikeEntries.has (h : M.AlikeEntries entries entries') (name : String) :
    entries'.has name = entries.has name := by
  have hget := h.get? name
  unfold Entries.has
  generalize entries.get? name = found, entries'.get? name = found' at hget
  cases hget <;> rfl

theorem AlikeEntries.put (h : M.AlikeEntries entries entries') (name : String) {v v' : Value}
    (hv : M.Alike v v') : M.AlikeEntries (entries.put name v) (entries'.put name v') := by
  induction h with
  | nil => exact .cons ⟨rfl, hv⟩ .nil
  | @cons entry entry' rest rest' hfirst hrest ih =>
    obtain ⟨n, u⟩ := entry
    obtain ⟨n', u'⟩ := entry'
    obtain ⟨rfl, hu⟩ : n = n' ∧ M.Alike u u' := hfirst
    unfold Entries.put
    split
    · exact .cons ⟨rfl, hv⟩ hrest
    · exact .cons ⟨rfl, hu⟩ ih

end

theorem AlikeCells.mono {content content' : Cell} (h : M.AlikeCells content content')
    (hN : M.Grows N) : N.AlikeCells content content' := by
  cases h with
  | array hitems => exact .array (hitems.imp fun _ _ hv => hv.mono hN)
  | struct hfields => exact .struct (hfields.mono hN)

end Matching

end ScriptEngine
