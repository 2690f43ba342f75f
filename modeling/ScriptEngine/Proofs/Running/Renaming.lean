import Mathlib.Logic.Function.Basic
import Mathlib.Tactic.SplitIfs
import ScriptEngine.Proofs.Running.Keeping
import ScriptEngine.Proofs.Running.Places

/-!
Values under other numbers. Frames and callables have numbers, and code has places. Where the numbers
and the places are others, a callable is another value and everything else is the same, and no cast,
operator, comparison or text shows the difference.
-/
namespace ScriptEngine

/-- Other numbers for frames and callables and other places for code. -/
structure Renaming where
  frame : FrameId → FrameId
  identity : Nat → Nat
  place : Span → Span
  /-- Functions with numbers below this one keep their homes. -/
  kept : Nat
  /-- Frames on the other side that bind nothing and may lie between a frame and its parent. -/
  hollow : FrameId → Prop
  frame_injective : Function.Injective frame
  identity_injective : Function.Injective identity
  not_hollow : ∀ id, ¬ hollow (frame id)

namespace Entries

variable {α β : Type}

/-- The same names with other values. -/
def mapValues (f : α → β) (entries : Entries α) : Entries β :=
  entries.map fun entry => (entry.1, f entry.2)

theorem names_mapValues (f : α → β) (entries : Entries α) :
    names (entries.mapValues f) = names entries := by
  unfold names mapValues
  rw [List.map_map]
  rfl

theorem get?_mapValues (f : α → β) (name : String) (entries : Entries α) :
    get? name (entries.mapValues f) = (get? name entries).map f := by
  induction entries with
  | nil => rfl
  | cons entry rest ih =>
    change (if entry.1 = name then some (f entry.2) else get? name (mapValues f rest)) =
      (if entry.1 = name then some entry.2 else get? name rest).map f
    rw [ih]
    split <;> rfl

theorem has_mapValues (f : α → β) (name : String) (entries : Entries α) :
    has name (entries.mapValues f) = has name entries := by
  unfold has
  rw [get?_mapValues, Option.isSome_map]

theorem put_mapValues (f : α → β) (name : String) (a : α) (entries : Entries α) :
    put name (f a) (entries.mapValues f) = (put name a entries).mapValues f := by
  induction entries with
  | nil => rfl
  | cons entry rest ih =>
    change (if entry.1 = name then (entry.1, f a) :: mapValues f rest
      else (entry.1, f entry.2) :: put name (f a) (mapValues f rest)) =
      mapValues f (if entry.1 = name then (entry.1, a) :: rest else entry :: put name a rest)
    rw [ih]
    split <;> rfl

theorem mapValues_congr {f g : α → β} {entries : Entries α} (h : ∀ entry ∈ entries, f entry.2 = g entry.2) :
    entries.mapValues f = entries.mapValues g :=
  List.map_congr_left fun entry hentry => congrArg _ (h entry hentry)

theorem mapValues_eq_self {f : α → α} {entries : Entries α}
    (h : ∀ entry ∈ entries, f entry.2 = entry.2) : entries.mapValues f = entries := by
  refine (mapValues_congr (g := id) h).trans ?_
  unfold mapValues
  exact List.map_id entries

end Entries

namespace Renaming

variable (ρ : Renaming)

/-- The home of a function on the other side. -/
def home (f : Closure) : FrameId := if f.identity < ρ.kept then f.home else ρ.frame f.home

def closure (f : Closure) : Closure :=
  ⟨ρ.identity f.identity, f.definition.mapSpans ρ.place, ρ.home f⟩

def native (f : Native) : Native := { f with identity := ρ.identity f.identity }

def value : Value → Value
  | .function f => .function (ρ.closure f)
  | .native f => .native (ρ.native f)
  | v => v

def cell : Cell → Cell
  | .array items => .array (items.map ρ.value)
  | .struct fields => .struct (fields.mapValues ρ.value)

def signal : Signal → Signal
  | .jump j place => .jump j (ρ.place place)
  | .transfer kind v place => .transfer kind (ρ.value v) (ρ.place place)

/-! What does not show -/

theorem value_of_isScalar {v : Value} (h : v.isScalar) : ρ.value v = v := by
  cases v with
  | function f => exact absurd h (by simp [Value.isScalar])
  | native f => exact absurd h (by simp [Value.isScalar])
  | _ => rfl

theorem typeName_value (v : Value) : (ρ.value v).typeName = v.typeName := by
  cases v <;> rfl

theorem isCallable_value (v : Value) : (ρ.value v).isCallable = v.isCallable := by
  cases v <;> rfl

theorem isNull_value (v : Value) : (ρ.value v).isNull = v.isNull := by
  cases v <;> rfl

theorem isString_value (v : Value) : (ρ.value v).isString = v.isString := by
  cases v <;> rfl

theorem number_value (v : Value) : (ρ.value v).number = v.number := by
  cases v <;> rfl

theorem toInt32_value (v : Value) : (ρ.value v).toInt32 = v.toInt32 :=
  congrArg Number.toInt32 (ρ.number_value v)

theorem truth_value (v : Value) : (ρ.value v).truth = v.truth := by
  cases v <;> rfl

theorem arithmetic_value (onIntegers : Int32 → Int32 → Int32)
    (onFloats : Single → Single → Single) (a b : Value) :
    (ρ.value a).arithmetic onIntegers onFloats (ρ.value b) = a.arithmetic onIntegers onFloats b := by
  unfold Value.arithmetic
  rw [number_value, number_value]

theorem divide_value (a b : Value) : (ρ.value a).divide (ρ.value b) = a.divide b := by
  unfold Value.divide
  rw [number_value, number_value]

theorem modulo_value (a b : Value) : (ρ.value a).modulo (ρ.value b) = a.modulo b := by
  unfold Value.modulo
  rw [toInt32_value, toInt32_value]

theorem less_value (a b : Value) : (ρ.value a).less (ρ.value b) = a.less b := by
  unfold Value.less
  rw [number_value, number_value]

/-- Callables are told apart by their numbers, and different ones keep different numbers. -/
theorem looselyEqual_value (a b : Value) :
    (ρ.value a).looselyEqual (ρ.value b) = a.looselyEqual b := by
  have hidentity : ∀ i j, (ρ.identity i == ρ.identity j) = (i == j) := fun i j => by
    rw [Bool.eq_iff_iff, beq_iff_eq, beq_iff_eq]
    exact ρ.identity_injective.eq_iff
  cases a with
  | function f =>
    cases b with
    | function g => exact hidentity f.identity g.identity
    | _ => rfl
  | native f =>
    cases b with
    | native g => exact hidentity f.identity g.identity
    | _ => rfl
  | _ => cases b <;> rfl

theorem unary_value (op : UnaryOp) (v : Value) : op.apply (ρ.value v) = op.apply v := by
  cases op with
  | negate =>
    unfold UnaryOp.apply
    rw [number_value]
  | not => exact congrArg (fun b => Value.boolean !b) (ρ.truth_value v)

theorem signature_closure (f : Closure) : (ρ.closure f).signature = f.signature := by
  unfold Closure.signature
  change signature ((f.definition.params.map (Name.mapSpan ρ.place)).map Name.text) = _
  rw [List.map_map]
  rfl

/-! Cells -/

section

variable {ρ} {σ σ' : Store}

theorem items_of_cells (h : σ'.cells = σ.cells.map ρ.cell) (c : CellId) :
    σ'.items c = (σ.items c).map ρ.value := by
  unfold Store.items
  rw [h, Array.getElem?_map]
  rcases σ.cells[c]? with _ | ⟨_ | _⟩ <;> simp [cell]

theorem fields_of_cells (h : σ'.cells = σ.cells.map ρ.cell) (c : CellId) :
    σ'.fields c = (σ.fields c).mapValues ρ.value := by
  unfold Store.fields
  rw [h, Array.getElem?_map]
  rcases σ.cells[c]? with _ | ⟨_ | _⟩ <;> rfl

theorem cell_eq_self {content : Cell} (h : ∀ v ∈ content.values, ρ.value v = v) :
    ρ.cell content = content := by
  cases content with
  | array items =>
    refine congrArg Cell.array ?_
    exact (Array.map_congr_left fun v hv => h v (Array.mem_def.mp hv)).trans (Array.map_id items)
  | struct fields =>
    refine congrArg Cell.struct (Entries.mapValues_eq_self fun entry hentry => ?_)
    exact h entry.2 (List.mem_map_of_mem hentry)

theorem cells_eq_self {cells : Array Cell} (h : ∀ (cell : CellId) (content : Cell),
    cells[cell]? = some content → ∀ v ∈ content.values, ρ.value v = v) :
    cells.map ρ.cell = cells := by
  refine (Array.map_congr_left fun content hcontent => ?_).trans (Array.map_id cells)
  obtain ⟨cell, hcell⟩ := Array.mem_iff_getElem?.mp hcontent
  exact cell_eq_self (h cell content hcell)

theorem textWithin_value (h : σ'.cells = σ.cells.map ρ.cell) (depth : Nat) :
    ∀ around v, (ρ.value v).textWithin σ' depth around = v.textWithin σ depth around := by
  induction depth with
  | zero => exact fun _ _ => rfl
  | succ depth ih =>
    intro around v
    cases v with
    | array c =>
      simp only [value, Value.textWithin, items_of_cells h, Array.toList_map, List.map_map]
      refine congrArg (ite _ _) (congrArg Value.arrayText (List.map_congr_left fun w _ => ?_))
      exact ih (c :: around) w
    | struct c =>
      simp only [value, Value.textWithin, fields_of_cells h, Entries.mapValues, List.map_map]
      refine congrArg (ite _ _) (congrArg Value.structText (List.map_congr_left fun entry _ => ?_))
      exact congrArg _ (ih (c :: around) entry.2)
    | function f => exact ρ.signature_closure f
    | _ => rfl

theorem text_value (h : σ'.cells = σ.cells.map ρ.cell) (v : Value) :
    (ρ.value v).text σ' = v.text σ := by
  unfold Value.text
  rw [textWithin_value h, h, Array.size_map]

/-- Operators give the same values and fail for the same reasons. -/
theorem binary_value (h : σ'.cells = σ.cells.map ρ.cell) (op : BinaryOp) (a b : Value) :
    op.apply σ' (ρ.value a) (ρ.value b) = op.apply σ a b := by
  cases op with
  | add =>
    refine congrArg Except.ok ?_
    unfold Value.add
    rw [isString_value, isString_value, text_value h, text_value h, arithmetic_value]
  | sub => exact congrArg Except.ok (ρ.arithmetic_value _ _ a b)
  | mul => exact congrArg Except.ok (ρ.arithmetic_value _ _ a b)
  | div => exact ρ.divide_value a b
  | mod => exact ρ.modulo_value a b
  | equal => exact congrArg (fun c => Except.ok (Value.boolean c)) (ρ.looselyEqual_value a b)
  | notEqual => exact congrArg (fun c => Except.ok (Value.boolean !c)) (ρ.looselyEqual_value a b)
  | less => exact congrArg (fun c => Except.ok (Value.boolean c)) (ρ.less_value a b)
  | greater => exact congrArg (fun c => Except.ok (Value.boolean c)) (ρ.less_value b a)
  | lessEqual => exact congrArg (fun c => Except.ok (Value.boolean !c)) (ρ.less_value b a)
  | greaterEqual => exact congrArg (fun c => Except.ok (Value.boolean !c)) (ρ.less_value a b)
  | and | or =>
    refine congrArg (fun c => Except.ok (Value.boolean c)) ?_
    rw [truth_value, truth_value]

theorem length?_value (h : σ'.cells = σ.cells.map ρ.cell) (v : Value) :
    (ρ.value v).length? σ' = v.length? σ := by
  cases v with
  | array c =>
    change some (σ'.items c).size = some (σ.items c).size
    rw [items_of_cells h, Array.size_map]
  | struct c =>
    change some (σ'.fields c).length = some (σ.fields c).length
    rw [fields_of_cells h]
    exact congrArg some (List.length_map _)
  | _ => rfl

theorem path_value (h : σ'.cells = σ.cells.map ρ.cell) (v : Value) :
    (ρ.value v).path σ' = v.path σ := by
  have htext := text_value h v
  cases v with
  | null => rfl
  | _ => exact congrArg Except.ok htext

end

end Renaming

/-! Other numbers and nothing else -/

/-- The callable under another number. -/
def Value.renumber (ι : Nat → Nat) : Value → Value
  | .function f => .function { f with identity := ι f.identity }
  | .native f => .native { f with identity := ι f.identity }
  | v => v

/-- Functions that stay at home are the same but for their numbers. -/
theorem Renaming.value_eq_renumber {ρ : Renaming} (hplace : ρ.place = id) {v : Value}
    (hhome : ∀ f, v = .function f → ρ.home f = f.home) : ρ.value v = v.renumber ρ.identity := by
  cases v with
  | function f =>
    change Value.function ⟨ρ.identity f.identity, f.definition.mapSpans ρ.place, ρ.home f⟩ =
      .function ⟨ρ.identity f.identity, f.definition, f.home⟩
    rw [hplace, hhome f rfl, FunctionDef.mapSpans_id]
  | _ => rfl

/-- And with the numbers that they had they are the same. -/
theorem Renaming.value_eq_self {ρ : Renaming} (hplace : ρ.place = id) (hidentity : ρ.identity = id)
    {v : Value} (hhome : ∀ f, v = .function f → ρ.home f = f.home) : ρ.value v = v := by
  rw [ρ.value_eq_renumber hplace hhome, hidentity]
  cases v <;> rfl

/-- The number of a frame when the frame `old` is made once more, as the frame `new`. -/
def frameAgain (old new id : Nat) : Nat :=
  if id = old then new else if id < new then id else id + 1

theorem frameAgain_injective (old new : Nat) : Function.Injective (frameAgain old new) := by
  intro i j hij
  unfold frameAgain at hij
  split_ifs at hij <;> omega

theorem frameAgain_self (old new : Nat) : frameAgain old new old = new := if_pos rfl

theorem frameAgain_ne_old {old new : Nat} (h : old < new) (id : Nat) : frameAgain old new id ≠ old := by
  unfold frameAgain
  split_ifs <;> omega

theorem frameAgain_of_lt {old new id : Nat} (hid : id ≠ old) (hlt : id < new) :
    frameAgain old new id = id :=
  (if_neg hid).trans (if_pos hlt)

theorem frameAgain_of_le {old new id : Nat} (hold : old < new) (hle : new ≤ id) :
    frameAgain old new id = id + 1 :=
  (if_neg (by omega)).trans (if_neg (by omega))

end ScriptEngine
