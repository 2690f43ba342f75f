import Mathlib.Logic.Relation
import ScriptEngine.Proofs.Running.Realm
import ScriptEngine.Run.Program

/-!
What bindings lead to. A frame leads to the values that it binds and to the frame above it, a value to
what is in it, and a function to the frame that it was declared in.
-/
namespace ScriptEngine

def Value.cell? : Value → Option CellId
  | array cell => some cell
  | struct cell => some cell
  | _ => none

theorem Value.cell?_eq_none {v : Value} (h : v.isScalar) : v.cell? = none := by
  cases v with
  | array cell => exact absurd h (by simp [isScalar])
  | struct cell => exact absurd h (by simp [isScalar])
  | _ => rfl

/-- The cell that the value has is one of these, and the script function that it is one of those. -/
def Value.HoldsOnly (cells : CellId → Prop) (functions : Closure → Prop) (v : Value) : Prop :=
  (∀ cell, v.cell? = some cell → cells cell) ∧ ∀ f, v = .function f → functions f

namespace Value

variable {cells : CellId → Prop} {functions : Closure → Prop} {cell : CellId}

theorem holdsOnly_of_isScalar {v : Value} (h : v.isScalar) : v.HoldsOnly cells functions := by
  refine ⟨fun cell hcell => absurd hcell (by simp [cell?_eq_none h]), ?_⟩
  rintro f rfl
  exact absurd h (by simp [isScalar])

theorem holdsOnly_array : (array cell).HoldsOnly cells functions ↔ cells cell := by
  refine ⟨fun h => h.1 cell rfl, fun h => ⟨fun _ hcell => ?_, fun f hf => absurd hf (by simp)⟩⟩
  exact Option.some.inj hcell ▸ h

theorem holdsOnly_struct : (struct cell).HoldsOnly cells functions ↔ cells cell := by
  refine ⟨fun h => h.1 cell rfl, fun h => ⟨fun _ hcell => ?_, fun f hf => absurd hf (by simp)⟩⟩
  exact Option.some.inj hcell ▸ h

theorem holdsOnly_function {f : Closure} :
    (function f).HoldsOnly cells functions ↔ functions f := by
  refine ⟨fun h => h.2 f rfl, fun h => ⟨fun _ hcell => absurd hcell (by simp [cell?]), ?_⟩⟩
  intro g hg
  exact function.inj hg ▸ h

theorem holdsOnly_native (f : Native) : (native f).HoldsOnly cells functions :=
  ⟨fun _ hcell => absurd hcell (by simp [cell?]), fun _ hf => absurd hf (by simp)⟩

end Value

/-- Something that a script can get at. -/
inductive Node where
  | frame (id : FrameId)
  | value (v : Value)

namespace Store

/-- The second value is an element or a field of the first. -/
def Contains (σ : Store) (v u : Value) : Prop :=
  ∃ cell content, v.cell? = some cell ∧ σ.cells[cell]? = some content ∧ u ∈ content.values

/-- The value is bound in the frame, or it is in an array or a struct that is bound there, however
deep. -/
def Harbours (σ : Store) (id : FrameId) (v : Value) : Prop :=
  ∃ entry ∈ σ.bindings id, Relation.ReflTransGen σ.Contains entry.2 v

inductive Leads (σ : Store) : Node → Node → Prop where
  | binding {id name v} (h : (name, v) ∈ σ.bindings id) : Leads σ (.frame id) (.value v)
  | above {id parent} (h : σ.parent? id = some parent) : Leads σ (.frame id) (.frame parent)
  | content {v u} (h : σ.Contains v u) : Leads σ (.value v) (.value u)
  | home {f} : Leads σ (.value (.function f)) (.frame f.home)

end Store

namespace Layers

/-- A program that runs on the layers may come to this. -/
def Finds (layers : Layers) (σ : Store) (node : Node) : Prop :=
  ∃ id, (id = layers.bindings ∨ layers.globals = some id) ∧
    Relation.ReflTransGen σ.Leads (.frame id) node

theorem Finds.tail {layers : Layers} {σ : Store} {node next : Node} (h : layers.Finds σ node)
    (hnext : σ.Leads node next) : layers.Finds σ next := by
  obtain ⟨id, hid, hway⟩ := h
  exact ⟨id, hid, hway.tail hnext⟩

end Layers

end ScriptEngine
