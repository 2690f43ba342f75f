import ScriptEngine.Store.Entries
import ScriptEngine.Value.Basic

/-!
What values refer to: the cells of arrays and structs, and the frames that hold bindings. Cells are
never given back. A frame is there from its creation until nothing owns it; its number is not used
again, so that a function can tell that the frame it was declared in is gone.
-/
namespace ScriptEngine

inductive Cell where
  | array (items : Array Value)
  | struct (fields : Entries Value)

structure Frame where
  bindings : Entries Value
  parent : Option FrameId
  /-- How many handles on the frame the host holds. -/
  handles : Nat

structure Store where
  /-- A frame that is gone leaves its place empty. -/
  frames : Array (Option Frame)
  cells : Array Cell
  /-- The number that the next callable gets. -/
  nextIdentity : Nat

instance : Inhabited Store := ⟨#[], #[], 0⟩

namespace Store

def empty : Store := ⟨#[], #[], 0⟩

/-! Cells -/

def addCell (σ : Store) (cell : Cell) : CellId × Store :=
  (σ.cells.size, { σ with cells := σ.cells.push cell })

def newArray (σ : Store) (items : Array Value) : Value × Store :=
  let (cell, σ) := σ.addCell (.array items)
  (.array cell, σ)

def newStruct (σ : Store) (fields : Entries Value) : Value × Store :=
  let (cell, σ) := σ.addCell (.struct fields)
  (.struct cell, σ)

def items (σ : Store) (cell : CellId) : Array Value :=
  match σ.cells[cell]? with
  | some (.array items) => items
  | _ => #[]

def fields (σ : Store) (cell : CellId) : Entries Value :=
  match σ.cells[cell]? with
  | some (.struct fields) => fields
  | _ => []

def setItem (σ : Store) (cell : CellId) (i : Nat) (v : Value) : Store :=
  { σ with cells := σ.cells.modify cell fun c =>
      match c with
      | .array items => .array (items.setIfInBounds i v)
      | other => other }

def setField (σ : Store) (cell : CellId) (name : String) (v : Value) : Store :=
  { σ with cells := σ.cells.modify cell fun c =>
      match c with
      | .struct fields => .struct (fields.put name v)
      | other => other }

def newIdentity (σ : Store) : Nat × Store :=
  (σ.nextIdentity, { σ with nextIdentity := σ.nextIdentity + 1 })

/-! Frames -/

def frame? (σ : Store) (id : FrameId) : Option Frame := σ.frames[id]?.join

def isAlive (σ : Store) (id : FrameId) : Bool := (σ.frame? id).isSome

def addFrame (σ : Store) (frame : Frame) : FrameId × Store :=
  (σ.frames.size, { σ with frames := σ.frames.push (some frame) })

/-- A frame with no parent, with one handle on it. -/
def newRoot (σ : Store) : FrameId × Store := σ.addFrame ⟨[], none, 1⟩

/-- A frame below `parent`, with one handle on it. -/
def newChild (σ : Store) (parent : FrameId) : FrameId × Store := σ.addFrame ⟨[], some parent, 1⟩

def modifyFrame (σ : Store) (id : FrameId) (f : Frame → Frame) : Store :=
  { σ with frames := σ.frames.modify id (Option.map f) }

def bindings (σ : Store) (id : FrameId) : Entries Value :=
  match σ.frame? id with
  | some frame => frame.bindings
  | none => []

def parent? (σ : Store) (id : FrameId) : Option FrameId := (σ.frame? id).bind Frame.parent

def relink (σ : Store) (id : FrameId) (parent : Option FrameId) : Store :=
  σ.modifyFrame id fun frame => { frame with parent := parent }

def dropFrame (σ : Store) (id : FrameId) : Store :=
  { σ with frames := σ.frames.setIfInBounds id none }

theorem frame?_addFrame (σ : Store) (frame : Frame) (id : FrameId) :
    (σ.addFrame frame).2.frame? id = if id = σ.frames.size then some frame else σ.frame? id := by
  simp only [frame?, addFrame, Array.getElem?_push]
  split <;> rfl

theorem frame?_modifyFrame (σ : Store) (id other : FrameId) (f : Frame → Frame) :
    (σ.modifyFrame id f).frame? other
      = if id = other then (σ.frame? other).map f else σ.frame? other := by
  simp only [frame?, modifyFrame, Array.getElem?_modify]
  split
  · cases σ.frames[other]? <;> simp
  · rfl

theorem frame?_dropFrame (σ : Store) (id other : FrameId) :
    (σ.dropFrame id).frame? other = if id = other then none else σ.frame? other := by
  simp only [frame?, dropFrame, Array.getElem?_setIfInBounds]
  by_cases h : id = other
  · simp only [h, if_true]
    split <;> rfl
  · simp [h]

theorem parent?_relink {σ : Store} {id : FrameId} (h : σ.isAlive id) (parent : Option FrameId) :
    (σ.relink id parent).parent? id = parent := by
  obtain ⟨frame, h⟩ := Option.isSome_iff_exists.1 h
  simp [parent?, relink, frame?_modifyFrame, h]

theorem bindings_relink (σ : Store) (id other : FrameId) (parent : Option FrameId) :
    (σ.relink id parent).bindings other = σ.bindings other := by
  unfold bindings relink
  rw [frame?_modifyFrame]
  by_cases h : id = other
  · cases h' : σ.frame? other <;> simp [h]
  · simp [h]

theorem items_newArray (σ : Store) (items : Array Value) :
    (σ.newArray items).2.items σ.cells.size = items := by
  simp [Store.items, newArray, addCell]

theorem fields_newStruct (σ : Store) (fields : Entries Value) :
    (σ.newStruct fields).2.fields σ.cells.size = fields := by
  simp [Store.fields, newStruct, addCell]

/-- An assignment to an element changes no length. -/
theorem size_items_setItem (σ : Store) (cell other : CellId) (i : Nat) (v : Value) :
    ((σ.setItem cell i v).items other).size = (σ.items other).size := by
  unfold items setItem
  rw [Array.getElem?_modify]
  by_cases h : cell = other
  · rcases σ.cells[other]? with _ | ⟨_ | _⟩ <;> simp [h]
  · simp [h]

/-- An assignment to a field that is there changes no field names. -/
theorem names_fields_setField {σ : Store} {cell : CellId} {name : String}
    (present : name ∈ (σ.fields cell).names) (v : Value) (other : CellId) :
    ((σ.setField cell name v).fields other).names = (σ.fields other).names := by
  unfold fields setField at *
  rw [Array.getElem?_modify]
  by_cases h : cell = other
  · subst h
    rcases hc : σ.cells[cell]? with _ | ⟨_ | fs⟩
    · simp
    · simp
    · simp only [hc] at present
      simp [Entries.names_put, present]
  · simp [h]

end Store

end ScriptEngine
