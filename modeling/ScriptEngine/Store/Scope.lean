import ScriptEngine.Store.Basic
import ScriptEngine.Text.Escaped

/-!
Names and the chain of frames. A name means the binding in the innermost frame that has it, starting
from a frame and going up. New names come into the frame itself.
-/
namespace ScriptEngine

inductive ScopeFault where
  | alreadyDeclared (name : String)
  | notDeclared (name : String)
  deriving DecidableEq

namespace ScopeFault

def message : ScopeFault → String
  | alreadyDeclared name => "Identifier " ++ name ++ " already declared in current scope"
  | notDeclared name => "Identifier " ++ name ++ " is not declared"

end ScopeFault

namespace Store

def getLocal? (σ : Store) (id : FrameId) (name : String) : Option Value := (σ.bindings id).get? name

def hasLocal (σ : Store) (id : FrameId) (name : String) : Bool := (σ.bindings id).has name

def setLocal (σ : Store) (id : FrameId) (name : String) (v : Value) : Store :=
  σ.modifyFrame id fun frame => { frame with bindings := frame.bindings.put name v }

def removeLocal (σ : Store) (id : FrameId) (name : String) : Store :=
  σ.modifyFrame id fun frame => { frame with bindings := frame.bindings.erase name }

def localNames (σ : Store) (id : FrameId) : List String := (σ.bindings id).names

def declare (σ : Store) (id : FrameId) (name : String) (v : Value) : Except ScopeFault Store :=
  if σ.hasLocal id name then .error (.alreadyDeclared name) else .ok (σ.setLocal id name v)

/-- Looks for a name in at most `count` frames, from a frame upwards. -/
def resolveWithin (σ : Store) (name : String) : Nat → FrameId → Option FrameId
  | 0, _ => none
  | count + 1, id =>
    match σ.frame? id with
    | none => none
    | some frame =>
      if frame.bindings.has name then some id
      else
        match frame.parent with
        | none => none
        | some parent => resolveWithin σ name count parent

/-- The innermost frame that has the name. A chain without repetition is no longer than the number
of frames. -/
def resolve (σ : Store) (id : FrameId) (name : String) : Option FrameId :=
  σ.resolveWithin name σ.frames.size id

def read (σ : Store) (id : FrameId) (name : String) : Except ScopeFault Value :=
  match (σ.resolve id name).bind fun frame => σ.getLocal? frame name with
  | some v => .ok v
  | none => .error (.notDeclared name)

def write (σ : Store) (id : FrameId) (name : String) (v : Value) : Except ScopeFault Store :=
  match σ.resolve id name with
  | some frame => .ok (σ.setLocal frame name v)
  | none => .error (.notDeclared name)

theorem bindings_setLocal {σ : Store} {id : FrameId} (h : σ.isAlive id) (name : String) (v : Value) :
    (σ.setLocal id name v).bindings id = (σ.bindings id).put name v := by
  obtain ⟨frame, h⟩ := Option.isSome_iff_exists.1 h
  simp [bindings, setLocal, frame?_modifyFrame, h]

theorem bindings_setLocal_of_ne {σ : Store} {id other : FrameId} (h : id ≠ other) (name : String)
    (v : Value) : (σ.setLocal id name v).bindings other = σ.bindings other := by
  simp [bindings, setLocal, frame?_modifyFrame, h]

theorem getLocal?_setLocal_self {σ : Store} {id : FrameId} (h : σ.isAlive id) (name : String)
    (v : Value) : (σ.setLocal id name v).getLocal? id name = some v := by
  rw [getLocal?, bindings_setLocal h, Entries.get?_put_self]

theorem parent?_setLocal (σ : Store) (id other : FrameId) (name : String) (v : Value) :
    (σ.setLocal id name v).parent? other = σ.parent? other := by
  unfold parent? setLocal
  rw [frame?_modifyFrame]
  by_cases h : id = other
  · cases σ.frame? other <;> simp [h]
  · simp [h]

/-- The frame that a name resolves to has the name. -/
theorem hasLocal_of_resolve {σ : Store} {id frame : FrameId} {name : String}
    (h : σ.resolve id name = some frame) : σ.hasLocal frame name := by
  unfold resolve at h
  generalize σ.frames.size = count at h
  fun_induction resolveWithin σ name count id with
  | case1 => simp at h
  | case2 => simp at h
  | case3 count id f hf has =>
    obtain rfl := Option.some.inj h
    simpa [hasLocal, bindings, hf] using has
  | case4 => simp at h
  | case5 count id f hf has parent hp ih => exact ih h

/-- The names in a frame, for inspection. -/
def inspectScope (σ : Store) (id : FrameId) : String :=
  "Scope([" ++ String.intercalate ", " ((σ.localNames id).map Text.Escaped.quote) ++ "])"

end Store

end ScriptEngine
