import ScriptEngine.Run.Evaluator
import ScriptEngine.Store.Ownership

/-!
Numbered handles of a host on frames. A handle keeps its frame until it is released; a weak handle
only knows whether its frame is still there.
-/
namespace ScriptEngine

structure Handles where
  machine : Machine
  /-- The frames of the handles; a released handle has none. -/
  held : Array (Option FrameId)
  weak : Array FrameId

namespace Handles

def start : Handles := ⟨Machine.start, #[], #[]⟩

def store (h : Handles) : Store := h.machine.store

def withStore (h : Handles) (store : Store) : Handles :=
  { h with machine := { h.machine with store := store } }

def frame? (h : Handles) (handle : Nat) : Option FrameId := h.held[handle]?.join

/-- The lowest handle on a frame. -/
def handle? (h : Handles) (frame : FrameId) : Option Nat := h.held.idxOf? (some frame)

/-- Numbers a new frame, which has one handle on it. -/
def hold (h : Handles) (frame : FrameId × Store) : Nat × Handles :=
  (h.held.size, { h.withStore frame.2 with held := h.held.push (some frame.1) })

def root (h : Handles) : Nat × Handles := h.hold h.store.newRoot

def child (h : Handles) (parent : FrameId) : Nat × Handles := h.hold (h.store.newChild parent)

def release (h : Handles) (handle : Nat) : Handles :=
  match h.frame? handle with
  | some frame =>
    { h.withStore (h.store.release frame) with held := h.held.setIfInBounds handle none }
  | none => h

/-- Takes a weak handle on a frame. -/
def weaken (h : Handles) (frame : FrameId) : Nat × Handles :=
  (h.weak.size, { h with weak := h.weak.push frame })

/-- The frame of a weak handle, if it is still there. -/
def upgrade? (h : Handles) (handle : Nat) : Option FrameId :=
  h.weak[handle]?.filter h.store.isAlive

end Handles

end ScriptEngine
