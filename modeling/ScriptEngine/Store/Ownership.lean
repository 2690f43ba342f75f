import ScriptEngine.Store.Basic

/-!
Who keeps a frame. The host keeps the frames on which it holds handles, and a frame keeps its parent.
When nothing keeps a frame any more it goes, and its parent may go with it.
-/
namespace ScriptEngine.Store

def hasChild (σ : Store) (id : FrameId) : Bool :=
  σ.frames.any fun frame =>
    match frame with
    | some frame => frame.parent == some id
    | none => false

def isKept (σ : Store) (id : FrameId) : Bool :=
  match σ.frame? id with
  | some frame => frame.handles != 0 || σ.hasChild id
  | none => false

/-- Takes away a frame that nothing keeps, then its parent if nothing keeps that, and so on for at
most `count` frames. -/
def collapse (σ : Store) : Nat → FrameId → Store
  | 0, _ => σ
  | count + 1, id =>
    if σ.isKept id then σ
    else
      let parent := σ.parent? id
      let σ := σ.dropFrame id
      match parent with
      | some parent => σ.collapse count parent
      | none => σ

/-- Takes another handle on a frame. -/
def retain (σ : Store) (id : FrameId) : Store :=
  σ.modifyFrame id fun frame => { frame with handles := frame.handles + 1 }

/-- Gives a handle back. -/
def release (σ : Store) (id : FrameId) : Store :=
  let σ := σ.modifyFrame id fun frame => { frame with handles := frame.handles - 1 }
  σ.collapse σ.frames.size id

/-- Links a frame to another parent; the old one may go. -/
def setParent (σ : Store) (id : FrameId) (parent : Option FrameId) : Store :=
  let old := σ.parent? id
  let σ := σ.relink id parent
  match old with
  | some old => σ.collapse σ.frames.size old
  | none => σ

end ScriptEngine.Store
