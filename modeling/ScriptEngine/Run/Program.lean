import ScriptEngine.Run.Evaluator
import ScriptEngine.Store.Ownership

/-!
Running a whole program on a set of bindings. For the time of the run the frame of the bindings is
linked below the frame of the globals, if these are another set, and that below a new frame with the
standard functions. Afterwards every frame has the parent it had before.
-/
namespace ScriptEngine

/-- More fuel than a computation can use up in practice. -/
def ampleFuel : Nat := 1 <<< 60

/-- What a run comes to. -/
inductive Ending where
  | value (v : Value)
  | error (e : ScriptError)
  | exhausted

/-- The frames that are linked for a run: the set of bindings and the globals above it. -/
structure Layers where
  bindings : FrameId
  globals : Option FrameId

namespace Layers

/-- The globals as a layer of their own. -/
def upper? (layers : Layers) : Option FrameId :=
  layers.globals.filter (· ≠ layers.bindings)

/-- The frames of the layers, from the top, with the parents they have. -/
def parents (layers : Layers) (σ : Store) : List (FrameId × Option FrameId) :=
  (layers.upper?.toList ++ [layers.bindings]).map fun frame => (frame, σ.parent? frame)

/-- Links the layers below `top`, each below the one before. -/
def link (layers : Layers) (top : FrameId) (σ : Store) : Store :=
  match layers.upper? with
  | some upper => (σ.relink upper (some top)).relink layers.bindings (some upper)
  | none => σ.relink layers.bindings (some top)

/-- Gives the frames the parents that they had. -/
def restore (parents : List (FrameId × Option FrameId)) (σ : Store) : Store :=
  parents.foldr (fun frame σ => σ.relink frame.1 frame.2) σ

end Layers

namespace Machine

/-- What the outcome of a program's statements means for the host. -/
def conclude : Outcome Value → Ending × Machine
  | .done v m => (.value v, m)
  | .signalled (.transfer .exit v _) m => (.value v, m)
  | .signalled (.transfer .throw v place) m =>
    (.error ((RuntimeFault.uncaughtThrow (v.text m.store)).toError place), m)
  | .signalled s m => (.error ((RuntimeFault.misplaced s.keyword).toError s.place), m)
  | .failed fault place m => (.error (fault.toError place), m)
  | .exhausted m => (.exhausted, m)

/-- The machine when the statements of a program begin, and the new frame with the standard
functions. -/
def begin (layers : Layers) (m : Machine) : FrameId × Machine :=
  let (top, store) := m.store.newRoot
  (top, { m with store := layers.link top (store.installNatives top), depth := 0 })

/-- Runs a program with at most `limit` calls of script functions inside one another. -/
def run (limit fuel : Nat) (layers : Layers) (program : Program) (m : Machine) : Ending × Machine :=
  let (top, started) := m.begin layers
  let (ending, ended) :=
    conclude (Eval.script limit fuel layers.bindings .null program.body started)
  (ending, { ended with store := (Layers.restore (layers.parents m.store) ended.store).dropFrame top })

end Machine

end ScriptEngine
