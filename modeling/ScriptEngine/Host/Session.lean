import ScriptEngine.Run.Program
import ScriptEngine.Tree.Program

/-!
A host with several sets of bindings. A set is a frame that a name stands for; several names can stand
for one set, and a set is gone when no name stands for it any more. Programs run on a set and leave
their bindings there.
-/
namespace ScriptEngine

/-- How deep calls may be when nothing else is said. -/
def defaultLimit : Nat := 2000

namespace Machine

/-- What a name is bound to after a source text has run on a set of its own, which nothing but the
machine keeps and which stays. -/
def bindingOf? (m : Machine) (source : List Char) (name : String) : Option Value × Machine :=
  match Program.ofSource source with
  | .error _ => (none, m)
  | .ok program =>
    let (frame, store) := m.store.newRoot
    let (_, ran) :=
      { m with store := store, console := Console.silent }.run defaultLimit ampleFuel ⟨frame, none⟩
        program
    (ran.store.getLocal? frame name, { ran with console := m.console, depth := m.depth })

end Machine

structure Session where
  machine : Machine
  sets : Entries FrameId
  /-- How deep calls may be. -/
  limit : Nat
  /-- The set that lies between the standard functions and the bindings of a run. -/
  globals : Option FrameId

namespace Session

def start : Session := ⟨Machine.start, [], defaultLimit, none⟩

def store (s : Session) : Store := s.machine.store

def withStore (s : Session) (store : Store) : Session :=
  { s with machine := { s.machine with store := store } }

/-- The set of a name, which is created when it is mentioned first. -/
def set (s : Session) (name : String) : FrameId × Session :=
  match s.sets.get? name with
  | some frame => (frame, s)
  | none =>
    let (frame, store) := s.store.newRoot
    (frame, { s.withStore store with sets := s.sets.put name frame })

/-- Makes the set of a name the globals. They stay while the session lasts. -/
def withGlobals (s : Session) (name : String) : Session :=
  let (frame, s) := s.set name
  { s.withStore (s.store.retain frame) with globals := some frame }

/-- Runs a program on a set. -/
def run (s : Session) (on : FrameId) (program : Program) : Ending × Session :=
  let (ending, m) := s.machine.run s.limit ampleFuel ⟨on, s.globals⟩ program
  (ending, { s with machine := m })

/-- Calls a script function from the host. -/
def call (s : Session) (f : Closure) (arguments : List Value) (place : Span) :
    Outcome Value :=
  Eval.call s.limit ampleFuel f arguments place s.machine

def bindings (s : Session) (on : FrameId) : Entries Value := s.store.bindings on

def get? (s : Session) (on : FrameId) (name : String) : Option Value := s.store.getLocal? on name

/-- Binds a name; also gives the value that it had. -/
def insert (s : Session) (on : FrameId) (name : String) (v : Value) : Option Value × Session :=
  (s.get? on name, s.withStore (s.store.setLocal on name v))

def remove (s : Session) (on : FrameId) (name : String) : Option Value × Session :=
  (s.get? on name, s.withStore (s.store.removeLocal on name))

/-- Forgets a name; its set goes when it has no other name. -/
def drop (s : Session) (name : String) : Session :=
  match s.sets.get? name with
  | some frame => { s.withStore (s.store.release frame) with sets := s.sets.erase name }
  | none => s

/-- Lets a name stand for a set. -/
def share (s : Session) (on : FrameId) (name : String) : Session :=
  let s := (s.withStore (s.store.retain on)).drop name
  { s with sets := s.sets.put name on }

/-- Lets a name stand for a new set with these bindings. -/
def collect (s : Session) (name : String) (pairs : List (String × Value)) : FrameId × Session :=
  let (frame, store) := s.store.newRoot
  let store := pairs.foldl (fun σ pair => σ.setLocal frame pair.1 pair.2) store
  let s := (s.withStore store).drop name
  (frame, { s with sets := s.sets.put name frame })

end Session

end ScriptEngine
