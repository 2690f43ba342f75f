import ScriptEngine.Run.Outcome

/-!
The functions that the host provides. Each takes as many arguments as it has parameters. The standard
ones reach the console and the files, and look into values.
-/
namespace ScriptEngine

namespace Value

/-- The number of elements, fields or characters. -/
def length? (σ : Store) : Value → Option Nat
  | array cell => some (σ.items cell).size
  | struct cell => some (σ.fields cell).length
  | string text => some text.length
  | _ => none

end Value

/-- The path that a value names. -/
def Value.path (σ : Store) : Value → Except HostFault String
  | null => .error .noPath
  | v => .ok (v.text σ)

namespace Machine

def readFile (m : Machine) (path : Value) : Except HostFault Value × Machine :=
  match path.path m.store with
  | .error fault => (.error fault, m)
  | .ok path => ((m.files.read path).map Value.string, m)

def writeFile (m : Machine) (path text : Value) : Except HostFault Value × Machine :=
  match path.path m.store with
  | .error fault => (.error fault, m)
  | .ok path =>
    if text.isNull then (.error .noText, m)
    else
      match m.files.write path (text.text m.store) with
      | .error fault => (.error fault, m)
      | .ok files => (.ok .null, { m with files := files })

def print (m : Machine) (line : Value) : Except HostFault Value × Machine :=
  let (result, console) := m.console.writeLine (line.text m.store)
  (result.map fun _ => .null, { m with console := console })

def readLine (m : Machine) : Except HostFault Value × Machine :=
  let (result, console) := m.console.readLine
  (result.map fun line => (line.map Value.string).getD .null, { m with console := console })

def keys (m : Machine) : Value → Value × Machine
  | .struct cell =>
    let names := (m.store.fields cell).names.map Value.string
    let (v, store) := m.store.newArray names.toArray
    (v, { m with store := store })
  | _ => (.null, m)

end Machine

namespace NativeAction

/-- Does what the function does with its arguments; a missing argument is null. -/
def run (action : NativeAction) (arguments : List Value) (m : Machine) :
    Except HostFault Value × Machine :=
  let argument (i : Nat) : Value := arguments.getD i .null
  match action with
  | .print => m.print (argument 0)
  | .read => m.readLine
  | .readFile => m.readFile (argument 0)
  | .writeFile => m.writeFile (argument 0) (argument 1)
  | .length =>
    (.ok (((argument 0).length? m.store).elim .null fun n => .integer (Int32.ofNat n)), m)
  | .keys =>
    let (v, m) := m.keys (argument 0)
    (.ok v, m)
  | .typeOf => (.ok (.string (argument 0).typeName.text), m)
  | .gather =>
    let (v, store) := m.store.newArray arguments.toArray
    (.ok v, { m with store := store })
  | .count => (.ok (.integer (Int32.ofNat (arguments.countP fun v => !v.isNull))), m)
  | .fail message => (.error (.custom message), m)
  | .failIo message => (.error (.outside message), m)

end NativeAction

namespace Native

def call (f : Native) (arguments : List Value) (m : Machine) : Except HostFault Value × Machine :=
  f.action.run (f.fit arguments) m

end Native

namespace Store

def newNative (σ : Store) (name : String) (params : List String) (action : NativeAction) :
    Value × Store :=
  let (identity, σ) := σ.newIdentity
  (.native ⟨identity, name, params, action⟩, σ)

/-- The standard functions, with their parameters. -/
def standardNatives : List (String × List String × NativeAction) :=
  [("print", ["line"], .print), ("read", [], .read), ("readFile", ["path"], .readFile),
    ("writeFile", ["path", "text"], .writeFile), ("length", ["x"], .length), ("keys", ["x"], .keys),
    ("typeof", ["x"], .typeOf)]

def standardNames : List String := standardNatives.map Prod.fst

/-- Binds the standard functions in a frame. -/
def installNatives (σ : Store) (frame : FrameId) : Store :=
  standardNatives.foldl (fun σ native =>
    let (v, σ) := σ.newNative native.1 native.2.1 native.2.2
    σ.setLocal frame native.1 v) σ

end Store

end ScriptEngine
