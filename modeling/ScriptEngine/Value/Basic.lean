import ScriptEngine.Tree.Basic

/-!
The values of scripts. Arrays and structs are shared: the value is the number of a cell of the store.
A script function knows the frame in which it was declared without owning it. Callables are told
apart by numbers of their own.
-/
namespace ScriptEngine

/-- The number of a frame. No two frames ever have the same. -/
abbrev FrameId := Nat

/-- The number of an array or a struct. -/
abbrev CellId := Nat

structure Closure where
  identity : Nat
  definition : FunctionDef
  home : FrameId

/-- What a host function does. -/
inductive NativeAction where
  | print
  | read
  | readFile
  | writeFile
  | length
  | keys
  | typeOf
  /-- Gives back its arguments in a new array. -/
  | gather
  /-- Counts the arguments that are not null. -/
  | count
  | fail (message : String)
  | failIo (message : String)
  deriving DecidableEq

structure Native where
  identity : Nat
  name : String
  params : List String
  action : NativeAction

inductive Value where
  | null
  | boolean (b : Bool)
  | integer (n : Int32)
  | float (x : Single)
  | string (text : String)
  | array (cell : CellId)
  | struct (cell : CellId)
  | function (f : Closure)
  | native (f : Native)

instance : Inhabited Value := ⟨.null⟩

inductive TypeName where
  | void | boolean | integer | float | string | array | struct | function | native
  deriving DecidableEq

namespace TypeName

def text : TypeName → String
  | void => "void"
  | boolean => "boolean"
  | integer => "integer"
  | float => "float"
  | string => "string"
  | array => "array"
  | struct => "struct"
  | function => "function"
  | native => "native"

end TypeName

def signature (params : List String) : String :=
  "function(" ++ String.intercalate ", " params ++ ")"

namespace Closure

def name (c : Closure) : String := c.definition.name.text

def signature (c : Closure) : String := ScriptEngine.signature (c.definition.params.map Name.text)

end Closure

namespace Native

def arity (f : Native) : Nat := f.params.length

def signature (f : Native) : String := ScriptEngine.signature f.params

/-- As many arguments as there are parameters: missing ones are null, others are dropped. -/
def fit (f : Native) (arguments : List Value) : List Value :=
  arguments.take f.arity ++ List.replicate (f.arity - arguments.length) .null

theorem length_fit (f : Native) (arguments : List Value) : (f.fit arguments).length = f.arity := by
  simp [fit]
  omega

end Native

namespace Value

def typeName : Value → TypeName
  | null => .void
  | boolean _ => .boolean
  | integer _ => .integer
  | float _ => .float
  | string _ => .string
  | array _ => .array
  | struct _ => .struct
  | function _ => .function
  | native _ => .native

def isNull : Value → Bool
  | null => true
  | _ => false

def isCallable : Value → Bool
  | function _ => true
  | native _ => true
  | _ => false

def integer? : Value → Option Int32
  | integer n => some n
  | _ => none

def string? : Value → Option String
  | string text => some text
  | _ => none

end Value

def Literal.toValue : Literal → Value
  | integer n => .integer n
  | float x => .float x
  | string text => .string text
  | boolean b => .boolean b
  | null => .null

end ScriptEngine
