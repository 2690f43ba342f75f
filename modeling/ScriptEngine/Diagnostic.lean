import ScriptEngine.Source.Span
import ScriptEngine.Source.Lines

/-!
What is reported to the host when a script cannot be read or stops: the kind of error, a message,
the place it points to and, for errors of the source text, the line it quotes.
-/
namespace ScriptEngine

inductive ErrorKind where
  /-- The source text is malformed. -/
  | malformed
  /-- A name is declared twice in one scope, or not at all. -/
  | declaration
  /-- An array, string, struct or function was needed. -/
  | typeMismatch
  | indexOutOfBounds
  | memberNotFound
  /-- A function was used as a plain value. -/
  | functionReference
  /-- A throw that nothing caught. -/
  | userThrow
  /-- A jump outside the construct it belongs to. -/
  | illegalSignal
  | hostIo
  /-- Arithmetic, sizes and call depth. -/
  | runtime
  deriving DecidableEq

namespace ErrorKind

def all : List ErrorKind :=
  [malformed, declaration, typeMismatch, indexOutOfBounds, memberNotFound, functionReference,
    userThrow, illegalSignal, hostIo, runtime]

def text : ErrorKind → String
  | malformed => "syntax error"
  | declaration => "declaration error"
  | typeMismatch => "type mismatch"
  | indexOutOfBounds => "index out of bounds"
  | memberNotFound => "member not found"
  | functionReference => "function reference"
  | userThrow => "uncaught throw"
  | illegalSignal => "illegal signal"
  | hostIo => "host I/O error"
  | runtime => "runtime error"

/-- The name of the kind in a written record. -/
def name : ErrorKind → String
  | malformed => "syntax"
  | declaration => "declaration"
  | typeMismatch => "type_mismatch"
  | indexOutOfBounds => "index_out_of_bounds"
  | memberNotFound => "member_not_found"
  | functionReference => "function_reference"
  | userThrow => "user_throw"
  | illegalSignal => "illegal_signal"
  | hostIo => "host_io"
  | runtime => "runtime"

def ofName? (name : String) : Option ErrorKind := all.find? (·.name == name)

theorem ofName?_name (kind : ErrorKind) : ofName? kind.name = some kind := by
  cases kind <;> decide

end ErrorKind

structure ScriptError where
  kind : ErrorKind
  message : String
  span : Option Span
  /-- The line that the error points into, when the source is known. -/
  sourceLine : Option String
  deriving DecidableEq

/-- At most this many errors of one source text are reported. -/
def maxErrors : Nat := 20

namespace ScriptError

def located (kind : ErrorKind) (message : String) (span : Span) : ScriptError :=
  ⟨kind, message, some span, none⟩

/-- An error of the source text, with the line in which its span starts. -/
def inSource (source : List Char) (message : String) (span : Span) : ScriptError :=
  ⟨.malformed, message, some span, some (Source.quotedLine source span.start.line)⟩

def text (e : ScriptError) : String :=
  match e.span with
  | none => s!"{e.kind.text}: {e.message}"
  | some span => s!"{e.kind.text}: {e.message} at {span.text}"

end ScriptError

end ScriptEngine
