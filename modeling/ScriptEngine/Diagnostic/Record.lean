import ScriptEngine.Diagnostic
import ScriptEngine.Text.Quoted

/-!
The written record of an error: an object whose members come in a fixed order, those of an absent
part left out. A record can be read back.
-/
namespace ScriptEngine

namespace Record

def quote (text : String) : List Char := Text.Quoted.encode text.toList

/-- A member that is a number. -/
def numberMember (name : String) (n : Nat) : List Char :=
  quote name ++ ':' :: (toString n).toList

def textMember (name text : String) : List Char := quote name ++ ':' :: quote text

def object (members : List (List Char)) : List Char :=
  Char.ofNat 123 :: (List.intercalate [','] members ++ [Char.ofNat 125])

/-- Reads the given text at the front. -/
def skip? (expected : List Char) (text : List Char) : Option (List Char) :=
  if expected.isPrefixOf text then some (text.drop expected.length) else none

def digits (text : List Char) : List Char := text.takeWhile Char.isDigit

def number? (text : List Char) : Option (Nat × List Char) :=
  match digits text with
  | [] => none
  | ds => some (ds.foldl (fun n d => 10 * n + (d.toNat - '0'.toNat)) 0, text.drop ds.length)

def numberMember? (name : String) (text : List Char) : Option (Nat × List Char) :=
  (skip? (quote name ++ [':']) text).bind number?

def textMember? (name : String) (text : List Char) : Option (String × List Char) :=
  (skip? (quote name ++ [':']) text).bind Text.Quoted.decode
    |>.map fun r => (String.ofList r.1, r.2)

end Record

namespace Span

open Record

def members (s : Span) : List (List Char) :=
  [numberMember "line" s.start.line, numberMember "column" s.start.column,
    numberMember "end_line" s.stop.line, numberMember "end_column" s.stop.column]

def record (s : Span) : String := String.ofList (object s.members)

def read? (text : List Char) : Option (Span × List Char) := do
  let (line, text) ← numberMember? "line" text
  let (column, text) ← numberMember? "column" (← skip? [','] text)
  let (endLine, text) ← numberMember? "end_line" (← skip? [','] text)
  let (endColumn, text) ← numberMember? "end_column" (← skip? [','] text)
  pure (⟨⟨line, column⟩, ⟨endLine, endColumn⟩⟩, text)

end Span

namespace ScriptError

open Record

def record (e : ScriptError) : String :=
  String.ofList (object
    ([textMember "kind" e.kind.name, textMember "message" e.message]
      ++ (e.span.map Span.members).getD []
      ++ (e.sourceLine.map fun line => [textMember "source_line" line]).getD []))

/-- Reads a record as it is written. -/
def ofRecord? (text : String) : Option ScriptError := do
  let text ← skip? [Char.ofNat 123] text.toList
  let (kindName, text) ← textMember? "kind" text
  let kind ← ErrorKind.ofName? kindName
  let (message, text) ← textMember? "message" (← skip? [','] text)
  let (span, text) :=
    match (skip? [','] text).bind Span.read? with
    | some (span, rest) => (some span, rest)
    | none => (none, text)
  let (sourceLine, text) :=
    match (skip? [','] text).bind (textMember? "source_line") with
    | some (line, rest) => (some line, rest)
    | none => (none, text)
  if text = [Char.ofNat 125] then some ⟨kind, message, span, sourceLine⟩ else none

end ScriptError

end ScriptEngine
