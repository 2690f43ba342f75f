import ScriptEngine.Token.Lexer
import ScriptEngine.Tree.StmtReader

/-!
From a source text to a program. Complaints about the text itself and about its tokens are reported
together, in the order of their places; a program is there only when nobody complains.
-/
namespace ScriptEngine

/-- More than the recursion of a reader needs for so many tokens. -/
def readingFuel (tokens : List Token) : Nat := 16 * (tokens.length + 1)

/-- A program, when there is one, and the complaints about the text. -/
structure Parsed where
  program : Option Program
  complaints : List Complaint

namespace Program

/-- Reads the tokens of a script, the last of which is the end of file. -/
def ofTokens (tokens : List Token) : Parsed :=
  let start := Cursor.start tokens
  match Reader.script (readingFuel tokens) start with
  | .done body c =>
    let program : Program := ⟨body, start.here.merge c.previous⟩
    ⟨if c.complaints.isEmpty then some program else none, c.complaints⟩
  | .failed c => ⟨none, c.complaints⟩
  | .exhausted => ⟨none, []⟩

end Program

/-- Reads a source text. -/
def parse (source : List Char) : Parsed :=
  let lexed := lex source
  let parsed := Program.ofTokens lexed.tokens
  if lexed.complaints.isEmpty then parsed
  else
    let complaints := (lexed.complaints ++ parsed.complaints).mergeSort
      fun a b => decide (a.span.start ≤ b.span.start)
    ⟨none, complaints.take maxErrors⟩

/-- The program of a source text, or the first error in it. -/
def Program.ofSource (source : List Char) : Except ScriptError Program :=
  let parsed := parse source
  match parsed.complaints, parsed.program with
  | complaint :: _, _ => .error (complaint.toError source)
  | [], some program => .ok program
  | [], none => .ok ⟨[], .point ⟨1, 1⟩⟩

end ScriptEngine
