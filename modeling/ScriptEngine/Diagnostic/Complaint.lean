import ScriptEngine.Diagnostic
import ScriptEngine.Token.Basic

/-!
What can be wrong with a source text: pieces that are no token, and tokens in places where the
grammar has no use for them.
-/
namespace ScriptEngine

inductive SourceFault where
  | unexpectedCharacter (c : Char)
  | unterminatedComment
  | unterminatedString
  /-- An escape in a string literal that stands for nothing; it is quoted with this character. -/
  | invalidEscape (quoted : Char)
  | integerOutOfRange (digits : List Char)
  | expected (wanted got : TokenKind)
  | expectedName (got : TokenKind)
  | expectedExpression (got : TokenKind)
  | expectedAggregate (got : TokenKind)
  | strayBrace
  | duplicateParameter (name : String)
  | duplicateField (name : String)
  | nestingTooDeep
  deriving DecidableEq

/-- Statements, parentheses and unary operators nest at most this deep. -/
def maxNesting : Nat := 100

namespace SourceFault

def message : SourceFault → String
  | unexpectedCharacter c => "Unexpected character '" ++ c.toString ++ "'"
  | unterminatedComment => "Unterminated block comment"
  | unterminatedString => "Unterminated string literal"
  | invalidEscape quoted => "Invalid escape sequence '\\" ++ quoted.toString ++ "'"
  | integerOutOfRange digits => "Integer literal " ++ String.ofList digits ++ " is out of range"
  | expected wanted got => "expected '" ++ wanted.text ++ "', got '" ++ got.text ++ "'"
  | expectedName got => "expected identifier, got '" ++ got.text ++ "'"
  | expectedExpression got => "expected expression, got '" ++ got.text ++ "'"
  | expectedAggregate got =>
    "expected '\x7b' or '[' after 'array', got '" ++ got.text ++ "'"
  | strayBrace => "unexpected '\x7d'"
  | duplicateParameter name => "duplicate parameter '" ++ name ++ "'"
  | duplicateField name => "duplicate field '" ++ name ++ "' in struct literal"
  | nestingTooDeep => "maximum nesting depth is " ++ toString maxNesting

end SourceFault

/-- A fault and the place it points to. -/
structure Complaint where
  fault : SourceFault
  span : Span
  deriving DecidableEq

namespace Complaint

/-- The error that is reported for a complaint about a source text. -/
def toError (source : List Char) (c : Complaint) : ScriptError :=
  ScriptError.inSource source c.fault.message c.span

end Complaint

end ScriptEngine
