import ScriptEngine.Source.Span
import ScriptEngine.Numeric.Notation

/-!
The tokens of a script: literals, names, keywords and symbols. Every token knows the text with which
reports name it, and the span that it covers.
-/
namespace ScriptEngine

inductive Keyword where
  | var | function | if | else | while | break | continue | return | exit | throw | try | catch
  | array | struct | true | false | null
  deriving DecidableEq

namespace Keyword

def all : List Keyword :=
  [var, function, .if, .else, .while, .break, .continue, .return, exit, throw, .try, .catch,
    array, struct, true, false, null]

def text : Keyword → String
  | var => "var"
  | function => "function"
  | .if => "if"
  | .else => "else"
  | .while => "while"
  | .break => "break"
  | .continue => "continue"
  | .return => "return"
  | exit => "exit"
  | throw => "throw"
  | .try => "try"
  | .catch => "catch"
  | array => "array"
  | struct => "struct"
  | true => "true"
  | false => "false"
  | null => "null"

def ofText? (text : String) : Option Keyword := all.find? (·.text == text)

theorem ofText?_text (k : Keyword) : ofText? k.text = some k := by
  cases k <;> decide

theorem text_of_ofText? {text : String} {k : Keyword} (h : ofText? text = some k) :
    k.text = text := by
  simpa using List.find?_some h

end Keyword

inductive Symbol where
  | plus | minus | star | slash | percent | plusPlus | minusMinus
  | assign | equal | notEqual | not | less | greater | lessEqual | greaterEqual | and | or
  | leftParen | rightParen | leftBrace | rightBrace | leftBracket | rightBracket
  | comma | semicolon | dot
  deriving DecidableEq

namespace Symbol

def text : Symbol → String
  | plus => "+"
  | minus => "-"
  | star => "*"
  | slash => "/"
  | percent => "%"
  | plusPlus => "++"
  | minusMinus => "--"
  | assign => "="
  | equal => "=="
  | notEqual => "!="
  | not => "!"
  | less => "<"
  | greater => ">"
  | lessEqual => "<="
  | greaterEqual => ">="
  | and => "&&"
  | or => "||"
  | leftParen => "("
  | rightParen => ")"
  | leftBrace => "\x7b"
  | rightBrace => "\x7d"
  | leftBracket => "["
  | rightBracket => "]"
  | comma => ","
  | semicolon => ";"
  | dot => "."

theorem text_injective {s t : Symbol} (h : s.text = t.text) : s = t := by
  cases s <;> cases t <;> simp_all [text]

end Symbol

inductive TokenKind where
  | integer (value : Int32)
  | float (value : Single)
  /-- A string literal, with its escapes resolved. -/
  | string (text : String)
  | name (text : String)
  | keyword (word : Keyword)
  | symbol (sign : Symbol)
  | endOfFile
  deriving DecidableEq

namespace TokenKind

def isKeyword : TokenKind → Bool
  | keyword _ => true
  | _ => false

/-- How a report names the token. -/
def text : TokenKind → String
  | integer value => toString value.toInt
  | float value => value.literalText
  | string text => "\"" ++ text ++ "\""
  | name text => text
  | keyword word => word.text
  | symbol s => s.text
  | endOfFile => "end of file"

end TokenKind

structure Token where
  kind : TokenKind
  span : Span
  deriving DecidableEq

end ScriptEngine
