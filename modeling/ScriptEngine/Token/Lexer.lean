import ScriptEngine.Diagnostic.Complaint
import ScriptEngine.Token.Number
import ScriptEngine.Token.Quotation

/-!
From text to tokens. The text is cut into pieces: blanks and comments, tokens, and stray characters.
Each piece is found from its first character and has a length, so the pieces tile the text. Once the
number of complaints has reached the limit, the next piece that is not blank ends the reading, as if
the text ended there.
-/
namespace ScriptEngine

inductive Piece where
  /-- A blank or a comment. -/
  | trivia
  | token (kind : TokenKind)
  /-- A character that begins no token. -/
  | stray
  deriving DecidableEq

/-- A piece at the front of a text: the number of its characters after the first, and what is wrong
with it. -/
structure Scanned where
  piece : Piece
  extra : Nat
  complaints : List Complaint

namespace Scanned

def isBlank (c : Char) : Bool := c == ' ' || c == '\t' || c == '\r' || c == '\n'

def startsName (c : Char) : Bool := c.isAlpha || c == '_'

def continuesName (c : Char) : Bool := c.isAlphanum || c == '_'

/-- The length of a block comment's text with its end mark, when it has one. -/
def commentLength : List Char → Option Nat
  | '*' :: '/' :: _ => some 2
  | _ :: rest => (commentLength rest).map (· + 1)
  | [] => none

def lineCommentLength (text : List Char) : Nat := (text.takeWhile (· != '\n')).length

/-- The longest symbol at the front, with the number of its characters after the first. -/
def symbol? (c : Char) (rest : List Char) : Option (Symbol × Nat) :=
  let pair (second : Char) (double single : Symbol) : Option (Symbol × Nat) :=
    if rest.head? = some second then some (double, 1) else some (single, 0)
  let single (s : Symbol) : Option (Symbol × Nat) := some (s, 0)
  if c = '+' then pair '+' .plusPlus .plus
  else if c = '-' then pair '-' .minusMinus .minus
  else if c = '=' then pair '=' .equal .assign
  else if c = '!' then pair '=' .notEqual .not
  else if c = '<' then pair '=' .lessEqual .less
  else if c = '>' then pair '=' .greaterEqual .greater
  else if c = '*' then single .star
  else if c = '/' then single .slash
  else if c = '%' then single .percent
  else if c = '&' then if rest.head? = some '&' then some (.and, 1) else none
  else if c = '|' then if rest.head? = some '|' then some (.or, 1) else none
  else if c = '(' then single .leftParen
  else if c = ')' then single .rightParen
  else if c = Char.ofNat 123 then single .leftBrace
  else if c = Char.ofNat 125 then single .rightBrace
  else if c = '[' then single .leftBracket
  else if c = ']' then single .rightBracket
  else if c = ',' then single .comma
  else if c = ';' then single .semicolon
  else if c = '.' then single .dot
  else none

def word (text : String) : TokenKind :=
  match Keyword.ofText? text with
  | some k => .keyword k
  | none => .name text

/-- The span of a piece that lies on one line. -/
def onLine (p : Position) (extra : Nat) : Span := ⟨p, ⟨p.line, p.column + extra⟩⟩

def number (p : Position) (text : List Char) : Scanned :=
  let literal := NumberLiteral.scan text
  let extra := literal.length - 1
  if literal.isWhole then
    match literal.integer? with
    | some value => ⟨.token (.integer value), extra, []⟩
    | none =>
      ⟨.token (.integer 0), extra, [⟨.integerOutOfRange literal.whole, onLine p extra⟩]⟩
  else ⟨.token (.float literal.single), extra, []⟩

def comment? (p : Position) (c : Char) (rest : List Char) : Option Scanned :=
  match c, rest with
  | '/', '/' :: rest => some ⟨.trivia, 1 + lineCommentLength rest, []⟩
  | '/', '*' :: text =>
    match commentLength text with
    | some length => some ⟨.trivia, 1 + length, []⟩
    | none =>
      some ⟨.trivia, rest.length, [⟨.unterminatedComment, ⟨p, (p.after (c :: rest)).back⟩⟩]⟩
  | _, _ => none

/-- The piece that begins at `p` with the character `c`. -/
def first (p : Position) (c : Char) (rest : List Char) : Scanned :=
  if isBlank c then ⟨.trivia, 0, []⟩
  else if c = '"' then
    let literal := Quotation.scan p (p.advance c) rest
    ⟨.token (.string (String.ofList literal.text)), literal.length, literal.complaints⟩
  else if c.isDigit then number p (c :: rest)
  else if startsName c then
    let tail := rest.takeWhile continuesName
    ⟨.token (word (String.ofList (c :: tail))), tail.length, []⟩
  else
    match comment? p c rest with
    | some scanned => scanned
    | none =>
      match symbol? c rest with
      | some (s, extra) => ⟨.token (.symbol s), extra, []⟩
      | none => ⟨.stray, 0, [⟨.unexpectedCharacter c, Span.point p⟩]⟩

end Scanned

/-- The tokens of a text, the last of them the end of file, and the complaints about it. -/
structure Lexed where
  tokens : List Token
  complaints : List Complaint

namespace Lexed

def stop (p : Position) : Lexed := ⟨[⟨.endOfFile, .point p⟩], []⟩

def prepend (tokens : List Token) (complaints : List Complaint) (l : Lexed) : Lexed :=
  ⟨tokens ++ l.tokens, complaints ++ l.complaints⟩

/-- Reads on at `p`, when `count` complaints have been made and the next `skip` characters belong to
the piece before. -/
def readFrom (p : Position) (count : Nat) : List Char → Nat → Lexed
  | [], _ => stop p
  | c :: rest, skip + 1 => readFrom (p.advance c) count rest skip
  | c :: rest, 0 =>
    let scanned := Scanned.first p c rest
    let next := readFrom (p.advance c) (count + scanned.complaints.length) rest scanned.extra
    match scanned.piece with
    | .trivia => prepend [] scanned.complaints next
    | .token kind =>
      if maxErrors ≤ count then stop p
      else prepend [⟨kind, Scanned.onLine p scanned.extra⟩] scanned.complaints next
    | .stray => if maxErrors ≤ count then stop p else prepend [] scanned.complaints next

end Lexed

/-- Reads a source text. -/
def lex (source : List Char) : Lexed := Lexed.readFrom ⟨1, 1⟩ 0 source 0

end ScriptEngine
