import Mathlib.Tactic.SplitIfs
import ScriptEngine.Token.Lexer

/-!
How tokens are written. A keyword or a symbol is written in one way; a number, a name or a string has
its characters, and a string may write some of them as escapes. Between two tokens there is a blank,
and after it whatever blanks and comments one likes.
-/
namespace ScriptEngine

/-! Numbers -/

/-- A row of decimal digits, at least one. -/
structure Digits where
  text : List Char
  nonempty : text ≠ []
  digits : ∀ c ∈ text, c.isDigit

namespace Digits

/-- The number that the digits stand for. -/
def number (d : Digits) : Nat := Nat.ofDigitChars 10 d.text 0

/-- A number without leading zeros. -/
def ofNat (n : Nat) : Digits :=
  ⟨Nat.toDigits 10 n, Nat.toDigits_ne_nil,
    fun _ hc => Nat.isDigit_of_mem_toDigits (by decide) (by decide) hc⟩

@[simp] theorem number_ofNat (n : Nat) : (ofNat n).number = n :=
  Nat.ofDigitChars_toDigits (by decide) (by decide)

/-- Two rows of digits, one after the other. -/
def append (a b : Digits) : Digits where
  text := a.text ++ b.text
  nonempty := by simp [a.nonempty]
  digits := fun c hc => (List.mem_append.1 hc).elim (a.digits c) (b.digits c)

end Digits

structure ExponentSpelling where
  capital : Bool
  /-- Whether the sign is a minus, when one is written. -/
  minus? : Option Bool
  digits : Digits

namespace ExponentSpelling

def mark (s : ExponentSpelling) : Char := if s.capital then 'E' else 'e'

def sign (s : ExponentSpelling) : List Char :=
  match s.minus? with
  | none => []
  | some true => ['-']
  | some false => ['+']

def text (s : ExponentSpelling) : List Char := s.mark :: (s.sign ++ s.digits.text)

def value (s : ExponentSpelling) : Int :=
  if s.minus? = some true then -s.digits.number else s.digits.number

end ExponentSpelling

/-- A float literal has a point between digits, an exponent, or both. -/
inductive FloatSpelling where
  | pointed (whole fraction : Digits) (exponent? : Option ExponentSpelling)
  | scaled (whole : Digits) (exponent : ExponentSpelling)

namespace FloatSpelling

def text : FloatSpelling → List Char
  | pointed whole fraction exponent? =>
    whole.text ++ '.' :: (fraction.text ++ exponent?.elim [] ExponentSpelling.text)
  | scaled whole exponent => whole.text ++ exponent.text

/-- The number as it is written, exactly. -/
def decimal : FloatSpelling → Decimal
  | pointed whole fraction exponent? =>
    ⟨(whole.append fraction).number, exponent?.elim 0 ExponentSpelling.value - fraction.text.length⟩
  | scaled whole exponent => ⟨whole.number, exponent.value⟩

end FloatSpelling

/-! Strings and names -/

inductive StringEscape where
  | quote | backslash | newline | tab | carriageReturn

namespace StringEscape

/-- What is written after the backslash. -/
def mark : StringEscape → Char
  | quote => '"'
  | backslash => '\\'
  | newline => 'n'
  | tab => 't'
  | carriageReturn => 'r'

def char : StringEscape → Char
  | quote => '"'
  | backslash => '\\'
  | newline => '\n'
  | tab => '\t'
  | carriageReturn => '\r'

end StringEscape

/-- A character of a string, written as itself or as an escape. -/
inductive StringPart where
  | plain (c : Char) (hc : c ≠ '"' ∧ c ≠ '\\' ∧ c ≠ '\n')
  | escape (e : StringEscape)

namespace StringPart

def text : StringPart → List Char
  | plain c _ => [c]
  | escape e => ['\\', e.mark]

def char : StringPart → Char
  | plain c _ => c
  | escape e => e.char

@[simp] theorem text_plain (c : Char) (hc : c ≠ '"' ∧ c ≠ '\\' ∧ c ≠ '\n') :
    (plain c hc).text = [c] := rfl

@[simp] theorem text_escape (e : StringEscape) : (escape e).text = ['\\', e.mark] := rfl

end StringPart

/-- A name is made of letters, digits and underscores, does not begin with a digit and is no
keyword. -/
structure NameSpelling where
  first : Char
  rest : List Char
  starts : first.isAlpha ∨ first = '_'
  continues : ∀ c ∈ rest, c.isAlphanum ∨ c = '_'
  free : ∀ k : Keyword, k.text ≠ String.ofList (first :: rest)

/-! Tokens -/

/-- A token as it is written. -/
inductive Spelling where
  | keyword (k : Keyword)
  | symbol (s : Symbol)
  | name (n : NameSpelling)
  | integer (digits : Digits) (inRange : digits.number ≤ 2147483647)
  | float (f : FloatSpelling)
  | string (parts : List StringPart)

namespace Spelling

def text : Spelling → List Char
  | keyword k => k.text.toList
  | symbol s => s.text.toList
  | name n => n.first :: n.rest
  | integer digits _ => digits.text
  | float f => f.text
  | string parts => '"' :: (parts.flatMap StringPart.text ++ ['"'])

def kind : Spelling → TokenKind
  | keyword k => .keyword k
  | symbol s => .symbol s
  | name n => .name (String.ofList (n.first :: n.rest))
  | integer digits _ => .integer (Int32.ofNat digits.number)
  | float f => .float (Single.ofDecimal f.decimal)
  | string parts => .string (String.ofList (parts.map StringPart.char))

def isNumeral : Spelling → Bool
  | integer _ _ | float _ => true
  | _ => false

end Spelling

/-! Blanks and comments -/

inductive TriviaPart where
  | blank (c : Char) (hc : c = ' ' ∨ c = '\t' ∨ c = '\r' ∨ c = '\n')
  | lineComment (body : List Char) (hbody : '\n' ∉ body)
  | blockComment (body : List Char) (hbody : ¬ ['*', '/'] <:+: body)

namespace TriviaPart

def text : TriviaPart → List Char
  | blank c _ => [c]
  | lineComment body _ => '/' :: '/' :: (body ++ ['\n'])
  | blockComment body _ => '/' :: '*' :: (body ++ ['*', '/'])

end TriviaPart

/-- What stands between two tokens: a blank first, then blanks and comments. -/
structure Separator where
  first : Char
  blank : first = ' ' ∨ first = '\t' ∨ first = '\r' ∨ first = '\n'
  rest : List TriviaPart

def Separator.text (s : Separator) : List Char := s.first :: s.rest.flatMap TriviaPart.text

/-- The text of tokens with what stands after each of them; after the last one nothing does. -/
def written : List (Spelling × Separator) → List Char
  | [] => []
  | [(s, _)] => s.text
  | (s, separator) :: rest => s.text ++ (separator.text ++ written rest)

end ScriptEngine
