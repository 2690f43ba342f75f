import ScriptEngine.Diagnostic.Complaint

/-!
String literals. A literal runs to the next quote that is not escaped and never beyond its line. An
escape that stands for nothing is reported and leaves the character after the backslash.
-/
namespace ScriptEngine

/-- What follows the opening quote of a string literal: its text with the escapes resolved, its
length with the closing quote, and what is wrong with it. -/
structure Quotation where
  text : List Char
  length : Nat
  complaints : List Complaint

namespace Quotation

/-- The character that an escape stands for. -/
def escaped? (c : Char) : Option Char :=
  if c = '"' then some '"'
  else if c = '\\' then some '\\'
  else if c = 'n' then some '\n'
  else if c = 't' then some '\t'
  else if c = 'r' then some '\r'
  else none

/-- The character under which a report quotes an invalid escape: for a character beyond ASCII the
one numbered by its first byte in UTF-8. -/
def quotedAs (c : Char) : Char :=
  let n := c.toNat
  if n < 0x80 then c
  else if n < 0x800 then Char.ofNat (0xC0 + n >>> 6)
  else if n < 0x10000 then Char.ofNat (0xE0 + n >>> 12)
  else Char.ofNat (0xF0 + n >>> 18)

def close : Quotation := ⟨[], 1, []⟩

/-- The literal that began at `start` breaks off at `stop`. -/
def breakOff (start stop : Position) : Quotation :=
  ⟨[], 0, [⟨.unterminatedString, ⟨start, stop.back⟩⟩]⟩

/-- Puts `length` characters, which stand for `text`, in front. -/
def extend (text : List Char) (length : Nat) (complaints : List Complaint) (q : Quotation) :
    Quotation :=
  ⟨text ++ q.text, length + q.length, complaints ++ q.complaints⟩

/-- Reads on at `p` in a literal whose opening quote is at `start`. -/
def scan (start p : Position) : List Char → Quotation
  | [] => breakOff start p
  | ['\\'] => extend [] 1 [] (breakOff start (p.advance '\\'))
  | '\\' :: c :: rest =>
    if c = '\n' then extend [] 1 [] (breakOff start (p.advance '\\'))
    else
      let next := (p.advance '\\').advance c
      match escaped? c with
      | some value => extend [value] 2 [] (scan start next rest)
      | none =>
        extend [c] 2 [⟨.invalidEscape (quotedAs c), ⟨p, next.back⟩⟩] (scan start next rest)
  | c :: rest =>
    if c = '"' then close
    else if c = '\n' then breakOff start p
    else extend [c] 1 [] (scan start (p.advance c) rest)

end Quotation

end ScriptEngine
