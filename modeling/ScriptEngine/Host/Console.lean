import ScriptEngine.Host.Fault
import ScriptEngine.Text.Utf8

/-!
The console of a script: text to be read line by line, and a writer that may have limited room. A
line that cannot be decoded is passed over by the read that fails on it.
-/
namespace ScriptEngine

/-- What a writer can still take. -/
inductive Capacity where
  | unlimited
  /-- So many bytes. A piece that does not fit is refused, a smaller one is still taken. -/
  | bytes (left : Nat)
  /-- So many pieces; those after them are refused for the given reason. -/
  | pieces (left : Nat) (reason : HostFault)

namespace Capacity

/-- What is left after a piece, if the writer takes it. -/
def take (capacity : Capacity) (piece : String) : Except HostFault Capacity :=
  match capacity with
  | unlimited => .ok unlimited
  | bytes left =>
    if piece.utf8ByteSize ≤ left then .ok (bytes (left - piece.utf8ByteSize))
    else .error .writerFull
  | pieces 0 reason => .error reason
  | pieces (left + 1) reason => .ok (pieces left reason)

end Capacity

structure Console where
  /-- What has not been read yet; the gaps are bytes that are no text. -/
  input : List (Option Char)
  /-- The pieces that have been written, the last one first. -/
  written : List String
  capacity : Capacity

namespace Console

def silent : Console := ⟨[], [], .unlimited⟩

/-- All that has been written. -/
def output (c : Console) : String := String.join c.written.reverse

/-- The first line with its end mark, and what follows it. -/
def firstLine : List (Option Char) → List (Option Char) × List (Option Char)
  | [] => ([], [])
  | c :: rest =>
    if c = some '\n' then ([c], rest)
    else
      let (line, rest) := firstLine rest
      (c :: line, rest)

/-- Takes off a line feed at the end, and a carriage return before it. -/
def stripEnd (line : List Char) : List Char :=
  match line.reverse with
  | '\n' :: '\r' :: rest => rest.reverse
  | '\n' :: rest => rest.reverse
  | _ => line

/-- The next line without its end mark; none at the end of the input. -/
def readLine (c : Console) : Except HostFault (Option String) × Console :=
  match c.input with
  | [] => (.ok none, c)
  | _ =>
    let (line, rest) := firstLine c.input
    let next := { c with input := rest }
    match Text.Utf8.complete? line with
    | some line => (.ok (some (String.ofList (stripEnd line))), next)
    | none => (.error .undecodable, next)

/-- Writes a piece of text whole or not at all. -/
def write (c : Console) (piece : String) : Except HostFault Console :=
  (c.capacity.take piece).map fun capacity =>
    { c with written := piece :: c.written, capacity := capacity }

/-- A piece comes after all that was written before. -/
theorem output_of_write {c d : Console} {piece : String} (h : c.write piece = .ok d) :
    d.output = c.output ++ piece := by
  unfold write at h
  cases hc : c.capacity.take piece with
  | error fault => simp [hc, Except.map] at h
  | ok capacity =>
    simp only [hc, Except.map, Except.ok.injEq] at h
    subst h
    simp [output]

/-- Writes a text; nothing is written for an empty one. -/
def writeText (c : Console) (text : String) : Except HostFault Console :=
  if text.isEmpty then .ok c else c.write text

/-- Writes a text and then a line feed, in two pieces. -/
def writeLine (c : Console) (text : String) : Except HostFault Unit × Console :=
  match c.writeText text with
  | .error e => (.error e, c)
  | .ok c =>
    match c.write "\n" with
    | .error e => (.error e, c)
    | .ok c => (.ok (), c)

end Console

end ScriptEngine
