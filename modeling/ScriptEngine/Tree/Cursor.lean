import ScriptEngine.Diagnostic.Complaint
import ScriptEngine.Tree.Basic

/-!
A place among the tokens of a script, and the steps that readers of the tree are made of. A reader
either reads something, or fails after a complaint, or runs out of the fuel that bounds its
recursion. Complaints beyond the limit are dropped.
-/
namespace ScriptEngine

structure Cursor where
  rest : List Token
  /-- The span of the token before, the start of the text at first. -/
  previous : Span
  complaints : List Complaint
  /-- The number of statements, parentheses and unary operators around. -/
  depth : Nat

namespace Cursor

def start (tokens : List Token) : Cursor := ⟨tokens, .point ⟨1, 1⟩, [], 0⟩

def kind (c : Cursor) : TokenKind :=
  match c.rest with
  | t :: _ => t.kind
  | [] => .endOfFile

def here (c : Cursor) : Span :=
  match c.rest with
  | t :: _ => t.span
  | [] => c.previous

def advance (c : Cursor) : Cursor :=
  match c.rest with
  | t :: rest => { c with rest := rest, previous := t.span }
  | [] => c

def isFull (c : Cursor) : Bool := maxErrors ≤ c.complaints.length

def complain (c : Cursor) (fault : SourceFault) (span : Span) : Cursor :=
  if c.isFull then c else { c with complaints := c.complaints ++ [⟨fault, span⟩] }

/-- Statements begin with these words; reading goes on there after a failure. -/
def startsStatement : Keyword → Bool
  | .var | .function | .if | .while | .try | .throw | .return | .exit | .break | .continue => true
  | _ => false

/-- A token before which reading can go on after a failure. -/
def isBoundary : TokenKind → Bool
  | .symbol .rightBrace => true
  | .keyword word => startsStatement word
  | _ => false

/-- Skips tokens up to the next boundary of statements: past a semicolon, or before a token that
begins a statement or ends a block. The token at which the failed statement began is no boundary, so
at least one token is skipped; `moved` says that it was. -/
def skipFrom (moved : Bool) (previous : Span) : List Token → List Token × Span
  | [] => ([], previous)
  | t :: rest =>
    if t.kind = .endOfFile then (t :: rest, previous)
    else if t.kind = .symbol .semicolon then (rest, t.span)
    else if moved && isBoundary t.kind then (t :: rest, previous)
    else skipFrom true t.span rest

theorem length_skipFrom_le (moved : Bool) (previous : Span) (tokens : List Token) :
    (skipFrom moved previous tokens).1.length ≤ tokens.length := by
  fun_induction skipFrom moved previous tokens with
  | case1 => exact Nat.le_refl _
  | case2 => exact Nat.le_refl _
  | case3 => exact Nat.le_succ _
  | case4 => exact Nat.le_refl _
  | case5 _ _ _ _ _ _ _ ih => exact Nat.le_succ_of_le ih

/-- Goes on after a statement that failed; `before` is where it began. -/
def recover (before c : Cursor) : Cursor :=
  let (rest, previous) := skipFrom (c.rest.length < before.rest.length) c.previous c.rest
  { c with rest := rest, previous := previous }

end Cursor

inductive Reading (α : Type) where
  | done (result : α) (c : Cursor)
  | failed (c : Cursor)
  | exhausted

/-- Reads a part of the tree from the tokens. -/
def Reader (α : Type) := Cursor → Reading α

namespace Reader

@[inline] def pure {α : Type} (a : α) : Reader α := fun c => .done a c

@[inline] def bind {α β : Type} (r : Reader α) (f : α → Reader β) : Reader β := fun c =>
  match r c with
  | .done a c => f a c
  | .failed c => .failed c
  | .exhausted => .exhausted

instance : Monad Reader where
  pure := Reader.pure
  bind := Reader.bind

theorem bind_apply {α β : Type} (r : Reader α) (f : α → Reader β) (c : Cursor) :
    (r >>= f) c =
      match r c with
      | .done a c => f a c
      | .failed c => .failed c
      | .exhausted => .exhausted := rfl

instance : LawfulMonad Reader :=
  LawfulMonad.mk' Reader
    (fun r => by funext c; change (r >>= Reader.pure) c = r c; rw [bind_apply]; cases r c <;> rfl)
    (fun _ _ => rfl)
    (fun r f g => by funext c; simp only [bind_apply]; cases r c <;> rfl)

def exhausted {α : Type} : Reader α := fun _ => .exhausted

def kind : Reader TokenKind := fun c => .done c.kind c

def here : Reader Span := fun c => .done c.here c

def previous : Reader Span := fun c => .done c.previous c

/-- Takes the next token, whatever it is. -/
def next : Reader Span := fun c => .done c.here c.advance

def complain (fault : SourceFault) (span : Span) : Reader Unit := fun c =>
  .done () (c.complain fault span)

/-- Complains if something is bad, and goes on. -/
def complainIf (bad : Bool) (fault : SourceFault) (span : Span) : Reader Unit :=
  if bad then complain fault span else pure ()

/-- Fails with a complaint about the next token. -/
def fail {α : Type} (fault : TokenKind → SourceFault) : Reader α := fun c =>
  .failed (c.complain (fault c.kind) c.here)

/-- Takes the next token if it is this one. -/
def accept (wanted : TokenKind) : Reader Bool := fun c =>
  if c.kind = wanted then .done true c.advance else .done false c

def expect (wanted : TokenKind) : Reader Span := fun c =>
  if c.kind = wanted then .done c.here c.advance
  else .failed (c.complain (.expected wanted c.kind) c.here)

def name : Reader Name := fun c =>
  match c.kind with
  | .name text => .done ⟨text, c.here⟩ c.advance
  | other => .failed (c.complain (.expectedName other) c.here)

/-- Reads something if this token comes before it. -/
def after {α : Type} (mark : TokenKind) (r : Reader α) : Reader (Option α) := do
  if ← accept mark then some <$> r else pure none

/-- Reads something unless this token is ahead. -/
def unlessAhead {α : Type} (stop : TokenKind) (r : Reader α) : Reader (Option α) := do
  if (← kind) = stop then pure none else some <$> r

/-- Reads something one level deeper, if the limit of nesting allows it. -/
def nested {α : Type} (r : Reader α) : Reader α := fun c =>
  if maxNesting ≤ c.depth then .failed (c.complain .nestingTooDeep c.here)
  else
    match r { c with depth := c.depth + 1 } with
    | .done a c => .done a { c with depth := c.depth - 1 }
    | .failed c => .failed { c with depth := c.depth - 1 }
    | .exhausted => .exhausted

/-- The span from `start` to the token read last. -/
def spanFrom (start : Span) : Reader Span := fun c => .done (start.merge c.previous) c

end Reader

end ScriptEngine
