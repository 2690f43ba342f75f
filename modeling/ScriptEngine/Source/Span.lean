/-!
Places in a text. Lines and columns count from 1, columns in characters. A span names the first
and the last character of a piece of text; merging spans gives the span of a construct from the
spans of its parts.
-/
namespace ScriptEngine

structure Position where
  line : Nat
  column : Nat
  deriving DecidableEq, Inhabited

namespace Position

/-- Reading order: by line, then by column. -/
instance : LE Position where
  le p q := p.line < q.line ∨ (p.line = q.line ∧ p.column ≤ q.column)

instance : LT Position where
  lt p q := p.line < q.line ∨ (p.line = q.line ∧ p.column < q.column)

instance (p q : Position) : Decidable (p ≤ q) :=
  inferInstanceAs (Decidable (_ ∨ _))

instance (p q : Position) : Decidable (p < q) :=
  inferInstanceAs (Decidable (_ ∨ _))

theorem le_iff {p q : Position} :
    p ≤ q ↔ p.line < q.line ∨ (p.line = q.line ∧ p.column ≤ q.column) := Iff.rfl

theorem lt_iff {p q : Position} :
    p < q ↔ p.line < q.line ∨ (p.line = q.line ∧ p.column < q.column) := Iff.rfl

theorem le_refl (p : Position) : p ≤ p := Or.inr ⟨rfl, Nat.le_refl _⟩

theorem le_trans {p q r : Position} (h : p ≤ q) (h' : q ≤ r) : p ≤ r := by
  simp only [le_iff] at *
  omega

theorem le_total (p q : Position) : p ≤ q ∨ q ≤ p := by
  simp only [le_iff]
  omega

theorem le_antisymm {p q : Position} (h : p ≤ q) (h' : q ≤ p) : p = q := by
  cases p
  cases q
  simp only [le_iff, mk.injEq] at *
  omega

def earlier (p q : Position) : Position := if p ≤ q then p else q

def later (p q : Position) : Position := if p ≤ q then q else p

theorem earlier_le_left (p q : Position) : earlier p q ≤ p := by
  unfold earlier
  split
  · exact le_refl p
  · exact (le_total p q).resolve_left ‹_›

theorem earlier_le_right (p q : Position) : earlier p q ≤ q := by
  unfold earlier
  split
  · assumption
  · exact le_refl q

theorem le_later_left (p q : Position) : p ≤ later p q := by
  unfold later
  split
  · assumption
  · exact le_refl p

theorem le_later_right (p q : Position) : q ≤ later p q := by
  unfold later
  split
  · exact le_refl q
  · exact (le_total p q).resolve_left ‹_›

/-- The place after a character. -/
def advance (p : Position) (c : Char) : Position :=
  if c = '\n' then ⟨p.line + 1, 1⟩ else ⟨p.line, p.column + 1⟩

/-- The place after a text. -/
def after (p : Position) (text : List Char) : Position := text.foldl advance p

/-- The place before, on the same line; a place at the start of its line stays. -/
def back (p : Position) : Position := ⟨p.line, max (p.column - 1) 1⟩

theorem after_append (p : Position) (a b : List Char) : p.after (a ++ b) = (p.after a).after b :=
  List.foldl_append

end Position

/-- The piece of text from its first character to its last. -/
structure Span where
  start : Position
  stop : Position
  deriving DecidableEq, Inhabited

namespace Span

def point (p : Position) : Span := ⟨p, p⟩

/-- The smallest span that covers both. -/
def merge (a b : Span) : Span := ⟨a.start.earlier b.start, a.stop.later b.stop⟩

def text (s : Span) : String := s!"line {s.start.line}, column {s.start.column}"

theorem merge_start_le_left (a b : Span) : (a.merge b).start ≤ a.start :=
  Position.earlier_le_left _ _

theorem merge_start_le_right (a b : Span) : (a.merge b).start ≤ b.start :=
  Position.earlier_le_right _ _

theorem left_stop_le_merge (a b : Span) : a.stop ≤ (a.merge b).stop :=
  Position.le_later_left _ _

theorem right_stop_le_merge (a b : Span) : b.stop ≤ (a.merge b).stop :=
  Position.le_later_right _ _

/-- Merging with a span that starts no earlier and ends no earlier joins the two ends. -/
theorem merge_of_le {a b : Span} (h : a.start ≤ b.start) (h' : a.stop ≤ b.stop) :
    a.merge b = ⟨a.start, b.stop⟩ := by
  simp [merge, Position.earlier, Position.later, h, h']

end Span

end ScriptEngine
