import ScriptEngine.Proofs.Reading.EarlyStop
import ScriptEngine.Proofs.Reading.Grounds
import ScriptEngine.Proofs.Reading.Lines

/-!
Errors point into the lines that they quote. Whoever complains, the lexer or a reader, complains about a
place of the text that is not blank, or about its end; the line of such a place is there, and the place
is on it or just behind it. One thing is amiss: carriage returns at the end of the text are counted as
columns and end no line, but the line is quoted without them.
-/
namespace ScriptEngine

namespace Source

/-- Such a place is on a line of the text, and unless it is the end of a text that ends with a carriage
return, it is not behind what is quoted of the line. -/
theorem Marks.exists_line {source : List Char} {p : Position} (h : Marks source p) :
    ∃ line returns, (pieces source)[p.line - 1]? = some (line ++ returns) ∧
      (∀ c ∈ returns, c = '\r') ∧ line? source p.line = some line ∧ 1 ≤ p.column ∧
      p.column ≤ (line ++ returns).length + 1 ∧
      (p.column ≤ line.length + 1 ∨ p = position source ∧ source.getLast? = some '\r') := by
  obtain ⟨before, rest, rfl, rfl, hrest⟩ := h
  obtain ⟨line, returns, hpiece, hline, hreturns, hcolumn, hquoted⟩ := Source.exists_line hrest
  have hnumber : 1 + before.count '\n' - 1 = before.count '\n' := by omega
  have hfirst : 1 + before.count '\n' ≠ 0 := by omega
  rw [position_eq]
  refine ⟨line, returns, ?_, hreturns, ?_, Nat.le_add_right _ _, ?_, ?_⟩
  · rw [hnumber, hpiece]
  · rw [line?, if_neg hfirst, hnumber, hpiece, Option.map_some, hline]
  · dsimp only
    omega
  · rcases hquoted with hquoted | ⟨rfl, hlast⟩
    · left
      dsimp only
      omega
    · right
      rw [List.append_nil, position_eq]
      exact ⟨rfl, hlast⟩

end Source

/-- Every complaint about a text is about a place in it that is not blank, or about its end. -/
theorem parse_marks (source : List Char) :
    ∀ x ∈ (parse source).complaints, Source.Marks source x.span.start := by
  have hreader : ∀ x ∈ (Program.ofTokens (lex source).tokens).complaints,
      Source.Marks source x.span.start := by
    intro x hx
    obtain ⟨tokens, last, htokens, -, hlast⟩ := Lexed.exists_tokens_readFrom ⟨1, 1⟩ 0 source 0
    obtain ⟨t, ht, hspan, -⟩ := isAbout_of_mem_ofTokens ⟨tokens, last, htokens, hlast⟩ hx
    rw [hspan]
    exact lex_marks source t ht
  intro x hx
  unfold parse at hx
  dsimp only at hx
  split at hx
  · exact hreader x hx
  · have hmade := (List.mergeSort_perm _ _).subset (List.mem_of_mem_take hx)
    rcases List.mem_append.1 hmade with hlexer | hmade
    · exact (lex_grounded source x hlexer).marks
    · exact hreader x hmade

/-- The line in which an error starts is a line of the text, and the error quotes it. The error starts
on that line or just behind its last character, where carriage returns at the end of the line count as
characters of it. They are not quoted, so that an error may start behind the quotation; but then it is
about the end of a text that ends with a carriage return. -/
theorem parse_points (source : List Char) :
    ∀ x ∈ (parse source).complaints, ∃ line returns,
      (Source.pieces source)[x.span.start.line - 1]? = some (line ++ returns) ∧
      (∀ c ∈ returns, c = '\r') ∧ Source.line? source x.span.start.line = some line ∧
      (x.toError source).sourceLine = some (String.ofList line) ∧ 1 ≤ x.span.start.column ∧
      x.span.start.column ≤ (line ++ returns).length + 1 ∧
      (x.span.start.column ≤ line.length + 1 ∨
        x.span.start = Source.position source ∧ source.getLast? = some '\r') := by
  intro x hx
  obtain ⟨line, returns, hpiece, hreturns, hline, hcolumn⟩ := (parse_marks source x hx).exists_line
  refine ⟨line, returns, hpiece, hreturns, hline, ?_, hcolumn⟩
  simp [Complaint.toError, ScriptError.inSource, Source.quotedLine, hline]

/-- A word that nothing comes after but a carriage return. -/
def wordAndReturn : List Char := ['a', '\r']

theorem parse_wordAndReturn : (parse wordAndReturn).complaints =
    [⟨.expected (.symbol .semicolon) .endOfFile, .point ⟨1, 3⟩⟩] := by
  decide +kernel

theorem parse_points_wordAndReturn : ∃ x ∈ (parse wordAndReturn).complaints, ∃ line returns,
    (Source.pieces wordAndReturn)[x.span.start.line - 1]? = some (line ++ returns) ∧
    (∀ c ∈ returns, c = '\r') ∧ Source.line? wordAndReturn x.span.start.line = some line ∧
    (x.toError wordAndReturn).sourceLine = some (String.ofList line) ∧ 1 ≤ x.span.start.column ∧
    x.span.start.column ≤ (line ++ returns).length + 1 ∧
    (x.span.start.column ≤ line.length + 1 ∨
      x.span.start = Source.position wordAndReturn ∧ wordAndReturn.getLast? = some '\r') := by
  obtain ⟨x, hx⟩ : ∃ x, x ∈ (parse wordAndReturn).complaints :=
    ⟨_, by rw [parse_wordAndReturn]; exact List.mem_cons_self⟩
  exact ⟨x, hx, parse_points wordAndReturn x hx⟩

/-- The error is about a place that is not on the line that it quotes, nor just behind it. -/
theorem not_parse_points : ¬ ∀ x ∈ (parse wordAndReturn).complaints,
    ∃ line, (x.toError wordAndReturn).sourceLine = some line ∧
      x.span.start.column ≤ line.length + 1 := by
  have hquoted : Source.quotedLine wordAndReturn 1 = "a" := by
    decide +kernel
  have hlength : "a".length = 1 := rfl
  simp [parse_wordAndReturn, Complaint.toError, ScriptError.inSource, Span.point, hquoted, hlength]

end ScriptEngine
