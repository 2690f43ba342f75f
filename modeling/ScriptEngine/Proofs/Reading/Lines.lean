import Mathlib.Data.List.DropRight
import ScriptEngine.Proofs.Reading.Tiling

/-!
Places and the lines they are on. A place is counted off while a text is read, the text of a line is
looked up when there is something to report, and the two agree: the column of a place is one more than
the number of characters that stand before it on its line. Only the carriage returns at the end of a
line, which are not looked up, can lie between a place and its line.
-/
namespace ScriptEngine.Source

/-- What there is of the last line. -/
def lastLine (before : List Char) : List Char := before.rtakeWhile (· != '\n')

/-- What there is of the first line. -/
def firstLine (rest : List Char) : List Char := rest.takeWhile (· != '\n')

theorem position_eq (before : List Char) :
    position before = ⟨1 + before.count '\n', 1 + (lastLine before).length⟩ := by
  rw [position, lastLine, List.rtakeWhile, List.length_reverse]

theorem pieces_cons_newline (rest : List Char) : pieces ('\n' :: rest) = [] :: pieces rest := rfl

theorem pieces_cons {c : Char} (hc : c ≠ '\n') {rest line : List Char} {lines : List (List Char)}
    (h : pieces rest = line :: lines) : pieces (c :: rest) = (c :: line) :: lines := by
  rw [pieces, h]
  exact hc

/-- A line break parts the lines before it from those behind it. -/
theorem pieces_append (before rest : List Char) :
    pieces (before ++ '\n' :: rest) = pieces before ++ pieces rest := by
  fun_induction pieces before with
  | case1 => rfl
  | case2 before ih => rw [List.cons_append, pieces_cons_newline, ih, List.cons_append]
  | case3 c before hc hnil => exact absurd hnil (pieces_ne_nil before)
  | case4 c before hc line lines hlines ih =>
    rw [List.cons_append, pieces_cons hc (ih.trans (by rw [hlines, List.cons_append])),
      List.cons_append]

theorem head?_pieces (rest : List Char) : (pieces rest)[0]? = some (firstLine rest) := by
  induction rest with
  | nil => rfl
  | cons c rest ih =>
    by_cases hc : c = '\n'
    · subst hc
      rfl
    · obtain ⟨line, lines, hlines⟩ := List.exists_cons_of_ne_nil (pieces_ne_nil rest)
      obtain rfl : line = firstLine rest := by simpa [hlines] using ih
      rw [pieces_cons hc hlines]
      simp [firstLine, hc]

/-- The line of a place is made of what is before the place and of what is behind it. -/
theorem getElem?_pieces (before rest : List Char) :
    (pieces (before ++ rest))[before.count '\n']? = some (lastLine before ++ firstLine rest) := by
  induction before using List.reverseRecOn generalizing rest with
  | nil => exact head?_pieces rest
  | append_singleton before c ih =>
    rw [List.append_assoc, List.singleton_append]
    by_cases hc : c = '\n'
    · subst hc
      have hcount : (before ++ ['\n']).count '\n' = (pieces before).length := by
        rw [List.count_append, ← lineCount, lineCount_eq]
        rfl
      have hlast : lastLine (before ++ ['\n']) = [] := List.rtakeWhile_concat_neg _ _ _ (by decide)
      rw [pieces_append, hcount, List.getElem?_append_right (Nat.le_refl _), Nat.sub_self,
        head?_pieces, hlast, List.nil_append]
    · have hcount : (before ++ [c]).count '\n' = before.count '\n' := by
        rw [List.count_append, List.count_singleton, if_neg (by simpa using hc), Nat.add_zero]
      have hlast : lastLine (before ++ [c]) = lastLine before ++ [c] :=
        List.rtakeWhile_concat_pos _ _ _ (by simpa using hc)
      have hfirst : firstLine (c :: rest) = c :: firstLine rest :=
        List.takeWhile_cons_of_pos (by simpa using hc)
      rw [hcount, ih, hlast, hfirst, List.append_assoc, List.singleton_append]

/-! Carriage returns -/

/-- Only carriage returns are missing from the text of a line. -/
theorem exists_returns (line : List Char) :
    ∃ returns, line = stripReturns line ++ returns ∧ ∀ c ∈ returns, c = '\r' :=
  ⟨line.rtakeWhile (· == '\r'), List.rdropWhile_append_rtakeWhile.symm,
    fun _ hc => by simpa using List.mem_rtakeWhile_imp hc⟩

/-- Nothing is missing from a line before a character that is no carriage return. -/
theorem length_lt_stripReturns {c : Char} (hc : c ≠ '\r') (left right : List Char) :
    left.length < (stripReturns (left ++ c :: right)).length := by
  obtain ⟨returns, hreturns, hall⟩ := exists_returns (left ++ c :: right)
  have hfree : c ∉ returns := fun hmem => hc (hall c hmem)
  rcases List.append_eq_append_iff.1 hreturns with ⟨middle, hline, hrest⟩ | ⟨middle, -, hrest⟩
  · have hmiddle : middle ≠ [] := by
      rintro rfl
      rw [List.nil_append] at hrest
      exact hfree (by simp [← hrest])
    have hpos := List.length_pos_of_ne_nil hmiddle
    rw [hline, List.length_append]
    omega
  · have hmem : c ∈ returns := by simp [hrest]
    exact absurd hmem hfree

theorem stripReturns_eq_self {line : List Char} (h : line.getLast? ≠ some '\r') :
    stripReturns line = line := by
  refine List.rdropWhile_eq_self_iff.2 fun hne hlast => h ?_
  rw [List.getLast?_eq_some_getLast hne]
  simpa using hlast

/-- The last character of a text, unless it is a line break, is that of its last line. -/
theorem getLast?_lastLine {before : List Char} {c : Char} (h : (lastLine before).getLast? = some c) :
    before.getLast? = some c := by
  obtain ⟨upper, hupper⟩ : lastLine before <:+ before := List.rtakeWhile_suffix _ _
  rw [← hupper, List.getLast?_append, h]
  rfl

/-- A place before a character that is not blank, or at the end of the text, is on a line of the text. It
is beyond what is looked up of this line only at the end of a text that ends with a carriage return. -/
theorem exists_line {before rest : List Char} (h : ∀ c ∈ rest.head?, ¬ Scanned.isBlank c) :
    ∃ line returns, (pieces (before ++ rest))[before.count '\n']? = some (line ++ returns) ∧
      stripReturns (line ++ returns) = line ∧ (∀ c ∈ returns, c = '\r') ∧
      (lastLine before).length ≤ (line ++ returns).length ∧
      ((lastLine before).length ≤ line.length ∨ rest = [] ∧ before.getLast? = some '\r') := by
  obtain ⟨returns, hreturns, hall⟩ := exists_returns (lastLine before ++ firstLine rest)
  have hpiece := getElem?_pieces before rest
  refine ⟨stripReturns (lastLine before ++ firstLine rest), returns, ?_, ?_, hall, ?_, ?_⟩
  · rw [← hreturns, hpiece]
  · rw [← hreturns]
  · rw [← hreturns, List.length_append]
    exact Nat.le_add_right _ _
  · cases rest with
    | nil =>
      rw [firstLine, List.takeWhile_nil, List.append_nil]
      by_cases hlast : (lastLine before).getLast? = some '\r'
      · exact .inr ⟨rfl, getLast?_lastLine hlast⟩
      · rw [stripReturns_eq_self hlast]
        exact .inl (Nat.le_refl _)
    | cons c rest =>
      have hblank : ¬ Scanned.isBlank c := h c rfl
      have hnewline : c ≠ '\n' := fun hc => hblank (by simp [hc, Scanned.isBlank])
      have hreturn : c ≠ '\r' := fun hc => hblank (by simp [hc, Scanned.isBlank])
      have hfirst : firstLine (c :: rest) = c :: firstLine rest :=
        List.takeWhile_cons_of_pos (by simpa using hnewline)
      rw [hfirst]
      exact .inl (Nat.le_of_lt (length_lt_stripReturns hreturn _ _))

end ScriptEngine.Source
