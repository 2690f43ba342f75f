import ScriptEngine.Proofs.Reading.Tiling

/-!
What complaints about a text are about. Whatever the lexer complains about is there, at the place that
it names: a stray character, a backslash before a character that cannot be escaped, a row of digits that
is too large a number, the first quote of a string or the opening of a comment. So complaints, like
tokens, begin at characters that are not blank.
-/
namespace ScriptEngine

/-- What the complaint is about is in the text, where the complaint says. -/
inductive Complaint.Grounded (source : List Char) : Complaint → Prop where
  | stray {before rest : List Char} {c : Char} (h : source = before ++ c :: rest)
    (hc : ¬ Scanned.isBlank c) :
    Grounded source ⟨.unexpectedCharacter c, .point (Source.position before)⟩
  | escape {before rest : List Char} {c : Char} (h : source = before ++ '\\' :: c :: rest)
    (hnewline : c ≠ '\n') (hc : Quotation.escaped? c = none) :
    Grounded source ⟨.invalidEscape (Quotation.quotedAs c),
      ⟨Source.position before, Source.position (before ++ ['\\'])⟩⟩
  | integer {before rest : List Char} {digits : Digits} (h : source = before ++ (digits.text ++ rest))
    (hlarge : 0x80000000 ≤ digits.number) :
    Grounded source ⟨.integerOutOfRange digits.text,
      ⟨Source.position before, Source.position (before ++ digits.text.dropLast)⟩⟩
  | string {before rest : List Char} (h : source = before ++ '"' :: rest) (stop : Position) :
    Grounded source ⟨.unterminatedString, ⟨Source.position before, stop⟩⟩
  | comment {before rest : List Char} (h : source = before ++ '/' :: '*' :: rest) (stop : Position) :
    Grounded source ⟨.unterminatedComment, ⟨Source.position before, stop⟩⟩

/-- The place is that of a character that is not blank, or the end of the text. -/
def Source.Marks (source : List Char) (p : Position) : Prop :=
  ∃ before rest, source = before ++ rest ∧ p = position before ∧
    ∀ c ∈ rest.head?, ¬ Scanned.isBlank c

theorem Source.marks_cons {before rest : List Char} {c : Char} (hc : ¬ Scanned.isBlank c) :
    Marks (before ++ c :: rest) (position before) :=
  ⟨before, c :: rest, rfl, rfl, by simpa using hc⟩

theorem Complaint.Grounded.marks {source : List Char} {x : Complaint} (h : x.Grounded source) :
    Source.Marks source x.span.start := by
  cases h with
  | stray h hc => exact h ▸ Source.marks_cons hc
  | escape h => exact h ▸ Source.marks_cons (by decide)
  | @integer before rest digits h =>
    obtain ⟨c, tail, htext, hc⟩ := digits.exists_cons
    have hblank : ¬ Scanned.isBlank c := fun hblank => by
      simp [Char.isDigit_of_isBlank hblank] at hc
    rw [h, htext]
    exact Source.marks_cons hblank
  | string h => exact h ▸ Source.marks_cons (by decide)
  | comment h => exact h ▸ Source.marks_cons (by decide)

namespace Quotation

/-- A string literal is wrong as a whole, or because of a backslash in it. -/
theorem grounds (start p : Position) (text : List Char) :
    ∀ x ∈ (scan start p text).complaints, (∃ stop, x = ⟨.unterminatedString, ⟨start, stop⟩⟩) ∨
      ∃ skipped c rest, text = skipped ++ '\\' :: c :: rest ∧ c ≠ '\n' ∧ escaped? c = none ∧
        x = ⟨.invalidEscape (quotedAs c),
          ⟨p.after skipped, p.after (skipped ++ ['\\'])⟩⟩ := by
  fun_induction scan start p text with
  | case1 p => exact fun x hx => .inl ⟨_, List.mem_singleton.1 hx⟩
  | case2 p => exact fun x hx => .inl ⟨_, List.mem_singleton.1 hx⟩
  | case3 p rest => exact fun x hx => .inl ⟨_, List.mem_singleton.1 hx⟩
  | case4 p c rest hc next value hvalue ih =>
    intro x hx
    refine (ih x hx).imp_right ?_
    rintro ⟨skipped, d, rest, rfl, h⟩
    exact ⟨'\\' :: c :: skipped, d, rest, rfl, h⟩
  | case5 p c rest hc next hvalue ih =>
    intro x hx
    rcases List.mem_cons.1 hx with rfl | hx
    · refine .inr ⟨[], c, rest, rfl, hc, hvalue, ?_⟩
      have hback : next.back = p.advance '\\' := by
        simp [next, Position.advance, Position.back, hc]
      rw [hback]
      rfl
    · refine (ih x hx).imp_right ?_
      rintro ⟨skipped, d, rest, rfl, h⟩
      exact ⟨'\\' :: c :: skipped, d, rest, rfl, h⟩
  | case6 p rest => simp [close]
  | case7 p rest => exact fun x hx => .inl ⟨_, List.mem_singleton.1 hx⟩
  | case8 p c rest hend hescape hquote hnewline ih =>
    intro x hx
    refine (ih x hx).imp_right ?_
    rintro ⟨skipped, d, rest, rfl, h⟩
    exact ⟨c :: skipped, d, rest, rfl, h⟩

end Quotation

namespace Scanned

theorem number_grounded (before : List Char) {c : Char} (rest : List Char) (hc : c.isDigit) :
    ∀ x ∈ (number (Source.position before) (c :: rest)).complaints,
      x.Grounded (before ++ c :: rest) := by
  obtain ⟨lexeme, rest', htext, hlength, hlexeme⟩ := NumberLiteral.exists_lexeme rest hc
  intro x hx
  unfold number at hx
  dsimp only at hx
  split at hx
  · rw [if_pos ‹_›] at hlexeme
    obtain ⟨digits, rfl, hwhole, -⟩ := hlexeme
    split at hx
    · cases hx
    · rename_i hinteger
      have hlarge : 0x80000000 ≤ digits.number := by
        simpa [NumberLiteral.integer?, hwhole, NumberLiteral.value_text] using hinteger
      have hline : '\n' ∉ digits.text.dropLast :=
        fun hmem => digits.newline_not_mem (List.dropLast_subset _ hmem)
      obtain rfl := List.mem_singleton.1 hx
      rw [hwhole, ← hlength, htext, onLine, ← List.length_dropLast,
        ← Source.position_append_of_line before hline]
      exact .integer rfl hlarge
  · cases hx

theorem first_grounded (before : List Char) (c : Char) (rest : List Char) :
    ∀ x ∈ (first (Source.position before) c rest).complaints, x.Grounded (before ++ c :: rest) := by
  by_cases hblank : isBlank c
  · simp [first, hblank]
  apply first_cases (motive := fun scanned => ∀ x ∈ scanned.complaints,
    x.Grounded (before ++ c :: rest)) (Source.position before) c rest
  case blank => simp
  case quotation =>
    rintro rfl literal x hx
    have hquote : Source.position (before ++ ['"']) = (Source.position before).advance '"' :=
      Source.position_append_singleton before '"'
    rcases Quotation.grounds _ _ _ x hx with ⟨stop, rfl⟩ | ⟨skipped, d, rest', rfl, hd, hnone, rfl⟩
    · exact .string rfl stop
    · rw [← hquote, ← Source.position_append, ← Source.position_append, ← List.append_assoc]
      have hsource : before ++ '"' :: (skipped ++ '\\' :: d :: rest') =
          before ++ ['"'] ++ skipped ++ '\\' :: d :: rest' := by simp
      exact .escape hsource hd hnone
  case number => exact fun hc => number_grounded before rest hc
  case name => simp
  case lineComment => simp
  case blockComment => simp
  case openComment =>
    rintro text rfl rfl - x hx
    obtain rfl := List.mem_singleton.1 hx
    exact .comment rfl _
  case symbol => simp
  case stray =>
    intro _ x hx
    obtain rfl := List.mem_singleton.1 hx
    exact .stray rfl hblank

/-- A piece that is no trivia does not begin with a blank. -/
theorem not_isBlank_of_first {p : Position} {c : Char} {rest : List Char}
    (h : (first p c rest).piece ≠ .trivia) : ¬ isBlank c := by
  intro hblank
  simp [first, hblank] at h

end Scanned

namespace Lexed.Cut

variable {before source unread : List Char} {count : Nat} {tiles : List Tile}

theorem grounded (h : Cut before count source tiles unread) :
    ∀ x ∈ tiles.flatMap Tile.complaints, x.Grounded (before ++ source) := by
  induction h with
  | ended => simp
  | full => simp
  | @tile before count t rest tiles unread htile hroom hrest ih =>
    intro x hx
    rcases List.mem_append.1 (List.flatMap_cons ▸ hx) with hx | hx
    · obtain ⟨c, tail, htext, hfirst⟩ := htile
      have hground := Scanned.first_grounded before c (tail ++ rest) x (by rwa [hfirst])
      rwa [htext]
    · rw [← List.append_assoc]
      exact ih x hx

/-- Every token is that of a tile, which the text goes on with where the token begins. -/
theorem exists_tile_of_mem (h : Cut before count source tiles unread) {token : Token}
    (htoken : token ∈ Tile.tokens before tiles) :
    ∃ skipped t rest, t ∈ tiles ∧ source = skipped ++ (t.text ++ rest) ∧
      t.At (before ++ skipped) rest ∧ t.token? (before ++ skipped) = some token := by
  induction h with
  | ended => simp [Tile.tokens] at htoken
  | full => simp [Tile.tokens] at htoken
  | @tile before count t rest tiles unread htile hroom hrest ih =>
    rcases List.mem_append.1 htoken with htoken | htoken
    · rw [← List.append_nil before] at htile
      exact ⟨[], t, rest, List.mem_cons_self, rfl, htile,
        by simpa using Option.mem_toList.1 htoken⟩
    · obtain ⟨skipped, t', rest', hmem, rfl, hat, htoken⟩ := ih htoken
      rw [List.append_assoc] at hat htoken
      exact ⟨t.text ++ skipped, t', rest', List.mem_cons_of_mem _ hmem,
        (List.append_assoc _ _ _).symm, hat, htoken⟩

/-- A token begins with a character that is not blank. -/
theorem marks_of_mem (h : Cut before count source tiles unread) {token : Token}
    (htoken : token ∈ Tile.tokens before tiles) :
    Source.Marks (before ++ source) token.span.start := by
  obtain ⟨skipped, t, rest, -, rfl, ⟨c, tail, htext, hfirst⟩, htoken⟩ := h.exists_tile_of_mem htoken
  obtain ⟨hpiece, hspan⟩ := Tile.eq_of_token? htoken
  have hfound : (Scanned.first (Source.position (before ++ skipped)) c (tail ++ rest)).piece ≠
      .trivia := by simp [hfirst, hpiece]
  have hblank : ¬ Scanned.isBlank c := Scanned.not_isBlank_of_first hfound
  rw [hspan, htext, ← List.append_assoc]
  exact Source.marks_cons hblank

/-- So does what is left unread. -/
theorem marks_unread (h : Cut before count source tiles unread) :
    Source.Marks (before ++ source) (Source.position (before ++ tiles.flatMap Tile.text)) := by
  induction h with
  | ended before count => exact ⟨before, [], rfl, by simp, by simp⟩
  | @full before count c rest hfull hpiece =>
    rw [List.flatMap_nil, List.append_nil]
    exact Source.marks_cons (Scanned.not_isBlank_of_first hpiece)
  | @tile before count t rest tiles unread htile hroom hrest ih =>
    rw [List.flatMap_cons, ← List.append_assoc, ← List.append_assoc]
    exact ih

end Lexed.Cut

theorem lex_grounded (source : List Char) :
    ∀ x ∈ (lex source).complaints, x.Grounded source := by
  obtain ⟨tiles, unread, h⟩ := Lexed.exists_cut [] 0 source
  rw [h.lex_eq]
  exact h.grounded

/-- Every token begins at a character that is not blank, or is the end of the file. -/
theorem lex_marks (source : List Char) :
    ∀ t ∈ (lex source).tokens, Source.Marks source t.span.start := by
  obtain ⟨tiles, unread, h⟩ := Lexed.exists_cut [] 0 source
  rw [h.lex_eq]
  intro t ht
  rcases List.mem_append.1 ht with ht | ht
  · exact h.marks_of_mem ht
  · rw [List.mem_singleton.1 ht]
    exact h.marks_unread

end ScriptEngine
