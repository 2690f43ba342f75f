import ScriptEngine.Proofs.Reading.Grounds
import ScriptEngine.Proofs.Reading.Lines

/-!
Reading and line breaks. Nothing but a block comment goes on over the end of a line, so the pieces before
a line break do not depend on what is behind it. And the pieces behind it are those of the text that
begins there, only that all places are further down.
-/
namespace ScriptEngine

/-! Places further down -/

/-- The place `n` lines further down. -/
def Position.down (n : Nat) (p : Position) : Position := ⟨p.line + n, p.column⟩

def Span.down (n : Nat) (s : Span) : Span := ⟨s.start.down n, s.stop.down n⟩

def Token.down (n : Nat) (t : Token) : Token := { t with span := t.span.down n }

def Complaint.down (n : Nat) (x : Complaint) : Complaint := { x with span := x.span.down n }

/-- The same error, with the line that it quotes, `n` lines further down. -/
def ScriptError.down (n : Nat) (e : ScriptError) : ScriptError :=
  { e with span := e.span.map (Span.down n) }

@[simp] theorem Position.advance_down (n : Nat) (p : Position) (c : Char) :
    (p.down n).advance c = (p.advance c).down n := by
  unfold advance
  split
  · exact congrArg (Position.mk · 1) (Nat.add_right_comm p.line n 1)
  · rfl

@[simp] theorem Position.after_down (n : Nat) (p : Position) (text : List Char) :
    (p.down n).after text = (p.after text).down n :=
  List.foldl_hom (down n) (advance_down n)

/-- Behind a line break, places are counted from the beginning again, as many lines further down as
there are lines above. -/
theorem Source.position_append_newline (above before : List Char) :
    position (above ++ '\n' :: before) = (position before).down (lineCount above) := by
  have hbreak : position (above ++ ['\n']) = (position []).down (lineCount above) := by
    rw [position_append_singleton, lineCount_eq]
    show (⟨1 + above.count '\n' + 1, 1⟩ : Position) = ⟨1 + (above.count '\n' + 1), 1⟩
    rw [Nat.add_assoc]
  calc position (above ++ '\n' :: before) = position (above ++ ['\n'] ++ before) := by simp
    _ = (position before).down (lineCount above) := by
      rw [position_append, hbreak, Position.after_down, ← position_append, List.nil_append]

namespace Quotation

def down (n : Nat) (q : Quotation) : Quotation :=
  { q with complaints := q.complaints.map (Complaint.down n) }

theorem breakOff_down (n : Nat) (start stop : Position) :
    breakOff (start.down n) (stop.down n) = (breakOff start stop).down n := rfl

theorem extend_down (n : Nat) (text : List Char) (length : Nat) (complaints : List Complaint)
    (q : Quotation) : extend text length (complaints.map (Complaint.down n)) (q.down n) =
      (extend text length complaints q).down n := by
  simp [extend, down]

theorem scan_down (n : Nat) (start p : Position) (text : List Char) :
    scan (start.down n) (p.down n) text = (scan start p text).down n := by
  fun_induction scan start p text with
  | case1 p => rfl
  | case2 p => rw [scan, Position.advance_down, breakOff_down, ← extend_down, List.map_nil]
  | case3 p rest =>
    rw [scan, if_pos rfl, Position.advance_down, breakOff_down, ← extend_down, List.map_nil]
  | case4 p c rest hc next value hvalue ih =>
    rw [scan, if_neg hc]
    simp only [hvalue, Position.advance_down]
    rw [ih, ← extend_down, List.map_nil]
  | case5 p c rest hc next hvalue ih =>
    rw [scan, if_neg hc]
    simp only [hvalue, Position.advance_down]
    rw [ih, ← extend_down]
    rfl
  | case6 p rest => rfl
  | case7 p rest => rfl
  | case8 p c rest hend hescape hquote hnewline ih =>
    rw [scan, if_neg hquote, if_neg hnewline, Position.advance_down, ih, ← extend_down, List.map_nil]
    · exact hend
    · exact hescape

end Quotation

namespace Scanned

def down (n : Nat) (scanned : Scanned) : Scanned :=
  { scanned with complaints := scanned.complaints.map (Complaint.down n) }

theorem number_down (n : Nat) (p : Position) (text : List Char) :
    number (p.down n) text = (number p text).down n := by
  unfold number
  dsimp only
  split
  · split <;> rfl
  · rfl

theorem comment?_down (n : Nat) (p : Position) (c : Char) (rest : List Char) :
    comment? (p.down n) c rest = (comment? p c rest).map (down n) := by
  unfold comment?
  split
  · rfl
  · split
    · rfl
    · rw [Position.after_down]
      rfl
  · rfl

/-- What a text begins with does not depend on the line that it begins on. -/
theorem first_down (n : Nat) (p : Position) (c : Char) (rest : List Char) :
    first (p.down n) c rest = (first p c rest).down n := by
  unfold first
  split
  · rfl
  split
  · rw [Position.advance_down, Quotation.scan_down]
    rfl
  split
  · exact number_down n p _
  split
  · rfl
  rw [comment?_down]
  cases comment? p c rest with
  | some scanned => rfl
  | none =>
    cases symbol? c rest <;> rfl

end Scanned

/-! What is before a line break -/

/-- None of the complaints is that the text ends in a block comment that is still open. -/
def Complaint.Closed (complaints : List Complaint) : Prop :=
  ∀ x ∈ complaints, x.fault ≠ .unterminatedComment

/-- A row of characters of a kind that a line break is not of ends before it. -/
theorem takeWhile_append_newline {q : Char → Bool} (hq : q '\n' = false) (text below : List Char) :
    (text ++ '\n' :: below).takeWhile q = text.takeWhile q := by
  induction text with
  | nil => simp [hq]
  | cons c text ih => simp [List.takeWhile_cons, ih]

namespace NumberLiteral

theorem leadingDigits_append_newline (text below : List Char) :
    leadingDigits (text ++ '\n' :: below) = leadingDigits text :=
  takeWhile_append_newline rfl text below

theorem fractionOf_append_newline (text below : List Char) :
    fractionOf (text ++ '\n' :: below) = fractionOf text := by
  unfold fractionOf
  rcases text with _ | ⟨c, text⟩
  · rfl
  · by_cases hc : c = '.'
    · subst hc
      exact leadingDigits_append_newline text below
    · simp [hc]

theorem exponentOf_append_newline (text below : List Char) :
    exponentOf (text ++ '\n' :: below) = exponentOf text := by
  rcases text with _ | ⟨mark, text⟩
  · rfl
  have hdigits := leadingDigits_append_newline text below
  rcases text with _ | ⟨c, text⟩
  · simp [exponentOf, leadingDigits]
  · have hbehind := leadingDigits_append_newline text below
    by_cases hminus : c = '-'
    · subst hminus
      simp [exponentOf, hbehind]
    · by_cases hplus : c = '+'
      · subst hplus
        simp [exponentOf, hbehind]
      · rw [List.cons_append] at hdigits
        simp [exponentOf, hminus, hplus, hdigits]

/-- A number ends with its line, also where an exponent or a fraction could still come. -/
theorem scan_append_newline (text below : List Char) :
    scan (text ++ '\n' :: below) = scan text := by
  have hwhole : (leadingDigits text).length ≤ text.length := (List.takeWhile_prefix _).length_le
  have hpointed : ∀ rest : List Char, (if (fractionOf rest).isEmpty then 0
      else (fractionOf rest).length + 1) ≤ rest.length := by
    intro rest
    rcases rest with _ | ⟨c, rest⟩
    · exact Nat.le_refl _
    · by_cases hc : c = '.'
      · subst hc
        have hdigits : (leadingDigits rest).length ≤ rest.length := (List.takeWhile_prefix _).length_le
        split
        · exact Nat.zero_le _
        · exact Nat.succ_le_succ hdigits
      · simp [fractionOf, hc]
  unfold scan
  simp only [leadingDigits_append_newline, List.drop_append_of_le_length hwhole,
    fractionOf_append_newline, List.drop_append_of_le_length (hpointed _),
    exponentOf_append_newline]

end NumberLiteral

/-- A string literal breaks off at a line break as it does at the end of the text. -/
theorem Quotation.scan_append_newline (start p : Position) (text below : List Char) :
    scan start p (text ++ '\n' :: below) = scan start p text := by
  fun_induction scan start p text with
  | case1 p => rfl
  | case2 p => rfl
  | case3 p rest => rfl
  | case4 p c rest hc next value hvalue ih =>
    rw [List.cons_append, List.cons_append, scan, if_neg hc]
    simp only [hvalue]
    rw [ih]
  | case5 p c rest hc next hvalue ih =>
    rw [List.cons_append, List.cons_append, scan, if_neg hc]
    simp only [hvalue]
    rw [ih]
  | case6 p rest => rfl
  | case7 p rest => rfl
  | case8 p c rest hend hescape hquote hnewline ih =>
    have hbackslash : c ≠ '\\' := fun hc => by
      cases rest with
      | nil => exact hend hc rfl
      | cons d rest => exact hescape d rest hc rfl
    rw [List.cons_append, scan, if_neg hquote, if_neg hnewline, ih]
    · exact fun hc => absurd hc hbackslash
    · exact fun d rest' hc => absurd hc hbackslash

namespace Scanned

theorem number_append_newline (p : Position) (text below : List Char) :
    number p (text ++ '\n' :: below) = number p text := by
  unfold number
  rw [NumberLiteral.scan_append_newline]

theorem symbol?_append_newline (c : Char) (rest below : List Char) :
    symbol? c (rest ++ '\n' :: below) = symbol? c rest := by
  cases rest with
  | nil => simp [symbol?]
  | cons d rest => rfl

/-- A closed comment ends where it ends, whatever is behind it. -/
theorem commentLength_append {text : List Char} {length : Nat}
    (h : commentLength text = some length) (below : List Char) :
    commentLength (text ++ below) = some length := by
  obtain ⟨body, rest, rfl, rfl, hbody⟩ := commentLength_eq_some h
  rw [List.append_assoc]
  exact TriviaPart.commentLength_append hbody _

theorem comment?_eq_none {p : Position} {c d : Char} {rest : List Char}
    (hline : ¬ (c = '/' ∧ d = '/')) (hblock : ¬ (c = '/' ∧ d = '*')) :
    comment? p c (d :: rest) = none := by
  unfold comment?
  split
  · rename_i heq
    exact absurd ⟨rfl, (List.cons.inj heq).1⟩ hline
  · rename_i heq
    exact absurd ⟨rfl, (List.cons.inj heq).1⟩ hblock
  · rfl

theorem comment?_append_newline {p : Position} {c : Char} {rest : List Char}
    (h : ∀ scanned ∈ comment? p c rest, Complaint.Closed scanned.complaints) (below : List Char) :
    comment? p c (rest ++ '\n' :: below) = comment? p c rest := by
  rcases rest with _ | ⟨d, rest⟩
  · simp [comment?]
  by_cases hline : c = '/' ∧ d = '/'
  · obtain ⟨rfl, rfl⟩ := hline
    have hlength : lineCommentLength (rest ++ '\n' :: below) = lineCommentLength rest :=
      congrArg List.length (takeWhile_append_newline rfl rest below)
    simp only [List.cons_append, comment?, hlength]
  by_cases hblock : c = '/' ∧ d = '*'
  · obtain ⟨rfl, rfl⟩ := hblock
    cases hlength : commentLength rest with
    | none =>
      have hopen := h _ (by simp only [comment?, hlength]; rfl)
      exact absurd rfl (hopen _ List.mem_cons_self)
    | some length =>
      simp only [List.cons_append, comment?, hlength, commentLength_append hlength]
  · rw [comment?_eq_none hline hblock]
    exact comment?_eq_none hline hblock

theorem first_append_newline {p : Position} {c : Char} {rest : List Char}
    (h : Complaint.Closed (first p c rest).complaints) (below : List Char) :
    first p c (rest ++ '\n' :: below) = first p c rest := by
  unfold first at h ⊢
  split
  · rfl
  split
  · rw [Quotation.scan_append_newline]
  split
  · exact number_append_newline p (c :: rest) below
  split
  · rw [takeWhile_append_newline rfl]
  rename_i hblank hquote hdigit hname
  simp only [hblank, hquote, hdigit, hname, if_false, Bool.false_eq_true] at h
  rw [comment?_append_newline, symbol?_append_newline]
  intro scanned hscanned
  rwa [Option.mem_def.1 hscanned] at h

end Scanned

/-! Tiles above and below a line break -/

namespace Tile

def down (n : Nat) (t : Tile) : Tile := { t with complaints := t.complaints.map (Complaint.down n) }

/-- The tile of a line break. -/
def newline : Tile := ⟨.trivia, ['\n'], []⟩

theorem newline_at (before rest : List Char) : newline.At before rest := ⟨'\n', [], rfl, rfl⟩

theorem At.append_newline {t : Tile} {before rest : List Char} (h : t.At before rest)
    (hclosed : Complaint.Closed t.complaints) (below : List Char) :
    t.At before (rest ++ '\n' :: below) := by
  obtain ⟨c, tail, htext, hfirst⟩ := h
  refine ⟨c, tail, htext, ?_⟩
  rw [← List.append_assoc, Scanned.first_append_newline (by rwa [hfirst]), hfirst]

theorem At.down {t : Tile} {before rest : List Char} (h : t.At before rest) (above : List Char) :
    (t.down (Source.lineCount above)).At (above ++ '\n' :: before) rest := by
  obtain ⟨c, tail, htext, hfirst⟩ := h
  refine ⟨c, tail, htext, ?_⟩
  rw [Source.position_append_newline, Scanned.first_down, hfirst]
  rfl

theorem token?_down (t : Tile) (above before : List Char) :
    (t.down (Source.lineCount above)).token? (above ++ '\n' :: before) =
      (t.token? before).map (Token.down (Source.lineCount above)) := by
  obtain ⟨piece, text, complaints⟩ := t
  cases piece with
  | token kind =>
    simp only [token?, down, List.append_assoc, List.cons_append, Source.position_append_newline]
    rfl
  | trivia => rfl
  | stray => rfl

theorem tokens_down (tiles : List Tile) (above before : List Char) :
    tokens (above ++ '\n' :: before) (tiles.map (down (Source.lineCount above))) =
      (tokens before tiles).map (Token.down (Source.lineCount above)) := by
  induction tiles generalizing before with
  | nil => rfl
  | cons t rest ih =>
    have hrest : above ++ '\n' :: before ++ (t.down (Source.lineCount above)).text =
        above ++ '\n' :: (before ++ t.text) := by simp [down]
    rw [List.map_cons, tokens, tokens, token?_down, hrest, ih, List.map_append]
    cases t.token? before <;> rfl

theorem texts_down (n : Nat) (tiles : List Tile) :
    (tiles.map (down n)).flatMap text = tiles.flatMap text := by
  rw [List.flatMap_map]
  rfl

theorem complaints_down (n : Nat) (tiles : List Tile) :
    (tiles.map (down n)).flatMap complaints =
      (tiles.flatMap complaints).map (Complaint.down n) := by
  rw [List.flatMap_map, List.map_flatMap]
  rfl

theorem tokens_append (before : List Char) (tiles more : List Tile) :
    tokens before (tiles ++ more) =
      tokens before tiles ++ tokens (before ++ tiles.flatMap text) more := by
  induction tiles generalizing before with
  | nil => simp [tokens]
  | cons t rest ih => simp [tokens, ih]

end Tile

namespace Lexed.Cut

variable {before source : List Char} {count : Nat} {tiles : List Tile}

/-- A text below a line break is cut as it is cut by itself, as long as there are not too many
complaints. -/
theorem down {unread : List Char} (h : Cut before count source tiles unread) (above : List Char)
    (more : Nat) (hroom : more + count + (tiles.flatMap Tile.complaints).length < maxErrors) :
    Cut (above ++ '\n' :: before) (more + count) source
      (tiles.map (Tile.down (Source.lineCount above))) unread := by
  induction h with
  | ended => exact .ended _ _
  | full hfull => omega
  | @tile before count t rest tiles unread htile hlimit hrest ih =>
    rw [List.flatMap_cons, List.length_append] at hroom
    have hcount : more + count + (t.down (Source.lineCount above)).complaints.length =
        more + (count + t.complaints.length) := by
      simp only [Tile.down, List.length_map]
      omega
    refine .tile (t := t.down _) (htile.down above) (fun _ => by omega) ?_
    rw [hcount, List.append_assoc]
    exact ih (by omega)

/-- A text that is cut to its end is cut in the same way above a line break. -/
theorem append_newline {below unread : List Char} {more : List Tile}
    (h : Cut before count source tiles [])
    (hclosed : Complaint.Closed (tiles.flatMap Tile.complaints))
    (hbelow : Cut (before ++ source ++ ['\n']) (count + (tiles.flatMap Tile.complaints).length)
      below more unread) :
    Cut before count (source ++ '\n' :: below) (tiles ++ Tile.newline :: more) unread := by
  generalize hunread : ([] : List Char) = none at h
  induction h with
  | ended before count =>
    rw [List.append_nil] at hbelow
    exact .tile (t := .newline) (Tile.newline_at before below) (fun h => absurd rfl h) hbelow
  | full => cases hunread
  | @tile before count t rest tiles none htile hlimit hrest ih =>
    rw [List.flatMap_cons] at hclosed
    have hhere : Complaint.Closed t.complaints :=
      fun x hx => hclosed x (List.mem_append_left _ hx)
    have hthere : Complaint.Closed (tiles.flatMap Tile.complaints) :=
      fun x hx => hclosed x (List.mem_append_right _ hx)
    rw [List.append_assoc]
    refine .tile (htile.append_newline hhere below) hlimit (ih hthere ?_ hunread)
    rwa [List.flatMap_cons, List.length_append, ← List.append_assoc, ← Nat.add_assoc] at hbelow

end Lexed.Cut

/-- What a text is read as, `n` lines further down. -/
def Lexed.down (n : Nat) (l : Lexed) : Lexed :=
  ⟨l.tokens.map (Token.down n), l.complaints.map (Complaint.down n)⟩

/-- What is behind a line break is read as if the text began there. -/
theorem lex_append_newline_eq {above below : List Char}
    (hclosed : Complaint.Closed (lex above).complaints)
    (hroom : (lex above).complaints.length + (lex below).complaints.length < maxErrors) :
    ∃ tokens last, (lex above).tokens = tokens ++ [last] ∧ last.kind = .endOfFile ∧
      lex (above ++ '\n' :: below) =
        .prepend tokens (lex above).complaints ((lex below).down (Source.lineCount above)) := by
  obtain ⟨tiles, unread, h⟩ := Lexed.exists_cut [] 0 above
  obtain ⟨more, unread', h'⟩ := Lexed.exists_cut [] 0 below
  rw [h.lex_eq] at hclosed hroom ⊢
  rw [h'.lex_eq] at hroom ⊢
  dsimp only at hclosed hroom
  obtain rfl : unread = [] := Decidable.byContradiction fun hunread => by
    have := h.full_of_unread hunread
    omega
  have htexts : tiles.flatMap Tile.text = above := by simpa using h.texts_append
  have hdown := h'.down above (tiles.flatMap Tile.complaints).length (by omega)
  have hcut := h.append_newline hclosed (by simpa using hdown)
  have hlast := Source.position_append_newline above (more.flatMap Tile.text)
  have htokens := Tile.tokens_down more above []
  refine ⟨_, _, rfl, rfl, ?_⟩
  rw [hcut.lex_eq, Tile.tokens_append, List.nil_append, htexts, Tile.tokens]
  simp only [List.flatMap_append, List.flatMap_cons, htexts, Tile.texts_down, Tile.complaints_down]
  simp only [Tile.newline, Tile.token?, Option.toList_none, List.nil_append, List.cons_append,
    hlast, htokens, Lexed.prepend, Lexed.down, List.map_append, List.append_assoc]
  rfl

/-! What is reported -/

namespace Source

theorem quotedLine_above {above : List Char} {n : Nat} (h : n ≤ lineCount above)
    (below : List Char) : quotedLine (above ++ '\n' :: below) n = quotedLine above n := by
  unfold quotedLine line?
  split
  · rfl
  · rw [pieces_append, List.getElem?_append_left (by unfold lineCount at h; omega)]

theorem quotedLine_below (above below : List Char) {n : Nat} (h : 1 ≤ n) :
    quotedLine (above ++ '\n' :: below) (n + lineCount above) = quotedLine below n := by
  have hindex : n + lineCount above - 1 = (pieces above).length + (n - 1) := by
    unfold lineCount
    omega
  rw [quotedLine, quotedLine, line?, line?, if_neg (by omega), if_neg (by omega), pieces_append,
    hindex, List.getElem?_append_right (Nat.le_add_right _ _), Nat.add_sub_cancel_left]

theorem Marks.line_mem {source : List Char} {p : Position} (h : Marks source p) :
    1 ≤ p.line ∧ p.line ≤ lineCount source := by
  obtain ⟨before, rest, rfl, rfl, -⟩ := h
  rw [lineCount_eq, List.count_append]
  simp only [position]
  omega

end Source

/-- What is reported of the pieces of a text. -/
def lexErrors (source : List Char) : List ScriptError :=
  (lex source).complaints.map (Complaint.toError source)

theorem Complaint.Grounded.toError_above {above : List Char} {x : Complaint} (h : x.Grounded above)
    (below : List Char) : x.toError (above ++ '\n' :: below) = x.toError above := by
  rw [toError, toError, ScriptError.inSource, ScriptError.inSource,
    Source.quotedLine_above h.marks.line_mem.2]

theorem Complaint.Grounded.toError_below (above : List Char) {below : List Char} {x : Complaint}
    (h : x.Grounded below) : (x.down (Source.lineCount above)).toError (above ++ '\n' :: below) =
      (x.toError below).down (Source.lineCount above) := by
  have hline := Source.quotedLine_below above below h.marks.line_mem.1
  simp only [toError, ScriptError.inSource, ScriptError.down, down, Span.down, Position.down, hline]
  rfl

/-- Two texts with a line break between them are read as each of them is by itself: as the tokens of
the first without its end of file, and those of the second further down. So it is with the errors, each
of which quotes the same line as before. The first may end anywhere but in a block comment that is
still open, and there must be fewer errors in all than the limit. -/
theorem lex_append_newline (above below : List Char)
    (hclosed : Complaint.Closed (lex above).complaints)
    (hroom : (lexErrors above).length + (lexErrors below).length < maxErrors) :
    ∃ tokens last, (lex above).tokens = tokens ++ [last] ∧ last.kind = .endOfFile ∧
      (lex (above ++ '\n' :: below)).tokens =
        tokens ++ (lex below).tokens.map (Token.down (Source.lineCount above)) ∧
      lexErrors (above ++ '\n' :: below) =
        lexErrors above ++ (lexErrors below).map (ScriptError.down (Source.lineCount above)) := by
  simp only [lexErrors, List.length_map] at hroom
  obtain ⟨tokens, last, htokens, hlast, heq⟩ := lex_append_newline_eq hclosed hroom
  refine ⟨tokens, last, htokens, hlast, congrArg Lexed.tokens heq, ?_⟩
  have habove : (lex above).complaints.map (Complaint.toError (above ++ '\n' :: below)) =
      lexErrors above :=
    List.map_congr_left fun x hx => (lex_grounded above x hx).toError_above below
  have hbelow : ((lex below).complaints.map (Complaint.down (Source.lineCount above))).map
      (Complaint.toError (above ++ '\n' :: below)) =
        (lexErrors below).map (ScriptError.down (Source.lineCount above)) := by
    rw [lexErrors, List.map_map, List.map_map]
    exact List.map_congr_left fun x hx => (lex_grounded below x hx).toError_below above
  calc lexErrors (above ++ '\n' :: below)
    _ = ((lex above).complaints ++ (lex below).complaints.map
          (Complaint.down (Source.lineCount above))).map
          (Complaint.toError (above ++ '\n' :: below)) := by rw [lexErrors, heq]; rfl
    _ = lexErrors above ++ (lexErrors below).map (ScriptError.down (Source.lineCount above)) := by
      rw [List.map_append, habove, hbelow]

/-- A string that breaks off at a backslash, and a number that an exponent could follow. -/
theorem lex_append_newline_brokenOff :
    Complaint.Closed (lex ['"', 'a', '\\']).complaints ∧
    (lexErrors ['"', 'a', '\\']).length + (lexErrors ['@', '1', 'e']).length < maxErrors ∧
    ∃ tokens last, (lex ['"', 'a', '\\']).tokens = tokens ++ [last] ∧ last.kind = .endOfFile ∧
      (lex (['"', 'a', '\\'] ++ '\n' :: ['@', '1', 'e'])).tokens =
        tokens ++ (lex ['@', '1', 'e']).tokens.map
          (Token.down (Source.lineCount ['"', 'a', '\\'])) ∧
      lexErrors (['"', 'a', '\\'] ++ '\n' :: ['@', '1', 'e']) =
        lexErrors ['"', 'a', '\\'] ++ (lexErrors ['@', '1', 'e']).map
          (ScriptError.down (Source.lineCount ['"', 'a', '\\'])) := by
  have hclosed : Complaint.Closed (lex ['"', 'a', '\\']).complaints := by
    unfold Complaint.Closed
    decide +kernel
  have hroom : (lexErrors ['"', 'a', '\\']).length + (lexErrors ['@', '1', 'e']).length <
      maxErrors := by decide +kernel
  exact ⟨hclosed, hroom, lex_append_newline _ _ hclosed hroom⟩

end ScriptEngine
