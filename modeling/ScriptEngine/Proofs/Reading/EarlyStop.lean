import ScriptEngine.Proofs.Reading.ErrorBudget
import ScriptEngine.Proofs.Reading.Progress

/-!
Where the lexer stops before the end of a text. It puts the end of the file there, and readers may
complain about it; but it stops only behind as many complaints as there may be errors, all of them
about characters before that place, and errors are reported in the order of their places. So nobody
hears of an end of the file that is none.
-/
namespace ScriptEngine

/-- The complaint is about one of the tokens, and if it says which token is there, it is that. -/
def Complaint.IsAbout (x : Complaint) (tokens : List Token) : Prop :=
  ∃ t ∈ tokens, x.span = t.span ∧ ∀ k, x.fault.got? = some k → t.kind = k

theorem Complaint.IsAbout.of_suffix {x : Complaint} {tokens tokens' : List Token}
    (h : x.IsAbout tokens') (hsuffix : tokens' <:+ tokens) : x.IsAbout tokens := by
  obtain ⟨t, ht, hx⟩ := h
  exact ⟨t, hsuffix.subset ht, hx⟩

namespace Cursor

/-- On the way from one cursor to the other only tokens that were ahead are complained about. -/
structure Points (c d : Cursor) : Prop where
  onward : Onward False c d
  made : c.Bounded → ∀ x ∈ d.complaints, x ∈ c.complaints ∨ x.IsAbout c.rest

variable {c d e : Cursor}

theorem Bounded.isAbout (h : c.Bounded) {fault : SourceFault}
    (hgot : fault.got? = none ∨ fault.got? = some c.kind) :
    Complaint.IsAbout ⟨fault, c.here⟩ c.rest := by
  obtain ⟨before, last, hrest, -⟩ := h
  obtain ⟨t, rest, hrest⟩ : ∃ t rest, c.rest = t :: rest :=
    List.exists_cons_of_ne_nil (by simp [hrest])
  refine ⟨t, by simp [hrest], by rw [here, hrest], fun k hk => ?_⟩
  have hkind : c.kind = t.kind := by rw [kind, hrest]
  rcases hgot with hnone | hsome
  · exact absurd (hnone.symm.trans hk) (by simp)
  · exact hkind.symm.trans (Option.some.inj (hsome.symm.trans hk))

theorem mem_complain {fault : SourceFault} {span : Span} {x : Complaint}
    (hx : x ∈ (c.complain fault span).complaints) : x ∈ c.complaints ∨ x = ⟨fault, span⟩ := by
  unfold complain at hx
  split at hx
  · exact .inl hx
  · simpa using hx

theorem complaints_advance (c : Cursor) : c.advance.complaints = c.complaints := by
  obtain ⟨rest, previous, complaints, depth⟩ := c
  cases rest <;> rfl

theorem Points.of_silent (h : Onward False c d) (hsame : d.complaints = c.complaints) :
    c.Points d :=
  ⟨h, fun _ _ hx => .inl (hsame ▸ hx)⟩

theorem Points.trans (h : c.Points d) (h' : d.Points e) : c.Points e := by
  refine ⟨(h.onward.trans h'.onward).of_imp False.elim, fun hc x hx => ?_⟩
  rcases h'.made (h.onward.bounded hc) x hx with hx | hx
  · exact h.made hc x hx
  · exact .inr (hx.of_suffix h.onward.suffix)

/-- A complaint about the token that was ahead in the beginning. -/
theorem Points.complain (h : c.Points d) {fault : SourceFault}
    (hgot : fault.got? = none ∨ fault.got? = some c.kind) :
    c.Points (d.complain fault c.here) := by
  have honward := (h.onward.trans (onward_complain (fun h => h) d fault c.here)).of_imp
    (False.elim : False → _)
  refine ⟨honward, fun hc x hx => ?_⟩
  rcases mem_complain hx with hx | rfl
  · exact h.made hc x hx
  · exact .inr (hc.isAbout hgot)

theorem points_refl (c : Cursor) : c.Points c := .of_silent (.refl (fun h => h) c) rfl

theorem points_advance {k : TokenKind} (hk : c.kind = k) (hne : k ≠ .endOfFile) :
    c.Points c.advance :=
  .of_silent (onward_advance hk hne) (complaints_advance c)

theorem points_way : Reader.Way (fun _ => Points) Points where
  refl := points_refl
  trans := Points.trans
  advance := points_advance
  close := fun h _ _ _ => h
  nested := fun _ h => ⟨h.onward.nested, h.made⟩
  fail := Points.trans
  fail_nested := fun _ h => ⟨h.onward.nested, h.made⟩
  complain := fun c _ hgot => (points_refl c).complain hgot

theorem points_composed : Reader.Composed (fun _ => Points) (fun _ => Points) Points where
  expr := points_way
  stmt := points_way
  widen := fun h => h
  opened := fun h => h
  field := fun hk h => ((points_advance hk (by simp)).trans h).complain (.inl rfl)
  parameter := fun hk => (points_advance hk (by simp)).complain (.inl rfl)
  stray := fun {c} hk => ((points_refl c).complain (.inl rfl)).trans
    (points_advance ((kind_complain c _ _).trans hk) (by simp))
  recover := fun _ h => ⟨h.onward.recover (fun h => h) _, h.made⟩

end Cursor

/-- Readers complain about tokens of the script only, and name the token that is there. -/
theorem isAbout_of_mem_ofTokens {tokens : List Token} (h : (Cursor.start tokens).Bounded)
    {x : Complaint} (hx : x ∈ (Program.ofTokens tokens).complaints) : x.IsAbout tokens := by
  obtain ⟨body, c, hread, -⟩ := Reader.script_done tokens
  have hpoints := Cursor.points_composed.takes_script (readingFuel tokens) (.start tokens)
  unfold Reader.Takes at hpoints
  unfold Program.ofTokens at hx
  dsimp only at hx
  rw [hread _ (Nat.le_refl _)] at hpoints hx
  exact (hpoints.made h x hx).resolve_left (List.not_mem_nil)

/-! The lexer -/

/-- The complaint is about characters and not about a token, and does not end before it begins. -/
def Complaint.OfText (x : Complaint) : Prop := x.fault.got? = none ∧ x.span.start ≤ x.span.stop

/-- On one line the column moves with every character; a line break moves further. -/
theorem Position.le_after_of_length (p : Position) (text : List Char) :
    (⟨p.line, p.column + text.length⟩ : Position) ≤ p.after text := by
  induction text generalizing p with
  | nil => exact Position.le_refl p
  | cons c text ih =>
    have hrest : p.after (c :: text) = (p.advance c).after text := rfl
    rw [hrest]
    unfold Position.advance
    split
    · refine Position.le_trans ?_ (Position.le_after _ text)
      simp [Position.le_iff]
    · have := ih ⟨p.line, p.column + 1⟩
      rwa [List.length_cons, Nat.add_comm text.length, ← Nat.add_assoc]

theorem Position.lt_of_le_of_lt {p q r : Position} (h : p ≤ q) (h' : q < r) : p < r := by
  simp only [Position.le_iff, Position.lt_iff] at *
  omega

theorem Position.lt_irrefl (p : Position) : ¬ p < p := by
  simp [Position.lt_iff]

/-- What does not end behind a character ends before the next one. -/
theorem Position.lt_succ_of_le {p : Position} {line column : Nat} (h : p ≤ ⟨line, column⟩) :
    p < ⟨line, column + 1⟩ := by
  simp only [Position.le_iff, Position.lt_iff] at *
  omega

namespace Quotation

theorem complaints_ofText {start p : Position} (hline : p.line = start.line)
    (hcolumn : start.column < p.column) (text : List Char) :
    ∀ c ∈ (scan start p text).complaints, c.OfText := by
  have hadvance : ∀ (p : Position) (c : Char), c ≠ '\n' → p.advance c = ⟨p.line, p.column + 1⟩ :=
    fun p c hc => if_neg hc
  have hbreak : ∀ stop : Position, stop.line = start.line → start.column < stop.column →
      ∀ c ∈ (breakOff start stop).complaints, c.OfText := by
    intro stop hline hcolumn c hc
    obtain rfl := List.mem_singleton.1 hc
    refine ⟨rfl, .inr ⟨hline.symm, ?_⟩⟩
    simp only [Position.back]
    omega
  fun_induction scan start p text with
  | case1 p => exact hbreak p hline hcolumn
  | case2 p => exact hbreak _ hline (Nat.lt_succ_of_lt hcolumn)
  | case3 p rest => exact hbreak _ hline (Nat.lt_succ_of_lt hcolumn)
  | case4 p c rest hc next value hvalue ih =>
    have hnext : next = ⟨p.line, p.column + 1 + 1⟩ := hadvance _ c hc
    rw [hnext] at ih ⊢
    exact ih hline (by dsimp only; omega)
  | case5 p c rest hc next hvalue ih =>
    have hnext : next = ⟨p.line, p.column + 1 + 1⟩ := hadvance _ c hc
    rw [hnext] at ih ⊢
    intro d hd
    rcases List.mem_cons.1 hd with rfl | hd
    · exact ⟨rfl, .inr ⟨rfl, by simp only [Position.back]; omega⟩⟩
    · exact ih hline (by dsimp only; omega) d hd
  | case6 p rest => simp [close]
  | case7 p rest => exact hbreak p hline hcolumn
  | case8 p c rest hend hescape hquote hnewline ih =>
    rw [hadvance p c hnewline] at ih ⊢
    exact ih hline (by dsimp only; omega)

end Quotation

namespace Scanned

/-- Unless it is a comment, a piece is complained about where it stands. -/
theorem first_complaints_within {p : Position} (hp : 1 ≤ p.column) (c : Char) (rest : List Char)
    (hpiece : (first p c rest).piece ≠ .trivia) :
    ∀ x ∈ (first p c rest).complaints, x.OfText ∧
      x.span.stop ≤ ⟨p.line, p.column + (first p c rest).extra⟩ := by
  revert hpiece
  apply first_cases (motive := fun scanned => scanned.piece ≠ .trivia → ∀ x ∈ scanned.complaints,
    x.OfText ∧ x.span.stop ≤ ⟨p.line, p.column + scanned.extra⟩) p c rest
  case blank => simp
  case quotation =>
    rintro rfl
    dsimp only
    intro _ x hx
    have hquote : p.advance '"' = ⟨p.line, p.column + 1⟩ := rfl
    rw [hquote] at hx ⊢
    have htext := Quotation.complaints_ofText (by rfl) (by dsimp only; omega) rest x hx
    obtain ⟨-, hline, -, hstop⟩ :=
      Quotation.complaints_within hp (by rfl) (by dsimp only; omega) rest x hx
    refine ⟨htext, .inr ⟨hline, ?_⟩⟩
    dsimp only at hstop ⊢
    omega
  case number =>
    intro _ _ x hx
    unfold number at hx ⊢
    dsimp only at hx ⊢
    split at hx
    · rename_i hwhole
      rw [if_pos hwhole]
      split at hx
      · cases hx
      · obtain rfl := List.mem_singleton.1 hx
        exact ⟨⟨rfl, .inr ⟨rfl, Nat.le_add_right _ _⟩⟩, Position.le_refl _⟩
    · cases hx
  case name => simp
  case lineComment => simp
  case blockComment => simp
  case openComment => simp
  case symbol => simp
  case stray =>
    intro _ _ x hx
    obtain rfl := List.mem_singleton.1 hx
    exact ⟨⟨rfl, Position.le_refl _⟩, Position.le_refl _⟩

end Scanned

namespace Lexed

variable {before source unread : List Char} {count : Nat} {tiles : List Tile}

/-- As long as text is left unread, what is complained about stands before it. Only a comment that
does not end could reach further, and it leaves nothing. -/
theorem Cut.complaints_lt (h : Cut before count source tiles unread) (hunread : unread ≠ []) :
    ∀ x ∈ tiles.flatMap Tile.complaints, x.OfText ∧
      x.span.stop < Source.position (before ++ tiles.flatMap Tile.text) := by
  induction h with
  | ended => exact absurd rfl hunread
  | full => simp
  | @tile before count t rest tiles unread htile hroom hrest ih =>
    intro x hx
    rw [List.flatMap_cons, ← List.append_assoc]
    rcases List.mem_append.1 (List.flatMap_cons ▸ hx) with hx | hx
    · obtain ⟨tail, hlength, hblamed⟩ := Cut.blamed htile
      by_cases hpiece : t.piece = .trivia
      · rcases hblamed.trivia hpiece with hclean | ⟨hall, -⟩
        · have hclean : t.complaints = [] := hclean
          simp [hclean] at hx
        · obtain rfl : rest = [] := by simpa using hall
          have htexts := hrest.texts_append
          exact absurd (List.append_eq_nil_iff.1 htexts).2 hunread
      · obtain ⟨c, tail, htext, hfirst⟩ := htile
        have hwithin := Scanned.first_complaints_within (Nat.le_add_right 1 _) c (tail ++ rest)
          (p := Source.position before) (by rwa [hfirst]) x (by rwa [hfirst])
        rw [hfirst] at hwithin
        refine ⟨hwithin.1, ?_⟩
        have hafter : (⟨(Source.position before).line,
            (Source.position before).column + tail.length + 1⟩ : Position) ≤
              Source.position (before ++ t.text) := by
          rw [Source.position_append, htext]
          exact (Source.position before).le_after_of_length (c :: tail)
        have hbehind := Position.lt_of_lt_of_le (Position.lt_succ_of_le hwithin.2) hafter
        exact Position.lt_of_lt_of_le hbehind (Source.position_le_append _ _)
    · exact ih hunread x hx

end Lexed

/-- The lexer puts the end of the file at this place, and the text goes on there. -/
def Lexed.StopsEarly (source : List Char) (p : Position) : Prop :=
  (lex source).tokens.getLast? = some ⟨.endOfFile, .point p⟩ ∧ p < Source.position source

/-- The lexer does not stop early unless there are as many complaints as there may be errors, and
all that it complains about stands before the place where it stops. -/
theorem Lexed.StopsEarly.complaints {source : List Char} {p : Position}
    (h : Lexed.StopsEarly source p) :
    maxErrors ≤ (lex source).complaints.length ∧
      ∀ x ∈ (lex source).complaints, x.OfText ∧ x.span.stop < p := by
  obtain ⟨tiles, unread, hcut⟩ := Lexed.exists_cut [] 0 source
  obtain ⟨hlast, hend⟩ := h
  rw [hcut.lex_eq] at hlast ⊢
  obtain rfl : Source.position (tiles.flatMap Tile.text) = p := by
    simpa [Span.point] using hlast
  have hunread : unread ≠ [] := by
    rintro rfl
    rw [← hcut.texts_append, List.append_nil] at hend
    simp [Position.lt_iff] at hend
  have hfull := hcut.full_of_unread hunread
  rw [Nat.zero_add] at hfull
  exact ⟨hfull, hcut.complaints_lt hunread⟩

/-! Errors -/

/-- Where a list is in order, and what comes before an element that has the property has it too, the
elements with the property come first. -/
theorem forall_mem_take_of_le_countP {α : Type} {r : α → α → Prop} {q : α → Bool}
    (hdown : ∀ x y, r x y → q y → q x) {l : List α} (hl : l.Pairwise r) {n : Nat}
    (hn : n ≤ l.countP q) : ∀ x ∈ l.take n, q x := by
  induction l generalizing n with
  | nil => simp
  | cons a l ih =>
    obtain ⟨hfirst, hl⟩ := List.pairwise_cons.1 hl
    cases n with
    | zero => simp
    | succ n =>
      have ha : q a := by
        obtain ⟨b, hb, hqb⟩ := List.countP_pos_iff.1 (Nat.lt_of_lt_of_le (Nat.succ_pos n) hn)
        rcases List.mem_cons.1 hb with rfl | hb
        · exact hqb
        · exact hdown a b (hfirst b hb) hqb
      rw [List.countP_cons_of_pos ha] at hn
      rw [List.take_succ_cons]
      exact List.forall_mem_cons.2 ⟨ha, ih hl (Nat.le_of_succ_le_succ hn)⟩

/-- No end of the file is heard of that is none. Where the lexer stops before the end of a text, it
has as many complaints as there may be errors. There are that many errors then, and all of them
stand before that place, so that none says that the end of the file was found. -/
theorem no_phantom_end {source : List Char} {p : Position} (h : Lexed.StopsEarly source p) :
    maxErrors ≤ (lex source).complaints.length ∧ (parse source).complaints.length = maxErrors ∧
      ∀ x ∈ (parse source).complaints,
        x.span.start < p ∧ x.span.stop < p ∧ x.fault.got? ≠ some .endOfFile := by
  obtain ⟨hfull, hbefore⟩ := h.complaints
  obtain ⟨tokens, last, hlex, hinside, hlast⟩ := Lexed.exists_tokens_readFrom ⟨1, 1⟩ 0 source 0
  have hlex : (lex source).tokens = tokens ++ [last] := hlex
  obtain rfl : last = ⟨.endOfFile, .point p⟩ := by
    simpa [hlex] using h.1
  have hempty : (lex source).complaints.isEmpty = false := by
    rw [List.isEmpty_eq_false_iff_exists_mem]
    exact List.exists_mem_of_length_pos (Nat.lt_of_lt_of_le (by decide) hfull)
  let made := (lex source).complaints ++ (Program.ofTokens (lex source).tokens).complaints
  let sorted := made.mergeSort fun x y => decide (x.span.start ≤ y.span.start)
  have hparse : (parse source).complaints = sorted.take maxErrors := by
    unfold parse
    dsimp only
    rw [if_neg (by simp [hempty])]
  have hperm : sorted.Perm made := List.mergeSort_perm _ _
  have hmany : maxErrors ≤ sorted.countP fun x => decide (x.span.start < p) := by
    have hall : (lex source).complaints.countP (fun x => decide (x.span.start < p)) =
        (lex source).complaints.length := by
      refine List.countP_eq_length.2 fun x hx => decide_eq_true ?_
      obtain ⟨⟨-, hforward⟩, hstop⟩ := hbefore x hx
      exact Position.lt_of_le_of_lt hforward hstop
    rw [hperm.countP_eq, List.countP_append, hall]
    exact Nat.le_add_right_of_le hfull
  have hstart := forall_mem_take_of_le_countP
    (fun x y hxy hy => decide_eq_true (Position.lt_of_le_of_lt hxy (of_decide_eq_true hy)))
    (Complaint.pairwise_sorted made) hmany
  refine ⟨hfull, ?_, fun x hx => ?_⟩
  · rw [hparse, List.length_take]
    exact Nat.min_eq_left (Nat.le_trans hmany List.countP_le_length)
  · rw [hparse] at hx
    have hx' := of_decide_eq_true (hstart x hx)
    rcases List.mem_append.1 (hperm.subset (List.mem_of_mem_take hx)) with hlexer | hreader
    · obtain ⟨⟨hgot, -⟩, hstop⟩ := hbefore x hlexer
      exact ⟨hx', hstop, by simp [hgot]⟩
    · -- A reader complains about a token, and the one where the lexer stops is too far.
      rw [hlex] at hreader
      obtain ⟨t, ht, hspan, hgot⟩ := isAbout_of_mem_ofTokens ⟨tokens, _, rfl, rfl⟩ hreader
      have htoken : t ∈ tokens := by
        refine (List.mem_append.1 ht).resolve_right fun hend => ?_
        rw [hspan, List.mem_singleton.1 hend] at hx'
        exact Position.lt_irrefl p hx'
      have hapart := (hlex ▸ lex_tokens_apart source).next
      refine ⟨hx', ?_, fun hend => hinside t htoken (hgot _ hend)⟩
      rw [hspan]
      exact (List.pairwise_append.1 hapart).2.2 t htoken _ (List.mem_singleton_self _)

/-- A text on which the lexer gives up: the word behind the stray characters is not read, and what
is declared has no value. -/
def hashes : List Char := "var x = ".toList ++ List.replicate maxErrors '#' ++ " y".toList

theorem no_phantom_end_hashes :
    Lexed.StopsEarly hashes ⟨1, 30⟩ ∧
      (∃ x ∈ (Program.ofTokens (lex hashes).tokens).complaints,
        x.fault.got? = some .endOfFile) ∧
      ∀ x ∈ (parse hashes).complaints, x.span.start < ⟨1, 30⟩ ∧ x.span.stop < ⟨1, 30⟩ ∧
        x.fault.got? ≠ some .endOfFile := by
  have hstops : Lexed.StopsEarly hashes ⟨1, 30⟩ := by
    unfold Lexed.StopsEarly
    decide +kernel
  exact ⟨hstops, by decide +kernel, (no_phantom_end hstops).2.2⟩

end ScriptEngine
