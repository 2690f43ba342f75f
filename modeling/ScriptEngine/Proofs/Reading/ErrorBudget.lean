import ScriptEngine.Proofs.Reading.Tiling

/-!
How many complaints there can be about the pieces of a text. Whether the limit is reached is asked
between two pieces only, so what is beyond it comes from the piece that went over it, which can only
be a string, and from a comment after it that does not end.
-/
namespace ScriptEngine

/-- The complaint is about characters that the token covers. -/
def Token.Holds (t : Token) (c : Complaint) : Prop :=
  t.span.start ≤ c.span.start ∧ c.span.stop ≤ t.span.stop

def TokenKind.isString : TokenKind → Bool
  | string _ => true
  | _ => false

namespace Quotation

/-- The complaint is about characters of one line, in these columns. -/
def Within (line first last : Nat) (c : Complaint) : Prop :=
  c.span.start.line = line ∧ c.span.stop.line = line ∧
    first ≤ c.span.start.column ∧ c.span.stop.column ≤ last

theorem Within.mono {line first last first' last' : Nat} {c : Complaint}
    (h : Within line first last c) (hfirst : first' ≤ first) (hlast : last ≤ last') :
    Within line first' last' c := by
  obtain ⟨hline, hline', hstart, hstop⟩ := h
  exact ⟨hline, hline', by omega, by omega⟩

theorem breakOff_within {start p : Position} (hstart : 1 ≤ start.column)
    (hline : p.line = start.line) (hcolumn : start.column < p.column) :
    ∀ c ∈ (breakOff start p).complaints, Within start.line start.column (p.column - 1) c := by
  intro c hc
  obtain rfl := List.mem_singleton.1 hc
  refine ⟨rfl, hline, Nat.le_refl _, ?_⟩
  show max (p.column - 1) 1 ≤ p.column - 1
  omega

/-- Whatever is wrong with a string literal is wrong with characters of it. -/
theorem complaints_within {start p : Position} (hstart : 1 ≤ start.column)
    (hline : p.line = start.line) (hcolumn : start.column < p.column) (text : List Char) :
    ∀ c ∈ (scan start p text).complaints,
      Within start.line start.column (p.column + (scan start p text).length - 1) c := by
  -- A literal ends before a line break, so that every character is one column further.
  have hadvance : ∀ (p : Position) (c : Char), c ≠ '\n' → p.advance c = ⟨p.line, p.column + 1⟩ :=
    fun p c hc => if_neg hc
  fun_induction scan start p text with
  | case1 p => exact breakOff_within hstart hline hcolumn
  | case2 p =>
    exact breakOff_within (p := p.advance '\\') hstart hline (Nat.lt_succ_of_lt hcolumn)
  | case3 p rest =>
    exact breakOff_within (p := p.advance '\\') hstart hline (Nat.lt_succ_of_lt hcolumn)
  | case4 p c rest hc next value hvalue ih =>
    have hnext : next = ⟨p.line, p.column + 1 + 1⟩ := hadvance _ c hc
    rw [hnext] at ih ⊢
    intro d hd
    refine (ih hline (by dsimp only; omega) d hd).mono (Nat.le_refl _) ?_
    simp only [extend]
    omega
  | case5 p c rest hc next hvalue ih =>
    have hnext : next = ⟨p.line, p.column + 1 + 1⟩ := hadvance _ c hc
    rw [hnext] at ih ⊢
    intro d hd
    rcases List.mem_cons.1 hd with rfl | hd
    · refine ⟨hline, hline, Nat.le_of_lt hcolumn, ?_⟩
      simp only [Position.back, extend]
      omega
    · refine (ih hline (by dsimp only; omega) d hd).mono (Nat.le_refl _) ?_
      simp only [extend]
      omega
  | case6 p rest => simp [close]
  | case7 p rest => exact breakOff_within hstart hline hcolumn
  | case8 p c rest hend hescape hquote hnewline ih =>
    rw [hadvance p c hnewline] at ih ⊢
    intro d hd
    refine (ih hline (by dsimp only; omega) d hd).mono (Nat.le_refl _) ?_
    simp only [extend]
    omega

/-- So the token of a string literal covers all that is wrong with it. -/
theorem holds_of_mem_complaints {p : Position} (hp : 1 ≤ p.column) (kind : TokenKind)
    (text : List Char) : ∀ c ∈ (scan p (p.advance '"') text).complaints,
      (Token.mk kind (Scanned.onLine p (scan p (p.advance '"') text).length)).Holds c := by
  intro c hc
  have hquote : p.advance '"' = ⟨p.line, p.column + 1⟩ := rfl
  rw [hquote] at hc ⊢
  obtain ⟨hline, hline', hstart, hstop⟩ :=
    complaints_within hp (by rfl) (by dsimp only; omega) text c hc
  refine ⟨.inr ⟨hline.symm, hstart⟩, .inr ⟨hline', ?_⟩⟩
  dsimp only [Scanned.onLine] at hstop ⊢
  omega

end Quotation

namespace Scanned

/-- What can be wrong with a piece at `p`, which `rest` comes after. Only a string can be wrong in
several ways, and only a comment that runs to the end of the text is wrong without being a token. -/
structure Blamed (scanned : Scanned) (p : Position) (rest : List Char) : Prop where
  trivia : scanned.piece = .trivia → scanned.complaints = [] ∨
    (scanned.extra = rest.length ∧ ∃ span, scanned.complaints = [⟨.unterminatedComment, span⟩])
  token : ∀ kind, scanned.piece = .token kind → scanned.complaints.length ≤ 1 ∨
    kind.isString ∧ ∀ c ∈ scanned.complaints, (Token.mk kind (onLine p scanned.extra)).Holds c
  stray : scanned.piece = .stray → scanned.complaints.length = 1

theorem blamed_clean {piece : Piece} (hpiece : piece ≠ .stray) (extra : Nat) (p : Position)
    (rest : List Char) : (Scanned.mk piece extra []).Blamed p rest :=
  ⟨fun _ => .inl rfl, fun _ _ => .inl (Nat.zero_le _), fun h => absurd h hpiece⟩

theorem blamed_token {kind : TokenKind} {complaints : List Complaint} (h : complaints.length ≤ 1)
    (extra : Nat) (p : Position) (rest : List Char) :
    (Scanned.mk (.token kind) extra complaints).Blamed p rest :=
  ⟨nofun, fun _ _ => .inl h, nofun⟩

theorem blamed_number (p : Position) (text rest : List Char) : (number p text).Blamed p rest := by
  unfold number
  dsimp only
  split
  · split <;> exact blamed_token (by simp) _ p rest
  · exact blamed_token (by simp) _ p rest

theorem first_blamed {p : Position} (hp : 1 ≤ p.column) (c : Char) (rest : List Char) :
    (first p c rest).Blamed p rest := by
  apply first_cases (motive := fun scanned => scanned.Blamed p rest) p c rest
  case blank => exact fun _ => blamed_clean (by simp) _ p rest
  case quotation =>
    rintro rfl
    refine ⟨nofun, fun kind hkind => .inr ?_, nofun⟩
    obtain rfl := Piece.token.inj hkind
    exact ⟨rfl, Quotation.holds_of_mem_complaints hp _ rest⟩
  case number => exact fun _ => blamed_number p _ rest
  case name => exact fun _ => blamed_clean (by simp) _ p rest
  case lineComment => exact fun _ _ _ => blamed_clean (by simp) _ p rest
  case blockComment => exact fun _ _ _ _ _ => blamed_clean (by simp) _ p rest
  case openComment => exact fun _ _ _ _ => ⟨fun _ => .inr ⟨rfl, _, rfl⟩, nofun, nofun⟩
  case symbol => exact fun _ _ _ => blamed_clean (by simp) _ p rest
  case stray => exact fun _ => ⟨nofun, nofun, fun _ => rfl⟩

end Scanned

namespace Lexed

/-- At most one complaint, about a comment that does not end. -/
def OnlyComment (complaints : List Complaint) : Prop :=
  complaints.length ≤ 1 ∧ ∀ c ∈ complaints, c.fault = .unterminatedComment

theorem onlyComment_nil : OnlyComment [] := ⟨Nat.zero_le _, by simp⟩

variable {before source unread : List Char} {count : Nat} {tiles : List Tile}

theorem Cut.blamed {t : Tile} {rest : List Char} (h : t.At before rest) :
    ∃ tail, t.text.length = tail.length + 1 ∧
      (Scanned.mk t.piece tail.length t.complaints).Blamed (Source.position before)
        (tail ++ rest) := by
  obtain ⟨c, tail, htext, hfirst⟩ := h
  refine ⟨tail, by simp [htext], ?_⟩
  rw [← hfirst]
  exact Scanned.first_blamed (Nat.le_add_right 1 _) c _

theorem Cut.eq_nil (h : Cut before count [] tiles unread) : tiles = [] := by
  cases tiles with
  | nil => rfl
  | cons t rest =>
    have htexts : t.text ++ rest.flatMap Tile.text ++ unread = [] := h.texts_append
    exact absurd (List.append_eq_nil_iff.1 (List.append_eq_nil_iff.1 htexts).1).1
      (h.text_ne_nil t (by simp))

/-- Once the limit is reached only blanks and comments are passed over. -/
theorem Cut.onlyComment_of_full (h : Cut before count source tiles unread)
    (hfull : maxErrors ≤ count) : OnlyComment (tiles.flatMap Tile.complaints) := by
  induction h with
  | ended => exact onlyComment_nil
  | full => exact onlyComment_nil
  | @tile before count t rest tiles unread htile hroom hrest ih =>
    obtain ⟨tail, -, hblamed⟩ := Cut.blamed htile
    have hpiece : t.piece = .trivia :=
      Decidable.byContradiction fun hpiece => by have := hroom hpiece; omega
    rcases hblamed.trivia hpiece with hclean | ⟨hlength, span, hcomment⟩
    · have hclean : t.complaints = [] := hclean
      rw [List.flatMap_cons, hclean, List.nil_append]
      exact ih (by omega)
    · have hcomment : t.complaints = _ := hcomment
      -- The comment has run to the end of the text.
      obtain rfl : rest = [] := by simpa using hlength
      obtain rfl := hrest.eq_nil
      rw [List.flatMap_cons, hcomment]
      exact ⟨Nat.le_refl _, by simp⟩

/-- A piece with several complaints is a string, and they are about it. -/
theorem Cut.string_of_complaints {t : Tile} {rest : List Char} (h : t.At before rest)
    (hmore : 1 < t.complaints.length) :
    ∃ token, t.token? before = some token ∧ token.kind.isString ∧
      ∀ c ∈ t.complaints, token.Holds c := by
  obtain ⟨tail, hlength, hblamed⟩ := Cut.blamed h
  cases hpiece : t.piece with
  | trivia =>
    rcases hblamed.trivia hpiece with hclean | ⟨-, span, hcomment⟩
    · have hclean : t.complaints = [] := hclean
      simp [hclean] at hmore
    · have hcomment : t.complaints = _ := hcomment
      simp [hcomment] at hmore
  | stray =>
    have hone : t.complaints.length = 1 := hblamed.stray hpiece
    omega
  | token kind =>
    have htail : tail.length = t.text.length - 1 := by omega
    rcases hblamed.token kind hpiece with hone | ⟨hstring, hinside⟩
    · have hone : t.complaints.length ≤ 1 := hone
      omega
    · rw [htail] at hinside
      exact ⟨_, h.token?_eq hpiece, hstring, hinside⟩

/-- What is beyond the limit comes from one string, and from a comment at the end. -/
theorem Cut.beyond (h : Cut before count source tiles unread) (hcount : count ≤ maxErrors) :
    ∃ inside trailing, (tiles.flatMap Tile.complaints).drop (maxErrors - count) = inside ++ trailing ∧
      OnlyComment trailing ∧ (inside = [] ∨ ∃ token ∈ Tile.tokens before tiles,
        token.kind.isString ∧ ∀ c ∈ inside, token.Holds c) := by
  induction h with
  | ended => exact ⟨[], [], by simp, onlyComment_nil, .inl rfl⟩
  | full => exact ⟨[], [], by simp, onlyComment_nil, .inl rfl⟩
  | @tile before count t rest tiles unread htile hroom hrest ih =>
    have hsplit : ((t :: tiles).flatMap Tile.complaints).drop (maxErrors - count) =
        t.complaints.drop (maxErrors - count) ++
          (tiles.flatMap Tile.complaints).drop (maxErrors - count - t.complaints.length) := by
      rw [List.flatMap_cons, List.drop_append]
    rw [hsplit]
    by_cases hover : count + t.complaints.length ≤ maxErrors
    · obtain ⟨inside, trailing, hdrop, htrailing, hinside⟩ := ih hover
      refine ⟨inside, trailing, ?_, htrailing, hinside.imp_right ?_⟩
      · rw [List.drop_eq_nil_of_le (by omega), List.nil_append, ← hdrop, Nat.sub_add_eq]
      · rintro ⟨token, htoken, hstring⟩
        exact ⟨token, List.mem_append_right _ htoken, hstring⟩
    · -- The piece goes over the limit, unless the limit was reached before it.
      have hzero : maxErrors - count - t.complaints.length = 0 := by omega
      rw [hzero, List.drop_zero]
      rcases Nat.lt_or_eq_of_le hcount with hroom' | rfl
      · obtain ⟨token, htoken, hstring, hinside⟩ := Cut.string_of_complaints htile (by omega)
        refine ⟨_, _, rfl, hrest.onlyComment_of_full (by omega), .inr ⟨token, ?_, hstring, ?_⟩⟩
        · exact List.mem_append_left _ (by simp [htoken])
        · exact fun c hc => hinside c (List.mem_of_mem_drop hc)
      · have hcomment := (Cut.tile htile hroom hrest).onlyComment_of_full (Nat.le_refl _)
        rw [List.flatMap_cons] at hcomment
        exact ⟨[], _, by rw [Nat.sub_self, List.drop_zero]; rfl, hcomment, .inl rfl⟩

end Lexed

/-- The tokens of a text are those of its pieces and one end of file, which is the last. There are
no more complaints than the limit allows, except that all complaints about the string with which the
limit was reached are made, and one more about a comment behind it that does not end. -/
theorem lex_budget (source : List Char) :
    (∃ tokens last, (lex source).tokens = tokens ++ [last] ∧ last.kind = .endOfFile ∧
      ∀ t ∈ tokens, t.kind ≠ .endOfFile) ∧
    ∃ inside trailing, (lex source).complaints.drop maxErrors = inside ++ trailing ∧
      (trailing.length ≤ 1 ∧ ∀ c ∈ trailing, c.fault = .unterminatedComment) ∧
      (inside = [] ∨ ∃ token ∈ (lex source).tokens,
        token.kind.isString ∧ ∀ c ∈ inside, token.Holds c) := by
  obtain ⟨tokens, last, htokens, hinside, hlast⟩ :=
    Lexed.exists_tokens_readFrom ⟨1, 1⟩ 0 source 0
  refine ⟨⟨tokens, last, htokens, hlast, hinside⟩, ?_⟩
  obtain ⟨tiles, unread, h⟩ := Lexed.exists_cut [] 0 source
  obtain ⟨inside, trailing, hdrop, htrailing, hinside⟩ := h.beyond (Nat.zero_le _)
  rw [h.lex_eq]
  refine ⟨inside, trailing, hdrop, htrailing, hinside.imp_right ?_⟩
  rintro ⟨token, htoken, hstring⟩
  exact ⟨token, List.mem_append_left _ htoken, hstring⟩

/-- A string with one wrong escape more than there may be complaints. -/
def overrun : List Char := '"' :: ((List.replicate (maxErrors + 1) ['\\', 'q']).flatten ++ ['"'])

theorem lex_overrun : maxErrors < (lex overrun).complaints.length := by
  decide +kernel

end ScriptEngine
