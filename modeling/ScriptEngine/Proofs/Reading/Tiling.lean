import ScriptEngine.Proofs.Reading.Lexeme
import ScriptEngine.Proofs.Reading.Lossless

/-!
How a text is cut into pieces. The pieces lie side by side from the beginning of the text to the
place where reading stops, which is its end unless there were too many complaints. What a text is
read as depends on its pieces alone: every token covers the characters of its piece, and its place
can be counted off in the text before it.
-/
namespace ScriptEngine

namespace Position

theorem lt_of_lt_of_le {p q r : Position} (h : p < q) (h' : q ≤ r) : p < r := by
  simp only [le_iff, lt_iff] at *
  omega

theorem le_of_lt {p q : Position} (h : p < q) : p ≤ q := by
  simp only [le_iff, lt_iff] at *
  omega

theorem lt_advance (p : Position) (c : Char) : p < p.advance c := by
  unfold advance
  split <;> simp [lt_iff]

theorem le_after (p : Position) (text : List Char) : p ≤ p.after text := by
  induction text generalizing p with
  | nil => exact le_refl p
  | cons c text ih => exact le_trans (le_of_lt (p.lt_advance c)) (ih _)

/-- On one line only the column moves. -/
theorem after_of_line (p : Position) {text : List Char} (h : '\n' ∉ text) :
    p.after text = ⟨p.line, p.column + text.length⟩ := by
  induction text generalizing p with
  | nil => rfl
  | cons c text ih =>
    obtain ⟨hc, htext⟩ : '\n' ≠ c ∧ '\n' ∉ text := by simpa using h
    have hadvance : p.advance c = ⟨p.line, p.column + 1⟩ := if_neg (Ne.symm hc)
    calc p.after (c :: text) = (p.advance c).after text := rfl
      _ = ⟨p.line, p.column + (c :: text).length⟩ := by
        rw [ih _ htext, hadvance, List.length_cons, Nat.add_assoc, Nat.add_comm 1]

end Position

namespace Source

/-- The place behind a text: its line is one more than the line breaks, its column one more than the
characters since the last of them. -/
def position (before : List Char) : Position :=
  ⟨1 + before.count '\n', 1 + (before.reverse.takeWhile (· != '\n')).length⟩

theorem position_append_singleton (before : List Char) (c : Char) :
    position (before ++ [c]) = (position before).advance c := by
  unfold position Position.advance
  split
  · subst c
    simp [Nat.add_assoc]
  · rename_i hc
    simp [hc, List.count_append, Nat.add_assoc]

theorem position_append (before text : List Char) :
    position (before ++ text) = (position before).after text := by
  induction text generalizing before with
  | nil => rw [List.append_nil]; rfl
  | cons c text ih =>
    calc position (before ++ c :: text) = position (before ++ [c] ++ text) := by simp
      _ = (position before).after (c :: text) := by rw [ih, position_append_singleton]; rfl

theorem position_le_append (before text : List Char) :
    position before ≤ position (before ++ text) := by
  rw [position_append]
  exact Position.le_after _ text

theorem position_append_of_line (before : List Char) {text : List Char} (h : '\n' ∉ text) :
    position (before ++ text) = ⟨(position before).line, (position before).column + text.length⟩ := by
  rw [position_append, Position.after_of_line _ h]

/-- The last character of a piece stands before the place behind the piece. -/
theorem position_dropLast_lt (before : List Char) {text : List Char} (h : text ≠ []) :
    position (before ++ text.dropLast) < position (before ++ text) := by
  have hsplit : before ++ text = before ++ text.dropLast ++ [text.getLast h] := by
    rw [List.append_assoc, List.dropLast_concat_getLast h]
  rw [hsplit, position_append_singleton]
  exact Position.lt_advance _ _

end Source

/-- A stretch of a text: what it was read as, its characters, and what is wrong with it. -/
structure Tile where
  piece : Piece
  text : List Char
  complaints : List Complaint

namespace Tile

/-- The tile is what a text goes on with behind `before` when `rest` comes after it. -/
def At (t : Tile) (before rest : List Char) : Prop :=
  ∃ c tail, t.text = c :: tail ∧
    Scanned.first (Source.position before) c (tail ++ rest) = ⟨t.piece, tail.length, t.complaints⟩

theorem At.text_ne_nil {t : Tile} {before rest : List Char} (h : t.At before rest) :
    t.text ≠ [] := by
  obtain ⟨c, tail, htext, -⟩ := h
  simp [htext]

/-- The characters of a tile are those of its piece. -/
theorem At.fits {t : Tile} {before rest : List Char} (h : t.At before rest) :
    (Scanned.mk t.piece (t.text.length - 1) t.complaints).Fits t.text rest := by
  obtain ⟨c, tail, htext, hfirst⟩ := h
  have hreads := Scanned.first_reads (Source.position before) c (tail ++ rest)
  rw [hfirst] at hreads
  obtain ⟨tail', rest', happend, hlength, hfits⟩ := hreads
  obtain ⟨rfl, rfl⟩ := List.append_inj happend hlength.symm
  rw [htext]
  exact hfits

theorem At.newline_not_mem {t : Tile} {before rest : List Char} (h : t.At before rest)
    {kind : TokenKind} (hkind : t.piece = .token kind) : '\n' ∉ t.text :=
  h.fits.line kind hkind

theorem At.writes {t : Tile} {before rest : List Char} (h : t.At before rest)
    (hclean : t.complaints = []) : t.piece.Writes t.text :=
  h.fits.written hclean

theorem At.breaks {t : Tile} {before rest : List Char} (h : t.At before rest)
    (hblamed : t.complaints ≠ []) : t.piece.Breaks t.text rest :=
  h.fits.broken hblamed

/-- The token of a tile covers the characters of the tile, from the first to the last. -/
def token? (before : List Char) (t : Tile) : Option Token :=
  match t.piece with
  | .token kind =>
    some ⟨kind, ⟨Source.position before, Source.position (before ++ t.text.dropLast)⟩⟩
  | _ => none

theorem At.token?_eq {t : Tile} {before rest : List Char} (h : t.At before rest)
    {kind : TokenKind} (hkind : t.piece = .token kind) :
    t.token? before =
      some ⟨kind, Scanned.onLine (Source.position before) (t.text.length - 1)⟩ := by
  have hline : '\n' ∉ t.text.dropLast :=
    fun hmem => h.newline_not_mem hkind (List.dropLast_subset _ hmem)
  simp only [token?, hkind, Scanned.onLine, Source.position_append_of_line before hline,
    List.length_dropLast]

/-- The tokens of tiles that lie side by side behind `before`. -/
def tokens (before : List Char) : List Tile → List Token
  | [] => []
  | t :: rest => (t.token? before).toList ++ tokens (before ++ t.text) rest

end Tile

namespace Lexed

/-- Behind `before`, with `count` complaints made, the text is cut into tiles, and reading stops
before the rest of it. -/
inductive Cut : List Char → Nat → List Char → List Tile → List Char → Prop where
  | ended (before : List Char) (count : Nat) : Cut before count [] [] []
  | full {before : List Char} {count : Nat} {c : Char} {rest : List Char}
    (hfull : maxErrors ≤ count)
    (hpiece : (Scanned.first (Source.position before) c rest).piece ≠ .trivia) :
    Cut before count (c :: rest) [] (c :: rest)
  | tile {before : List Char} {count : Nat} {t : Tile} {rest : List Char} {tiles : List Tile}
    {unread : List Char} (htile : t.At before rest) (hroom : t.piece ≠ .trivia → count < maxErrors)
    (hrest : Cut (before ++ t.text) (count + t.complaints.length) rest tiles unread) :
    Cut before count (t.text ++ rest) (t :: tiles) unread

/-- Every text is cut: the piece at its front is shorter than the text. -/
theorem exists_cut (before : List Char) (count : Nat) (source : List Char) :
    ∃ tiles unread, Cut before count source tiles unread := by
  match source with
  | [] => exact ⟨[], [], .ended before count⟩
  | c :: rest =>
    by_cases hroom : (Scanned.first (Source.position before) c rest).piece ≠ .trivia →
        count < maxErrors
    · obtain ⟨tail, rest', rfl, hlength, -⟩ := Scanned.first_reads (Source.position before) c rest
      let t : Tile := ⟨(Scanned.first (Source.position before) c (tail ++ rest')).piece, c :: tail,
        (Scanned.first (Source.position before) c (tail ++ rest')).complaints⟩
      have htile : t.At before rest' := ⟨c, tail, rfl, by rw [hlength]⟩
      obtain ⟨tiles, unread, hrest⟩ :=
        exists_cut (before ++ t.text) (count + t.complaints.length) rest'
      exact ⟨t :: tiles, unread, .tile htile hroom hrest⟩
    · obtain ⟨hpiece, hfull⟩ := Classical.not_imp.1 hroom
      exact ⟨[], c :: rest, .full (by omega) hpiece⟩
termination_by source.length

/-- What a text is read as is what its tiles are. -/
theorem Cut.readFrom_eq {before : List Char} {count : Nat} {source : List Char}
    {tiles : List Tile} {unread : List Char} (h : Cut before count source tiles unread) :
    readFrom (Source.position before) count source 0 =
      ⟨Tile.tokens before tiles ++
          [⟨.endOfFile, .point (Source.position (before ++ tiles.flatMap Tile.text))⟩],
        tiles.flatMap Tile.complaints⟩ := by
  induction h with
  | ended before count => simp [readFrom, stop, Tile.tokens]
  | @full before count c rest hfull hpiece =>
    cases hscanned : (Scanned.first (Source.position before) c rest).piece with
    | trivia => exact absurd hscanned hpiece
    | token kind => simp [readFrom, hscanned, hfull, stop, Tile.tokens]
    | stray => simp [readFrom, hscanned, hfull, stop, Tile.tokens]
  | @tile before count t rest tiles unread htile hroom hrest ih =>
    obtain ⟨c, tail, htext, hfirst⟩ := id htile
    -- The characters behind the first one of the piece are skipped one by one.
    have hnext : readFrom ((Source.position before).advance c) (count + t.complaints.length)
        (tail ++ rest) tail.length =
          readFrom (Source.position (before ++ t.text)) (count + t.complaints.length) rest 0 := by
      rw [readFrom_skip, Source.position_append, htext]
      rfl
    have hread : readFrom (Source.position before) count (t.text ++ rest) 0 =
        prepend (t.token? before).toList t.complaints
          (readFrom (Source.position (before ++ t.text)) (count + t.complaints.length) rest 0) := by
      rw [htext, List.cons_append, readFrom, hfirst]
      dsimp only
      rw [hnext]
      cases hpiece : t.piece with
      | trivia => simp [Tile.token?, hpiece, htext]
      | token kind =>
        have hcount : ¬ maxErrors ≤ count := Nat.not_le.2 (hroom (by simp [hpiece]))
        simp [htile.token?_eq hpiece, hcount, htext]
      | stray =>
        have hcount : ¬ maxErrors ≤ count := Nat.not_le.2 (hroom (by simp [hpiece]))
        simp [Tile.token?, hpiece, hcount, htext]
    rw [hread, ih]
    simp [prepend, Tile.tokens]

section Cut

variable {before source unread : List Char} {count : Nat} {tiles : List Tile}

theorem Cut.texts_append (h : Cut before count source tiles unread) :
    tiles.flatMap Tile.text ++ unread = source := by
  induction h with
  | ended => rfl
  | full => rfl
  | tile htile hroom hrest ih => rw [List.flatMap_cons, List.append_assoc, ih]

theorem Cut.full_of_unread (h : Cut before count source tiles unread) (hunread : unread ≠ []) :
    maxErrors ≤ count + (tiles.flatMap Tile.complaints).length := by
  induction h with
  | ended => exact absurd rfl hunread
  | full hfull => exact Nat.le_add_right_of_le hfull
  | tile htile hroom hrest ih =>
    have := ih hunread
    rw [List.flatMap_cons, List.length_append]
    omega

/-- What holds of every tile that a text can go on with holds of the tiles of a text. -/
theorem Cut.forall_tiles {q : Tile → Prop} (h : Cut before count source tiles unread)
    (hq : ∀ t before rest, t.At before rest → q t) : ∀ t ∈ tiles, q t := by
  induction h with
  | ended => simp
  | full => simp
  | @tile before count t rest tiles unread htile hroom hrest ih =>
    exact List.forall_mem_cons.2 ⟨hq t before rest htile, ih⟩

/-- Every tile is what the text goes on with where the tile stands. -/
theorem Cut.tile_at (h : Cut before count source tiles unread) {left right : List Tile} {t : Tile}
    (htiles : tiles = left ++ t :: right) :
    t.At (before ++ left.flatMap Tile.text) (right.flatMap Tile.text ++ unread) := by
  induction h generalizing left with
  | ended => simp at htiles
  | full => simp at htiles
  | tile htile hroom hrest ih =>
    cases left with
    | nil =>
      obtain ⟨rfl, rfl⟩ := List.cons.inj htiles
      rwa [List.flatMap_nil, List.append_nil, hrest.texts_append]
    | cons first left =>
      obtain ⟨rfl, hbehind⟩ := List.cons.inj htiles
      rw [List.flatMap_cons, ← List.append_assoc]
      exact ih hbehind

end Cut

end Lexed

/-- The tokens lie side by side: each ends before the next one begins. -/
structure Token.Apart (tokens : List Token) : Prop where
  each : ∀ t ∈ tokens, t.span.start ≤ t.span.stop
  next : tokens.Pairwise fun s t => s.span.stop < t.span.start

namespace Token.Apart

theorem of_sublist {tokens some : List Token} (h : Apart tokens) (hsome : some.Sublist tokens) :
    Apart some :=
  ⟨fun t ht => h.each t (hsome.subset ht), h.next.sublist hsome⟩

/-- No token begins before the first one. -/
theorem start_le {t : Token} {rest : List Token} (h : Apart (t :: rest)) :
    ∀ u ∈ t :: rest, t.span.start ≤ u.span.start := by
  intro u hu
  rcases List.mem_cons.1 hu with rfl | hu
  · exact Position.le_refl _
  · exact Position.le_trans (h.each t List.mem_cons_self)
      (Position.le_of_lt ((List.pairwise_cons.1 h.next).1 u hu))

/-- No token ends behind the last one. -/
theorem le_stop {t : Token} {before : List Token} (h : Apart (before ++ [t])) :
    ∀ u ∈ before ++ [t], u.span.stop ≤ t.span.stop := by
  intro u hu
  rcases List.mem_append.1 hu with hu | hu
  · exact Position.le_trans
      (Position.le_of_lt ((List.pairwise_append.1 h.next).2.2 u hu t List.mem_cons_self))
      (h.each t (by simp))
  · rw [List.mem_singleton.1 hu]
    exact Position.le_refl _

end Token.Apart

namespace Tile

theorem eq_of_token? {t : Tile} {before : List Char} {token : Token}
    (h : t.token? before = some token) :
    t.piece = .token token.kind ∧
      token.span = ⟨Source.position before, Source.position (before ++ t.text.dropLast)⟩ := by
  unfold token? at h
  split at h
  · obtain rfl := Option.some.inj h
    exact ⟨‹_›, rfl⟩
  · cases h

/-- Every token is the token of a tile, behind the tiles to the left of it. -/
theorem exists_tile_of_mem_tokens {before : List Char} {tiles : List Tile} {token : Token}
    (h : token ∈ tokens before tiles) :
    ∃ left t right, tiles = left ++ t :: right ∧
      t.token? (before ++ left.flatMap text) = some token := by
  induction tiles generalizing before with
  | nil => simp [tokens] at h
  | cons t rest ih =>
    rcases List.mem_append.1 h with h | h
    · exact ⟨[], t, rest, rfl, by simpa using h⟩
    · obtain ⟨left, t', right, rfl, htoken⟩ := ih h
      exact ⟨t :: left, t', right, rfl, by simpa using htoken⟩

/-- The tokens of tiles lie between the places before and behind the tiles. -/
theorem mem_tokens {before : List Char} {tiles : List Tile} (htext : ∀ t ∈ tiles, t.text ≠ [])
    {token : Token} (h : token ∈ tokens before tiles) :
    Source.position before ≤ token.span.start ∧ token.span.start ≤ token.span.stop ∧
      token.span.stop < Source.position (before ++ tiles.flatMap text) := by
  obtain ⟨left, t, right, rfl, htoken⟩ := exists_tile_of_mem_tokens h
  obtain ⟨-, hspan⟩ := eq_of_token? htoken
  rw [hspan]
  refine ⟨Source.position_le_append _ _, Source.position_le_append _ _, ?_⟩
  have hbehind : before ++ (left ++ t :: right).flatMap text =
      before ++ left.flatMap text ++ t.text ++ right.flatMap text := by simp
  rw [hbehind]
  exact Position.lt_of_lt_of_le (Source.position_dropLast_lt _ (htext t (by simp)))
    (Source.position_le_append _ _)

theorem pairwise_tokens {before : List Char} {tiles : List Tile}
    (htext : ∀ t ∈ tiles, t.text ≠ []) :
    (tokens before tiles).Pairwise fun s t => s.span.stop < t.span.start := by
  induction tiles generalizing before with
  | nil => exact .nil
  | cons t rest ih =>
    obtain ⟨ht, hrest⟩ := List.forall_mem_cons.1 htext
    rw [tokens, List.pairwise_append]
    refine ⟨?_, ih hrest, fun first hfirst token htoken => ?_⟩
    · cases t.token? before <;> simp
    · -- A token ends with the last character of its tile, which is before what comes behind it.
      obtain ⟨-, hspan⟩ := eq_of_token? (Option.mem_toList.1 hfirst)
      rw [hspan]
      exact Position.lt_of_lt_of_le (Source.position_dropLast_lt before ht)
        (mem_tokens hrest htoken).1

end Tile

namespace Lexed.Cut

variable {source unread : List Char} {tiles : List Tile}

theorem text_ne_nil {before : List Char} {count : Nat}
    (h : Cut before count source tiles unread) : ∀ t ∈ tiles, t.text ≠ [] :=
  h.forall_tiles fun _ _ _ ht => ht.text_ne_nil

/-- A text and its tiles, from the beginning. -/
theorem lex_eq (h : Cut [] 0 source tiles unread) :
    lex source = ⟨Tile.tokens [] tiles ++
        [⟨.endOfFile, .point (Source.position (tiles.flatMap Tile.text))⟩],
      tiles.flatMap Tile.complaints⟩ :=
  h.readFrom_eq

/-- Without complaints, every tile is a spelling of what it is. -/
theorem writes (h : Cut [] 0 source tiles unread) (hclean : (lex source).complaints = []) :
    ∀ t ∈ tiles, t.piece.Writes t.text := by
  intro t ht
  have htile := h.forall_tiles (q := fun t => t.complaints = [] → t.piece.Writes t.text)
    (fun _ _ _ ht => ht.writes) t ht
  rw [h.lex_eq] at hclean
  exact htile (List.flatMap_eq_nil_iff.1 hclean t ht)

/-- A token stays on the line on which it begins. -/
theorem stop_line {before : List Char} {count : Nat} (h : Cut before count source tiles unread)
    {token : Token} (htoken : token ∈ Tile.tokens before tiles) :
    token.span.stop.line = token.span.start.line := by
  obtain ⟨left, t, right, rfl, htile⟩ := Tile.exists_tile_of_mem_tokens htoken
  obtain ⟨hpiece, hspan⟩ := Tile.eq_of_token? htile
  have hline : '\n' ∉ t.text.dropLast := by
    have hnewline := h.forall_tiles (q := fun t => ∀ kind, t.piece = .token kind → '\n' ∉ t.text)
      (fun _ _ _ ht _ => ht.newline_not_mem) t (by simp) _ hpiece
    exact fun hmem => hnewline (List.dropLast_subset _ hmem)
  rw [hspan, Source.position_append_of_line _ hline]

end Lexed.Cut

theorem lex_tokens_apart (source : List Char) : Token.Apart (lex source).tokens := by
  obtain ⟨tiles, unread, h⟩ := Lexed.exists_cut [] 0 source
  rw [h.lex_eq]
  refine ⟨fun t ht => ?_, ?_⟩
  · rcases List.mem_append.1 ht with ht | ht
    · exact (Tile.mem_tokens h.text_ne_nil ht).2.1
    · obtain rfl := List.mem_singleton.1 ht
      exact Position.le_refl _
  · rw [List.pairwise_append]
    refine ⟨Tile.pairwise_tokens h.text_ne_nil, List.pairwise_singleton _ _,
      fun t ht last hlast => ?_⟩
    obtain rfl := List.mem_singleton.1 hlast
    exact (Tile.mem_tokens h.text_ne_nil ht).2.2

/-- A text is its tiles, one after the other, up to the place where reading stops, and it is read to
its end unless there are too many complaints. Each tile is what the lexer finds at the front of the text
from there on. In any text, a tile that there is nothing to say about is a blank, a closed comment, or a
token in one of its spellings, and any other tile is something broken; when there are no complaints at
all, no tile is. A token covers its tile from the first character to the last, the end of file is the
place where reading stops, and every token ends before the next one begins. -/
theorem lex_tiles (source : List Char) :
    ∃ (tiles : List Tile) (unread : List Char),
      Lexed.Cut [] 0 source tiles unread ∧
      tiles.flatMap Tile.text ++ unread = source ∧
      (lex source).tokens = Tile.tokens [] tiles ++
        [⟨.endOfFile, .point (Source.position (tiles.flatMap Tile.text))⟩] ∧
      (lex source).complaints = tiles.flatMap Tile.complaints ∧
      (unread ≠ [] → maxErrors ≤ (lex source).complaints.length) ∧
      ((lex source).complaints = [] → unread = [] ∧ ∀ t ∈ tiles, t.piece.Writes t.text) ∧
      (∀ left t right, tiles = left ++ t :: right →
        (t.complaints = [] → t.piece.Writes t.text) ∧
          (t.complaints ≠ [] → t.piece.Breaks t.text (right.flatMap Tile.text ++ unread))) ∧
      (∀ t ∈ tiles, t.text ≠ []) ∧
      (∀ token ∈ (lex source).tokens, token.span.stop.line = token.span.start.line) ∧
      (lex source).tokens.Pairwise fun s t => s.span.stop < t.span.start := by
  obtain ⟨tiles, unread, h⟩ := Lexed.exists_cut [] 0 source
  have htokens := congrArg Lexed.tokens h.lex_eq
  have hcomplaints := congrArg Lexed.complaints h.lex_eq
  dsimp only at htokens hcomplaints
  have hfull : unread ≠ [] → maxErrors ≤ (lex source).complaints.length := by
    intro hunread
    have := h.full_of_unread hunread
    rwa [Nat.zero_add, ← hcomplaints] at this
  refine ⟨tiles, unread, h, h.texts_append, htokens, hcomplaints, hfull,
    fun hclean => ⟨?_, h.writes hclean⟩,
    fun left t right htiles => ⟨(h.tile_at htiles).writes, (h.tile_at htiles).breaks⟩,
    h.text_ne_nil, fun token htoken => ?_, (lex_tokens_apart source).next⟩
  · by_cases hunread : unread = []
    · exact hunread
    · have := hfull hunread
      rw [hclean] at this
      exact absurd this (by decide)
  · rw [htokens] at htoken
    rcases List.mem_append.1 htoken with htoken | htoken
    · exact h.stop_line htoken
    · rw [List.mem_singleton.1 htoken]
      rfl

end ScriptEngine
