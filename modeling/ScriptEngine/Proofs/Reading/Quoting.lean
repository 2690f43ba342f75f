import ScriptEngine.Proofs.Reading.ErrorBudget
import ScriptEngine.Proofs.Reading.Grounds

/-!
What is quoted of a text. A report about characters quotes the characters that it is about, which are
those that its span covers. Only an escape that stands for nothing is not always quoted as it is
written: a character beyond ASCII is named after the first of its bytes. The text of a string is what
stands between its quotes, with the escapes resolved.
-/
namespace ScriptEngine

namespace Source

/-- The characters in the span, of a text that begins at `p`. -/
def coveredFrom (p : Position) (span : Span) : List Char → List Char
  | [] => []
  | c :: rest =>
    if span.start ≤ p ∧ p ≤ span.stop then c :: coveredFrom (p.advance c) span rest
    else coveredFrom (p.advance c) span rest

/-- The characters of a text that a span covers. -/
def covered (source : List Char) (span : Span) : List Char := coveredFrom ⟨1, 1⟩ span source

theorem coveredFrom_append (p : Position) (span : Span) (a b : List Char) :
    coveredFrom p span (a ++ b) = coveredFrom p span a ++ coveredFrom (p.after a) span b := by
  induction a generalizing p with
  | nil => rfl
  | cons c a ih =>
    have hafter : p.after (c :: a) = (p.advance c).after a := rfl
    rw [List.cons_append, coveredFrom, coveredFrom, ih, hafter]
    split <;> rfl

theorem coveredFrom_before {p : Position} {span : Span} {text : List Char}
    (h : p.after text ≤ span.start) : coveredFrom p span text = [] := by
  induction text generalizing p with
  | nil => rfl
  | cons c text ih =>
    have hafter : (p.advance c).after text ≤ span.start := h
    have hp : p < span.start := Position.lt_of_lt_of_le (p.lt_advance c)
      (Position.le_trans (Position.le_after _ text) hafter)
    have houtside : ¬ (span.start ≤ p ∧ p ≤ span.stop) := fun hinside => by
      simp only [Position.le_iff, Position.lt_iff] at hinside hp
      omega
    rw [coveredFrom, if_neg houtside, ih hafter]

theorem coveredFrom_behind {p : Position} {span : Span} (h : span.stop < p) (text : List Char) :
    coveredFrom p span text = [] := by
  induction text generalizing p with
  | nil => rfl
  | cons c text ih =>
    have houtside : ¬ (span.start ≤ p ∧ p ≤ span.stop) := fun hinside => by
      simp only [Position.le_iff, Position.lt_iff] at hinside h
      omega
    rw [coveredFrom, if_neg houtside,
      ih (Position.lt_of_lt_of_le h (Position.le_of_lt (p.lt_advance c)))]

theorem coveredFrom_within {p : Position} {span : Span} {text : List Char} (hstart : span.start ≤ p)
    (hstop : p.after text.dropLast ≤ span.stop) : coveredFrom p span text = text := by
  induction text generalizing p with
  | nil => rfl
  | cons c text ih =>
    have hinside : span.start ≤ p ∧ p ≤ span.stop :=
      ⟨hstart, Position.le_trans (Position.le_after p _) hstop⟩
    have hnext : span.start ≤ p.advance c :=
      Position.le_trans hstart (Position.le_of_lt (p.lt_advance c))
    rw [coveredFrom, if_pos hinside]
    cases text with
    | nil => rfl
    | cons d text => rw [ih hnext hstop]

/-- A span from the first character of a piece to its last covers the piece. -/
theorem covered_eq {source before text rest : List Char} (h : source = before ++ (text ++ rest))
    (hne : text ≠ []) :
    covered source ⟨position before, position (before ++ text.dropLast)⟩ = text := by
  have hposition : ∀ text, position text = (⟨1, 1⟩ : Position).after text := position_append []
  let span : Span := ⟨position before, position (before ++ text.dropLast)⟩
  have hbefore : coveredFrom ⟨1, 1⟩ span before = [] :=
    coveredFrom_before (by rw [← hposition]; exact Position.le_refl _)
  have hwithin : coveredFrom (position before) span text = text :=
    coveredFrom_within (Position.le_refl _) (by rw [← position_append]; exact Position.le_refl _)
  have hbehind : coveredFrom (position (before ++ text)) span rest = [] :=
    coveredFrom_behind (position_dropLast_lt before hne) rest
  rw [covered, h, coveredFrom_append, coveredFrom_append, ← hposition, ← position_append, hbefore,
    hwithin, hbehind, List.nil_append, List.append_nil]

end Source

/-! Messages -/

/-- What a message says before and after the part of the text that it quotes, if it quotes any. -/
def SourceFault.around? : SourceFault → Option (String × String)
  | unexpectedCharacter _ => some ("Unexpected character '", "'")
  | invalidEscape _ => some ("Invalid escape sequence '", "'")
  | integerOutOfRange _ => some ("Integer literal ", " is out of range")
  | _ => none

/-- If the message quotes a part of the text, it is this part. -/
def Complaint.Quotes (x : Complaint) (text : List Char) : Prop :=
  ∀ opening closing, x.fault.around? = some (opening, closing) →
    x.fault.message = opening ++ String.ofList text ++ closing

theorem Complaint.Quotes.of_message {x : Complaint} {text : List Char} {opening closing : String}
    (haround : x.fault.around? = some (opening, closing))
    (hmessage : x.fault.message = opening ++ String.ofList text ++ closing) : x.Quotes text := by
  intro opening' closing' haround'
  obtain ⟨rfl, rfl⟩ : opening = opening' ∧ closing = closing' := by
    simpa using haround.symm.trans haround'
  exact hmessage

theorem Char.toString_eq_ofList (c : Char) : c.toString = String.ofList [c] :=
  String.singleton_eq_ofList

theorem Quotation.quotedAs_of_lt {c : Char} (h : c.toNat < 0x80) : quotedAs c = c := by
  simp [quotedAs, h]

/-- The message about an escape quotes the backslash and the character that stands for it. -/
theorem Complaint.quotes_invalidEscape (quoted : Char) (span : Span) :
    Quotes ⟨.invalidEscape quoted, span⟩ ['\\', quoted] := by
  have hbackslash : "Invalid escape sequence '\\" =
      "Invalid escape sequence '" ++ String.ofList ['\\'] := by
    decide
  have hsplit : String.ofList (['\\'] ++ [quoted]) =
      String.ofList ['\\'] ++ String.ofList [quoted] := String.ofList_append
  rw [List.singleton_append] at hsplit
  refine .of_message rfl ?_
  unfold SourceFault.message
  simp only [Char.toString_eq_ofList, hbackslash, hsplit, String.append_assoc]

namespace Complaint.Grounded

variable {source : List Char} {x : Complaint}

/-- A complaint quotes what it is about, but for the character of an escape. -/
theorem quotes (h : x.Grounded source) : x.Quotes (Source.covered source x.span) ∨
    ∃ c, 0x80 ≤ c.toNat ∧ Source.covered source x.span = ['\\', c] ∧
      x.Quotes ['\\', Quotation.quotedAs c] := by
  cases h with
  | @stray before rest c h hc =>
    have hsource : source = before ++ ([c] ++ rest) := h
    have hcovered := Source.covered_eq hsource (by simp)
    rw [List.dropLast_singleton, List.append_nil] at hcovered
    left
    rw [Span.point, hcovered]
    refine .of_message rfl ?_
    unfold SourceFault.message
    simp only [Char.toString_eq_ofList]
  | @escape before rest c h hnewline hc =>
    have hsource : source = before ++ (['\\', c] ++ rest) := h
    have hcovered : Source.covered source ⟨_, Source.position (before ++ ['\\'])⟩ = ['\\', c] :=
      Source.covered_eq hsource (by simp)
    have hquotes := Complaint.quotes_invalidEscape (Quotation.quotedAs c)
      ⟨Source.position before, Source.position (before ++ ['\\'])⟩
    by_cases hascii : c.toNat < 0x80
    · left
      rw [Quotation.quotedAs_of_lt hascii] at hquotes ⊢
      rwa [hcovered]
    · exact .inr ⟨c, Nat.le_of_not_lt hascii, hcovered, hquotes⟩
  | @integer before rest digits h =>
    have hcovered := Source.covered_eq h digits.nonempty
    left
    rw [hcovered]
    exact .of_message rfl rfl
  | string => exact .inl fun _ _ haround => by simp [SourceFault.around?] at haround
  | comment => exact .inl fun _ _ haround => by simp [SourceFault.around?] at haround

end Complaint.Grounded

/-! Strings -/

/-- A piece that is a string was read from its quote. -/
theorem Scanned.quotation_of_first {p : Position} {c : Char} {rest : List Char} {text : String}
    (h : (first p c rest).piece = .token (.string text)) :
    c = '"' ∧ (first p c rest).extra = (Quotation.scan p (p.advance '"') rest).length ∧
      (first p c rest).complaints = (Quotation.scan p (p.advance '"') rest).complaints ∧
      text = String.ofList (Quotation.scan p (p.advance '"') rest).text := by
  revert h
  apply first_cases (motive := fun scanned => scanned.piece = .token (.string text) → c = '"' ∧
    scanned.extra = (Quotation.scan p (p.advance '"') rest).length ∧
    scanned.complaints = (Quotation.scan p (p.advance '"') rest).complaints ∧
    text = String.ofList (Quotation.scan p (p.advance '"') rest).text) p c rest
  case quotation =>
    rintro rfl literal h
    obtain rfl : String.ofList literal.text = text := by simpa using h
    exact ⟨rfl, rfl, rfl, rfl⟩
  case number =>
    intro _ h
    unfold number at h
    dsimp only at h
    split at h
    · split at h <;> simp at h
    · simp at h
  case name =>
    intro _ tail h
    simp only [word, Piece.token.injEq] at h
    split at h <;> simp at h
  all_goals simp

/-- The tile of a string is a quote and what was read behind it. -/
theorem Tile.At.quotation {t : Tile} {before rest : List Char} (h : t.At before rest) {text : String}
    (hpiece : t.piece = .token (.string text)) :
    ∃ tail literal, t.text = '"' :: tail ∧
      Quotation.scan (Source.position before) ((Source.position before).advance '"')
        (tail ++ rest) = literal ∧
      tail.length = literal.length ∧ t.complaints = literal.complaints ∧
      text = String.ofList literal.text := by
  obtain ⟨c, tail, htext, hfirst⟩ := h
  have hstring : (Scanned.first (Source.position before) c (tail ++ rest)).piece =
      .token (.string text) := by rw [hfirst, hpiece]
  obtain ⟨rfl, hextra, hcomplaints, hvalue⟩ := Scanned.quotation_of_first hstring
  rw [hfirst] at hextra hcomplaints
  exact ⟨tail, _, htext, rfl, hextra, hcomplaints, hvalue⟩

/-- The token of a string whose escapes all stand for something is what is written between quotes, unless
there is a complaint that the string does not end. -/
theorem Tile.At.string {t : Tile} {before rest : List Char} (h : t.At before rest) {token : Token}
    (htoken : t.token? before = some token) {text : String} (hkind : token.kind = .string text)
    (hclean : ∀ x ∈ t.complaints, token.Holds x → ∀ q, x.fault ≠ .invalidEscape q) :
    (∃ parts : List StringPart, t.text = '"' :: (parts.flatMap StringPart.text ++ ['"']) ∧
        text = String.ofList (parts.map StringPart.char)) ∨
      ∃ x ∈ t.complaints, x.fault = .unterminatedString ∧ x.span.start = token.span.start := by
  obtain ⟨hpiece, -⟩ := Tile.eq_of_token? htoken
  have htoken := Option.some.inj (htoken.symm.trans (h.token?_eq hpiece))
  rw [hkind] at hpiece
  obtain ⟨tail, literal, htext, rfl, hlength, hcomplaints, rfl⟩ := h.quotation hpiece
  cases hmade : t.complaints with
  | nil =>
    obtain ⟨lexeme, rest', happend, hlexeme, -, hparts, -⟩ :=
      Quotation.exists_lexeme (Source.position before) ((Source.position before).advance '"')
        (tail ++ rest)
    obtain ⟨rfl, -⟩ := List.append_inj happend (hlength.trans hlexeme.symm)
    obtain ⟨parts, htail, hvalue⟩ := hparts (hcomplaints ▸ hmade)
    exact .inl ⟨parts, by rw [htext, htail], by rw [hvalue]⟩
  | cons x more =>
    have hx : x ∈ t.complaints := by simp [hmade]
    have hextra : t.text.length - 1 = tail.length := by simp [htext]
    have hholds : token.Holds x := by
      have := Quotation.holds_of_mem_complaints (Nat.le_add_right 1 _) token.kind (tail ++ rest)
        (p := Source.position before) x (hcomplaints ▸ hx)
      rwa [← hlength, ← hextra, ← htoken] at this
    right
    rcases Quotation.grounds _ _ _ x (hcomplaints ▸ hx) with ⟨stop, rfl⟩ | ⟨_, _, _, -, -, -, rfl⟩
    · exact ⟨_, List.mem_cons_self, rfl, by rw [htoken]; rfl⟩
    · exact absurd rfl (hclean _ hx hholds _)

/-- A report of the lexer that quotes the text quotes what its span covers, except that in an escape that
stands for nothing, a character beyond ASCII is quoted as the one that is numbered by its first byte. A
string in which every escape stands for something is read as what is written between its quotes, with
the escapes resolved and every other character as it is, if it ends. -/
theorem lex_quotes (source : List Char) :
    (∀ x ∈ (lex source).complaints, x.Quotes (Source.covered source x.span) ∨
      ∃ c, 0x80 ≤ c.toNat ∧ Source.covered source x.span = ['\\', c] ∧
        x.Quotes ['\\', Quotation.quotedAs c]) ∧
    ∀ token ∈ (lex source).tokens, ∀ text, token.kind = .string text →
      (∀ x ∈ (lex source).complaints, token.Holds x → ∀ q, x.fault ≠ .invalidEscape q) →
        (∃ parts : List StringPart,
          Source.covered source token.span = '"' :: (parts.flatMap StringPart.text ++ ['"']) ∧
            text = String.ofList (parts.map StringPart.char)) ∨
        ∃ x ∈ (lex source).complaints,
          x.fault = .unterminatedString ∧ x.span.start = token.span.start := by
  refine ⟨fun x hx => (lex_grounded source x hx).quotes, ?_⟩
  obtain ⟨tiles, unread, h⟩ := Lexed.exists_cut [] 0 source
  rw [h.lex_eq]
  intro token htoken text hkind hclean
  have htoken : token ∈ Tile.tokens [] tiles := by
    refine (List.mem_append.1 htoken).resolve_right fun hend => ?_
    rw [List.mem_singleton.1 hend] at hkind
    cases hkind
  obtain ⟨skipped, t, rest, ht, hsource, hat, htile⟩ := h.exists_tile_of_mem htoken
  have hmade : ∀ x ∈ t.complaints, x ∈ tiles.flatMap Tile.complaints :=
    fun x hx => List.mem_flatMap.2 ⟨t, ht, hx⟩
  obtain ⟨-, hspan⟩ := Tile.eq_of_token? htile
  rw [List.nil_append] at hat htile hspan
  have hcovered : Source.covered source token.span = t.text := by
    rw [hspan]
    exact Source.covered_eq hsource hat.text_ne_nil
  rw [hcovered]
  refine (hat.string htile hkind fun x hx => hclean x (hmade x hx)).imp_right ?_
  rintro ⟨x, hx, hopen⟩
  exact ⟨x, hmade x hx, hopen⟩

/-- A string with an escape that stands for nothing, of a letter with an accent. -/
def accentEscape : List Char := ['"', '\\', 'é', '"']

theorem not_lex_quotes : ¬ ∀ x ∈ (lex accentEscape).complaints,
    x.Quotes (Source.covered accentEscape x.span) := by
  intro h
  have hcomplaints : (lex accentEscape).complaints =
      [⟨.invalidEscape 'Ã', ⟨⟨1, 2⟩, ⟨1, 3⟩⟩⟩] := by
    decide +kernel
  have hcovered : Source.covered accentEscape ⟨⟨1, 2⟩, ⟨1, 3⟩⟩ = ['\\', 'é'] := by
    decide +kernel
  have hquotes := h _ (by simp [hcomplaints]; rfl) _ _ rfl
  rw [hcovered] at hquotes
  exact absurd hquotes (by decide +kernel)

end ScriptEngine
