import ScriptEngine.Proofs.Reading.RoundTrip

/-!
What a piece of a text looks like. A piece that there is nothing to say about is a blank, a comment
that ends where it should, or a token in one of its spellings. So the spellings are all there is:
not only is every spelling read, but whatever is read is one. Any other piece is broken: a character
that begins nothing, a comment that does not end, a number that is too large, or a string with an escape
that there is not, or without its closing quote.
-/
namespace ScriptEngine

/-- A blank, or a comment that ends where it should. -/
inductive IsTrivia : List Char → Prop where
  | blank {c : Char} (h : c = ' ' ∨ c = '\t' ∨ c = '\r' ∨ c = '\n') : IsTrivia [c]
  | lineComment {body : List Char} (h : '\n' ∉ body) : IsTrivia ('/' :: '/' :: body)
  | blockComment {body : List Char} (h : ¬ ['*', '/'] <:+: body) :
    IsTrivia ('/' :: '*' :: (body ++ ['*', '/']))

/-- The text is how the piece is written. A stray character is written by nobody. -/
def Piece.Writes : Piece → List Char → Prop
  | .trivia, text => IsTrivia text
  | .token kind, text => ∃ s : Spelling, s.text = text ∧ s.kind = kind
  | .stray, _ => False

/-- A part of a string as it stands in a text: as it should be, or as a backslash before a character that
cannot be escaped. -/
inductive QuotedPart where
  | right (part : StringPart)
  | wrong (c : Char) (hc : c ≠ '\n' ∧ ∀ e : StringEscape, e.mark ≠ c)

namespace QuotedPart

def text : QuotedPart → List Char
  | right part => part.text
  | wrong c _ => ['\\', c]

def char : QuotedPart → Char
  | right part => part.char
  | wrong c _ => c

def isRight : QuotedPart → Bool
  | right _ => true
  | wrong _ _ => false

end QuotedPart

/-- The line is over, or the text is. -/
def EndsLine (rest : List Char) : Prop := ∀ c ∈ rest.head?, c = '\n'

/-- No token begins with these characters, no trivia, and no string or comment that does not end. -/
structure StartsNothing (c : Char) (rest : List Char) : Prop where
  token : ∀ s : Spelling, ¬ s.text <+: c :: rest
  trivia : ∀ text, IsTrivia text → ¬ text <+: c :: rest
  quote : c ≠ '"'
  comment : ¬ ['/', '*'] <+: c :: rest

/-- The text, before the rest, is something broken that is read as the piece. -/
inductive Piece.Breaks : Piece → List Char → List Char → Prop where
  | stray {c : Char} {rest : List Char} (h : StartsNothing c rest) : Breaks .stray [c] rest
  | comment {body : List Char} (hopen : ¬ ['*', '/'] <:+: body) :
    Breaks .trivia ('/' :: '*' :: body) []
  | integer {digits : Digits} {rest : List Char} (hlarge : 2147483647 < digits.number)
    (hends : EndsDigits rest) : Breaks (.token (.integer 0)) digits.text rest
  | string {parts : List QuotedPart} {rest : List Char} (hwrong : ∃ part ∈ parts, !part.isRight) :
    Breaks (.token (.string (String.ofList (parts.map QuotedPart.char))))
      ('"' :: (parts.flatMap QuotedPart.text ++ ['"'])) rest
  | openString {parts : List QuotedPart} {ending rest : List Char}
    (hending : ending = [] ∨ ending = ['\\']) (hends : EndsLine rest) :
    Breaks (.token (.string (String.ofList (parts.map QuotedPart.char))))
      ('"' :: (parts.flatMap QuotedPart.text ++ ending)) rest

/-! Tokens stay on their line -/

theorem newline_not_mem_of_all {q : Char → Bool} (hq : q '\n' = false) {text : List Char}
    (h : ∀ c ∈ text, q c) : '\n' ∉ text :=
  fun hmem => by simp [h _ hmem] at hq

theorem Digits.newline_not_mem (d : Digits) : '\n' ∉ d.text :=
  newline_not_mem_of_all rfl d.digits

theorem ExponentSpelling.newline_not_mem (e : ExponentSpelling) : '\n' ∉ e.text := by
  obtain ⟨capital, minus?, digits⟩ := e
  rcases minus? with _ | _ | _ <;> cases capital <;>
    simp [text, mark, sign, digits.newline_not_mem]

theorem FloatSpelling.newline_not_mem (f : FloatSpelling) : '\n' ∉ f.text := by
  cases f with
  | pointed whole fraction exponent? =>
    cases exponent? <;>
      simp [text, whole.newline_not_mem, fraction.newline_not_mem, ExponentSpelling.newline_not_mem]
  | scaled whole e => simp [text, whole.newline_not_mem, e.newline_not_mem]

theorem Symbol.newline_not_mem (s : Symbol) : '\n' ∉ s.text.toList := by
  cases s <;> decide

/-! Numbers -/

namespace NumberLiteral

/-- The digits at the front of a text, when there are any. -/
def digits (text : List Char) (h : leadingDigits text ≠ []) : Digits :=
  ⟨leadingDigits text, h, List.all_eq_true.1 List.all_takeWhile⟩

theorem exists_leadingDigits_append (text : List Char) :
    ∃ rest, text = leadingDigits text ++ rest ∧ EndsDigits rest := by
  refine ⟨text.dropWhile Char.isDigit, List.takeWhile_append_dropWhile.symm, fun c hc => ?_⟩
  have h := List.head?_dropWhile_not Char.isDigit text
  rw [Option.mem_def.1 hc] at h
  simpa using h

/-- What can stand between the mark of an exponent and its digits. -/
theorem exists_sign {mark : Char} (hmark : mark = 'e' ∨ mark = 'E') (tail : List Char) :
    ∃ minus? text, (∀ digits, mark :: tail =
        (ExponentSpelling.mark ⟨mark = 'E', minus?, digits⟩) ::
          (ExponentSpelling.sign ⟨mark = 'E', minus?, digits⟩ ++ text)) ∧
      (leadingDigits text = [] → exponentOf (mark :: tail) = none) := by
  have hwritten : (if mark = 'E' then 'E' else 'e') = mark := by
    rcases hmark with rfl | rfl <;> rfl
  rcases tail with _ | ⟨c, tail⟩
  · exact ⟨none, [], fun _ => by simp [ExponentSpelling.mark, ExponentSpelling.sign, hwritten],
      fun _ => by simp [exponentOf, leadingDigits]⟩
  · by_cases hminus : c = '-'
    · exact ⟨some true, tail,
        fun _ => by simp [ExponentSpelling.mark, ExponentSpelling.sign, hwritten, hminus],
        fun h => by simp [exponentOf, hminus, h]⟩
    · by_cases hplus : c = '+'
      · exact ⟨some false, tail,
          fun _ => by simp [ExponentSpelling.mark, ExponentSpelling.sign, hwritten, hplus],
          fun h => by simp [exponentOf, hplus, h]⟩
      · exact ⟨none, c :: tail,
          fun _ => by simp [ExponentSpelling.mark, ExponentSpelling.sign, hwritten],
          fun h => by simp [exponentOf, hminus, hplus, h]⟩

/-- An exponent is read from where it is written. -/
theorem exists_exponent {text : List Char} {n : Int} {length : Nat}
    (h : exponentOf text = some (n, length)) :
    ∃ (e : ExponentSpelling) (rest : List Char),
      text = e.text ++ rest ∧ e.value = n ∧ e.text.length = length := by
  cases text with
  | nil => simp [exponentOf] at h
  | cons mark tail =>
    have hmark : mark = 'e' ∨ mark = 'E' :=
      Decidable.byContradiction fun hmark => by simp [exponentOf, hmark] at h
    obtain ⟨minus?, text, htail, hnone⟩ := exists_sign hmark tail
    have hdigits : leadingDigits text ≠ [] := fun hdigits => by simp [hnone hdigits] at h
    obtain ⟨rest, hrest, hends⟩ := exists_leadingDigits_append text
    let e : ExponentSpelling := ⟨mark = 'E', minus?, digits text hdigits⟩
    have htext : mark :: tail = e.text ++ rest := by
      rw [htail e.digits, ExponentSpelling.text, List.cons_append, List.append_assoc]
      exact congrArg _ (congrArg _ hrest)
    rw [htext, exponentOf_append e hends] at h
    obtain ⟨hvalue, hlength⟩ : e.value = n ∧ e.text.length = length := by simpa using h
    exact ⟨e, rest, htext, hvalue, hlength⟩

theorem fractionOf_ne_nil {text : List Char} (h : fractionOf text ≠ []) :
    ∃ (d : Digits) (rest : List Char),
      text = '.' :: (d.text ++ rest) ∧ d.text = fractionOf text := by
  unfold fractionOf at h ⊢
  split at h
  · rename_i tail
    obtain ⟨rest, hrest, -⟩ := exists_leadingDigits_append tail
    exact ⟨digits tail h, rest, congrArg _ hrest, rfl⟩
  · exact absurd rfl h

/-- A literal is read from where it is written: as a row of digits when it is whole, as a float
otherwise. -/
theorem exists_lexeme {c : Char} (tail : List Char) (hc : c.isDigit) :
    ∃ lexeme rest, c :: tail = lexeme ++ rest ∧ lexeme.length = (scan (c :: tail)).length ∧
      if (scan (c :: tail)).isWhole then
        ∃ d : Digits, d.text = lexeme ∧ (scan (c :: tail)).whole = lexeme ∧ EndsDigits rest
      else ∃ f : FloatSpelling, f.text = lexeme ∧
        (scan (c :: tail)).single = Single.ofDecimal f.decimal := by
  obtain ⟨rest, hrest, hends⟩ := exists_leadingDigits_append (c :: tail)
  let whole : Digits := digits (c :: tail) (by simp [leadingDigits, hc])
  have hrest : c :: tail = whole.text ++ rest := hrest
  have hdrop : (c :: tail).drop whole.text.length = rest := by rw [hrest, List.drop_left]
  have hwhole : leadingDigits (c :: tail) = whole.text := rfl
  by_cases hfraction : fractionOf rest = []
  · cases hexponent : exponentOf rest with
    | none =>
      have hscan : scan (c :: tail) = ⟨whole.text, [], none, whole.text.length⟩ := by
        simp [scan, hwhole, hdrop, hfraction, hexponent]
      rw [hscan, hrest]
      exact ⟨whole.text, rest, rfl, rfl, whole, rfl, rfl, hends⟩
    | some exponent =>
      obtain ⟨n, length⟩ := exponent
      have hscan : scan (c :: tail) =
          ⟨whole.text, [], some n, whole.text.length + length⟩ := by
        simp [scan, hwhole, hdrop, hfraction, hexponent]
      obtain ⟨e, rest', rfl, rfl, rfl⟩ := exists_exponent hexponent
      rw [hscan, hrest]
      refine ⟨(FloatSpelling.scaled whole e).text, rest', ?_, ?_, ?_⟩
      · simp [FloatSpelling.text]
      · simp [FloatSpelling.text]
      · exact ⟨.scaled whole e, rfl, by simp [single, FloatSpelling.decimal, value_text]⟩
  · obtain ⟨d, rest', hpoint, hd⟩ := fractionOf_ne_nil hfraction
    have hbehind : rest.drop (d.text.length + 1) = rest' := by simp [hpoint]
    cases hexponent : exponentOf rest' with
    | none =>
      have hscan : scan (c :: tail) =
          ⟨whole.text, d.text, none, whole.text.length + (d.text.length + 1)⟩ := by
        simp [scan, hwhole, hdrop, ← hd, d.nonempty, hbehind, hexponent]
      rw [hscan, hrest, hpoint]
      refine ⟨(FloatSpelling.pointed whole d none).text, rest', ?_, ?_, ?_⟩
      · simp [FloatSpelling.text]
      · simp [FloatSpelling.text]
      · rw [if_neg (by simp [isWhole, d.nonempty])]
        exact ⟨_, rfl, rfl⟩
    | some exponent =>
      obtain ⟨n, length⟩ := exponent
      have hscan : scan (c :: tail) =
          ⟨whole.text, d.text, some n, whole.text.length + (d.text.length + 1) + length⟩ := by
        simp [scan, hwhole, hdrop, ← hd, d.nonempty, hbehind, hexponent]
      obtain ⟨e, rest', rfl, rfl, rfl⟩ := exists_exponent hexponent
      rw [hscan, hrest, hpoint]
      refine ⟨(FloatSpelling.pointed whole d (some e)).text, rest', ?_, ?_, ?_⟩
      · simp [FloatSpelling.text]
      · simp [FloatSpelling.text, Nat.add_assoc, Nat.add_comm 1]
      · rw [if_neg (by simp [isWhole])]
        exact ⟨_, rfl, rfl⟩

end NumberLiteral

/-! Strings -/

namespace Quotation

theorem exists_escape {c value : Char} (h : escaped? c = some value) :
    ∃ e : StringEscape, e.mark = c ∧ e.char = value := by
  unfold escaped? at h
  split at h
  · cases h
    exact ⟨.quote, by simp_all [StringEscape.mark], rfl⟩
  split at h
  · cases h
    exact ⟨.backslash, by simp_all [StringEscape.mark], rfl⟩
  split at h
  · cases h
    exact ⟨.newline, by simp_all [StringEscape.mark], rfl⟩
  split at h
  · cases h
    exact ⟨.tab, by simp_all [StringEscape.mark], rfl⟩
  split at h
  · cases h
    exact ⟨.carriageReturn, by simp_all [StringEscape.mark], rfl⟩
  · simp at h

theorem mark_ne_of_escaped? {c : Char} (h : escaped? c = none) (e : StringEscape) : e.mark ≠ c := by
  rintro rfl
  rw [(escaped?_mark e).1] at h
  cases h

/-- How a literal ends: with its closing quote, or because the line ends. -/
inductive Ends : List Char → List Char → Prop where
  | closed (rest : List Char) : Ends ['"'] rest
  | broken {ending rest : List Char} (hending : ending = [] ∨ ending = ['\\'])
    (hends : EndsLine rest) : Ends ending rest

/-- A literal is read part by part. There is nothing to say about it when its parts are right and it is
closed. -/
theorem exists_parts (start p : Position) (text : List Char) :
    ∃ (parts : List QuotedPart) (ending rest : List Char),
      text = parts.flatMap QuotedPart.text ++ (ending ++ rest) ∧
      (parts.flatMap QuotedPart.text).length + ending.length = (scan start p text).length ∧
      (scan start p text).text = parts.map QuotedPart.char ∧ Ends ending rest ∧
      ((scan start p text).complaints = [] ↔ (∀ part ∈ parts, part.isRight) ∧ ending = ['"']) := by
  fun_induction scan start p text with
  | case1 p => exact ⟨[], [], [], rfl, rfl, rfl, .broken (.inl rfl) nofun, by simp [breakOff]⟩
  | case2 p =>
    refine ⟨[], ['\\'], [], rfl, rfl, rfl, .broken (.inr rfl) nofun, ?_⟩
    simp [extend, breakOff]
  | case3 p rest =>
    refine ⟨[], ['\\'], '\n' :: rest, rfl, rfl, rfl, .broken (.inr rfl) (by simp [EndsLine]), ?_⟩
    simp [extend, breakOff]
  | case4 p c rest hc next value hvalue ih =>
    obtain ⟨parts, ending, rest', rfl, hlength, htext, hends, hclean⟩ := ih
    obtain ⟨e, rfl, rfl⟩ := exists_escape hvalue
    refine ⟨.right (.escape e) :: parts, ending, rest', rfl, ?_, ?_, hends, ?_⟩
    · simp [extend, ← hlength, QuotedPart.text]
      omega
    · simp only [extend, htext]
      rfl
    · simpa [extend, QuotedPart.isRight] using hclean
  | case5 p c rest hc next hvalue ih =>
    obtain ⟨parts, ending, rest', rfl, hlength, htext, hends, -⟩ := ih
    refine ⟨.wrong c ⟨hc, mark_ne_of_escaped? hvalue⟩ :: parts, ending, rest', rfl, ?_, ?_, hends, ?_⟩
    · simp [extend, ← hlength, QuotedPart.text]
      omega
    · simp only [extend, htext]
      rfl
    · simp [extend, QuotedPart.isRight]
  | case6 p rest => exact ⟨[], ['"'], rest, rfl, rfl, rfl, .closed rest, by simp [close]⟩
  | case7 p rest =>
    exact ⟨[], [], '\n' :: rest, rfl, rfl, rfl, .broken (.inl rfl) (by simp [EndsLine]),
      by simp [breakOff]⟩
  | case8 p c rest hend hescape hquote hnewline ih =>
    have hbackslash : c ≠ '\\' := fun hc => by
      cases rest with
      | nil => exact hend hc rfl
      | cons d rest => exact hescape d rest hc rfl
    obtain ⟨parts, ending, rest', rfl, hlength, htext, hends, hclean⟩ := ih
    refine ⟨.right (.plain c ⟨hquote, hbackslash, hnewline⟩) :: parts, ending, rest', rfl, ?_, ?_, hends,
      ?_⟩
    · simp [extend, ← hlength, QuotedPart.text]
      omega
    · simp only [extend, htext]
      rfl
    · simpa [extend, QuotedPart.isRight] using hclean

theorem newline_not_mem_text (part : QuotedPart) : '\n' ∉ part.text := by
  cases part with
  | right part =>
    cases part with
    | plain c hc => simpa [QuotedPart.text] using Ne.symm hc.2.2
    | escape e => cases e <;> simp [QuotedPart.text, StringEscape.mark]
  | wrong c hc => simpa [QuotedPart.text] using Ne.symm hc.1

theorem Ends.newline_not_mem {ending rest : List Char} (h : Ends ending rest) : '\n' ∉ ending := by
  cases h with
  | closed => simp
  | broken hending => rcases hending with rfl | rfl <;> simp

theorem exists_stringParts {parts : List QuotedPart} (h : ∀ part ∈ parts, part.isRight) :
    ∃ right : List StringPart, parts = right.map .right := by
  induction parts with
  | nil => exact ⟨[], rfl⟩
  | cons part parts ih =>
    obtain ⟨hpart, hparts⟩ := List.forall_mem_cons.1 h
    obtain ⟨right, rfl⟩ := ih hparts
    cases part with
    | right part => exact ⟨part :: right, rfl⟩
    | wrong c hc => cases hpart

/-- A literal stays on its line. One that there is nothing to say about is read from where it is
written, and any other one is broken. -/
theorem exists_lexeme (start p : Position) (text : List Char) :
    ∃ lexeme rest, text = lexeme ++ rest ∧ lexeme.length = (scan start p text).length ∧
      '\n' ∉ lexeme ∧
      ((scan start p text).complaints = [] → ∃ parts : List StringPart,
        lexeme = parts.flatMap StringPart.text ++ ['"'] ∧
          (scan start p text).text = parts.map StringPart.char) ∧
      ((scan start p text).complaints ≠ [] →
        (Piece.token (.string (String.ofList (scan start p text).text))).Breaks ('"' :: lexeme) rest) := by
  obtain ⟨parts, ending, rest, htext, hlength, hvalue, hends, hclean⟩ := exists_parts start p text
  refine ⟨parts.flatMap QuotedPart.text ++ ending, rest, ?_, ?_, ?_, fun hnone => ?_, fun hsome => ?_⟩
  · rw [htext, List.append_assoc]
  · rw [List.length_append, hlength]
  · rw [List.mem_append, not_or]
    refine ⟨fun hmem => ?_, hends.newline_not_mem⟩
    obtain ⟨part, -, hpart⟩ := List.mem_flatMap.1 hmem
    exact newline_not_mem_text part hpart
  · obtain ⟨hright, rfl⟩ := hclean.1 hnone
    obtain ⟨right, rfl⟩ := exists_stringParts hright
    refine ⟨right, ?_, by rw [hvalue, List.map_map]; rfl⟩
    rw [List.flatMap_map]
    rfl
  · rw [hvalue]
    cases hends with
    | closed =>
      refine .string (Decidable.byContradiction fun hright => hsome (hclean.2 ⟨?_, rfl⟩))
      simpa using hright
    | broken hending hends => exact .openString hending hends

end Quotation

/-! Symbols and comments -/

namespace Scanned

/-- What was found, if anything, is a symbol that begins with `c` and goes on as the text does. -/
def Spells (c : Char) (rest : List Char) (found : Option (Symbol × Nat)) : Prop :=
  ∀ s extra, found = some (s, extra) →
    ∃ tail rest', rest = tail ++ rest' ∧ tail.length = extra ∧ s.text.toList = c :: tail

theorem spells_single {s : Symbol} {c : Char} (rest : List Char) (hs : s.text.toList = [c]) :
    Spells c rest (some (s, 0)) := by
  rintro _ _ ⟨⟩
  exact ⟨[], rest, rfl, rfl, hs⟩

theorem spells_double {s : Symbol} {c d : Char} {rest : List Char} (h : rest.head? = some d)
    (hs : s.text.toList = [c, d]) : Spells c rest (some (s, 1)) := by
  rintro _ _ ⟨⟩
  cases rest with
  | nil => simp at h
  | cons e rest =>
    obtain rfl : e = d := by simpa using h
    exact ⟨[e], rest, rfl, rfl, hs⟩

theorem spells_none (c : Char) (rest : List Char) : Spells c rest none := by
  simp [Spells]

theorem spells_ite {c : Char} {rest : List Char} {q : Prop} [Decidable q]
    {found other : Option (Symbol × Nat)} (h : q → Spells c rest found)
    (h' : Spells c rest other) : Spells c rest (if q then found else other) := by
  split
  · exact h ‹_›
  · exact h'

theorem spells_symbol (c : Char) (rest : List Char) : Spells c rest (symbol? c rest) := by
  unfold symbol?
  dsimp only
  repeat' refine spells_ite (fun _ => ?_) ?_
  all_goals subst_vars
  all_goals first
    | exact spells_single rest rfl
    | exact spells_double ‹_› rfl
    | exact spells_none _ _

/-- A comment ends with the first end mark. -/
theorem commentLength_eq_some {text : List Char} {length : Nat}
    (h : commentLength text = some length) :
    ∃ body rest, text = body ++ '*' :: '/' :: rest ∧ body.length + 2 = length ∧
      ¬ ['*', '/'] <:+: body := by
  fun_induction commentLength text generalizing length with
  | case1 rest => exact ⟨[], rest, rfl, by simpa using h, by simp⟩
  | case2 c rest hopen ih =>
    obtain ⟨n, hn, rfl⟩ := Option.map_eq_some_iff.1 h
    obtain ⟨body, rest', rfl, hlength, hbody⟩ := ih hn
    refine ⟨c :: body, rest', rfl, by simp [← hlength], fun hinfix => ?_⟩
    rcases List.infix_cons_iff.1 hinfix with hprefix | hinfix
    · obtain ⟨tail, htail⟩ := hprefix
      obtain ⟨rfl, rfl⟩ : '*' = c ∧ '/' :: tail = body := by simpa using htail
      exact hopen _ rfl rfl
    · exact hbody hinfix
  | case3 => simp at h

theorem not_prefix_of_symbol?_eq_none {c : Char} {rest : List Char} (h : symbol? c rest = none)
    (s : Symbol) : ¬ s.text.toList <+: c :: rest := by
  rintro ⟨tail, htail⟩
  cases s <;>
    simp only [Symbol.text, String.reduceToList, List.cons_append, List.nil_append,
      List.cons.injEq] at htail <;>
    obtain ⟨rfl, rfl⟩ := htail <;> simp [symbol?] at h <;> split at h <;> simp at h

theorem comment?_star_ne_none (p : Position) (text : List Char) :
    comment? p '/' ('*' :: text) ≠ none := by
  simp only [comment?]
  split <;> simp

theorem startsNothing {p : Position} {c : Char} {rest : List Char} (hblank : ¬ isBlank c)
    (hquote : c ≠ '"') (hdigit : ¬ c.isDigit) (hname : ¬ startsName c)
    (hcomment : comment? p c rest = none) (hsymbol : symbol? c rest = none) :
    StartsNothing c rest where
  token s := by
    rintro ⟨tail, htail⟩
    cases s with
    | keyword k =>
      obtain ⟨d, more, htext, hd, -⟩ := k.exists_text_eq
      rw [Spelling.text, htext] at htail
      exact hname ((List.cons.inj htail).1 ▸ hd)
    | symbol s => exact not_prefix_of_symbol?_eq_none hsymbol s ⟨tail, htail⟩
    | name n =>
      have hd : startsName n.first := by simpa [startsName] using n.starts
      exact hname ((List.cons.inj htail).1 ▸ hd)
    | integer digits =>
      obtain ⟨d, more, htext, hd⟩ := digits.exists_cons
      rw [Spelling.text, htext] at htail
      exact hdigit ((List.cons.inj htail).1 ▸ hd)
    | float f =>
      obtain ⟨d, more, htext, hd⟩ := f.exists_cons
      rw [Spelling.text, htext] at htail
      exact hdigit ((List.cons.inj htail).1 ▸ hd)
    | string parts => exact hquote (List.cons.inj htail).1.symm
  trivia text := by
    rintro htrivia ⟨tail, htail⟩
    cases htrivia with
    | blank hd =>
      obtain ⟨rfl, -⟩ := List.cons.inj htail
      exact hblank (isBlank_iff.2 hd)
    | lineComment =>
      obtain ⟨rfl, rfl⟩ := List.cons.inj htail
      simp [comment?] at hcomment
    | blockComment =>
      obtain ⟨rfl, rfl⟩ := List.cons.inj htail
      exact comment?_star_ne_none p _ hcomment
  quote := hquote
  comment := by
    rintro ⟨tail, htail⟩
    obtain ⟨rfl, rfl⟩ := List.cons.inj htail
    exact comment?_star_ne_none p _ hcomment

/-- A comment without an end mark does not end. -/
theorem commentLength_eq_none {text : List Char} (h : commentLength text = none) :
    ¬ ['*', '/'] <:+: text := by
  fun_induction commentLength text with
  | case1 rest => cases h
  | case2 c rest hopen ih =>
    intro hinfix
    rcases List.infix_cons_iff.1 hinfix with ⟨tail, htail⟩ | hinfix
    · obtain ⟨rfl, rfl⟩ : '*' = c ∧ '/' :: tail = rest := by simpa using htail
      exact hopen _ rfl rfl
    · exact ih (Option.map_eq_none_iff.1 h) hinfix
  | case3 => simp

/-! All pieces -/

/-- A piece is read in one of nine ways. -/
theorem first_cases {motive : Scanned → Prop} (p : Position) (c : Char) (rest : List Char)
    (blank : isBlank c → motive ⟨.trivia, 0, []⟩)
    (quotation : c = '"' →
      let literal := Quotation.scan p (p.advance c) rest
      motive ⟨.token (.string (String.ofList literal.text)), literal.length, literal.complaints⟩)
    (number : c.isDigit → motive (number p (c :: rest)))
    (name : startsName c →
      let tail := rest.takeWhile continuesName
      motive ⟨.token (word (String.ofList (c :: tail))), tail.length, []⟩)
    (lineComment : ∀ text, c = '/' → rest = '/' :: text →
      motive ⟨.trivia, 1 + lineCommentLength text, []⟩)
    (blockComment : ∀ text length, c = '/' → rest = '*' :: text →
      commentLength text = some length → motive ⟨.trivia, 1 + length, []⟩)
    (openComment : ∀ text, c = '/' → rest = '*' :: text → commentLength text = none →
      motive ⟨.trivia, rest.length, [⟨.unterminatedComment, ⟨p, (p.after (c :: rest)).back⟩⟩]⟩)
    (symbol : ∀ s extra, symbol? c rest = some (s, extra) → motive ⟨.token (.symbol s), extra, []⟩)
    (stray : StartsNothing c rest →
      motive ⟨.stray, 0, [⟨.unexpectedCharacter c, .point p⟩]⟩) :
    motive (first p c rest) := by
  unfold first
  split
  · exact blank ‹_›
  rename_i hblank
  split
  · exact quotation ‹_›
  rename_i hquote
  split
  · exact number ‹_›
  rename_i hdigit
  split
  · exact name ‹_›
  rename_i hname
  split
  · rename_i scanned hcomment
    unfold comment? at hcomment
    split at hcomment
    · cases hcomment
      exact lineComment _ rfl rfl
    · split at hcomment
      · cases hcomment
        exact blockComment _ _ rfl rfl ‹_›
      · cases hcomment
        exact openComment _ rfl rfl ‹_›
    · cases hcomment
  · rename_i hcomment
    split
    · exact symbol _ _ ‹_›
    · exact stray (startsNothing hblank hquote hdigit hname hcomment ‹_›)

/-- A token stays on its line. A piece that there is nothing to say about is written so, and any other
piece is broken. -/
structure Fits (scanned : Scanned) (text rest : List Char) : Prop where
  line : ∀ kind, scanned.piece = .token kind → '\n' ∉ text
  written : scanned.complaints = [] → scanned.piece.Writes text
  broken : scanned.complaints ≠ [] → scanned.piece.Breaks text rest

/-- A piece that there is nothing to say about is not broken. -/
theorem Fits.of_written {scanned : Scanned} {text rest : List Char} (hclean : scanned.complaints = [])
    (hline : ∀ kind, scanned.piece = .token kind → '\n' ∉ text)
    (hwritten : scanned.piece.Writes text) : scanned.Fits text rest :=
  ⟨hline, fun _ => hwritten, fun hsome => absurd hclean hsome⟩

/-- A word is a keyword or a name. -/
theorem exists_word {c : Char} {tail : List Char} (hc : startsName c)
    (htail : ∀ d ∈ tail, continuesName d) :
    ∃ s : Spelling, s.text = c :: tail ∧ s.kind = word (String.ofList (c :: tail)) := by
  unfold word
  cases hword : Keyword.ofText? (String.ofList (c :: tail)) with
  | some k => exact ⟨.keyword k, by simp [Spelling.text, Keyword.text_of_ofText? hword], rfl⟩
  | none =>
    refine ⟨.name ⟨c, tail, ?_, ?_, fun k hk => ?_⟩, rfl, rfl⟩
    · simpa [startsName] using hc
    · simpa [continuesName] using htail
    · rw [← hk, k.ofText?_text] at hword
      simp at hword

/-- The characters behind the first one of a piece are there, and with them the piece fits. -/
def Reads (scanned : Scanned) (c : Char) (rest : List Char) : Prop :=
  ∃ tail rest', rest = tail ++ rest' ∧ tail.length = scanned.extra ∧ scanned.Fits (c :: tail) rest'

theorem reads_number (p : Position) {c : Char} (rest : List Char) (hc : c.isDigit) :
    (number p (c :: rest)).Reads c rest := by
  obtain ⟨lexeme, rest', htext, hlength, hlexeme⟩ := NumberLiteral.exists_lexeme rest hc
  unfold number
  dsimp only
  split at hlexeme
  · obtain ⟨d, rfl, hwhole, hends⟩ := hlexeme
    obtain ⟨c', tail, hd, -⟩ := d.exists_cons
    rw [hd, List.cons_append] at htext
    obtain ⟨rfl, rfl⟩ := List.cons.inj htext
    have hline := d.newline_not_mem
    rw [hd] at hline hlength
    rw [if_pos ‹_›, ← hlength]
    cases hinteger : (NumberLiteral.scan (c :: (tail ++ rest'))).integer? with
    | none =>
      have hlarge : 0x80000000 ≤ d.number := by
        simpa [NumberLiteral.integer?, hwhole, NumberLiteral.value_text] using hinteger
      exact ⟨tail, rest', rfl, rfl, fun _ _ => hline, by simp,
        fun _ => hd ▸ .integer (by omega) hends⟩
    | some value =>
      obtain ⟨inRange, rfl⟩ : d.number < 0x80000000 ∧ Int32.ofNat d.number = value := by
        simpa [NumberLiteral.integer?, hwhole, NumberLiteral.value_text] using hinteger
      exact ⟨tail, rest', rfl, rfl, .of_written rfl (fun _ _ => hline)
        ⟨.integer d (by omega), hd, rfl⟩⟩
  · obtain ⟨f, rfl, hsingle⟩ := hlexeme
    obtain ⟨c', tail, hf, -⟩ := f.exists_cons
    rw [hf, List.cons_append] at htext
    obtain ⟨rfl, rfl⟩ := List.cons.inj htext
    have hline := f.newline_not_mem
    rw [hf] at hline hlength
    rw [if_neg ‹_›, ← hlength, hsingle]
    exact ⟨tail, rest', rfl, rfl, .of_written rfl (fun _ _ => hline) ⟨.float f, hf, rfl⟩⟩

theorem first_reads (p : Position) (c : Char) (rest : List Char) :
    (first p c rest).Reads c rest := by
  apply first_cases (motive := fun scanned => scanned.Reads c rest) p c rest
  case blank =>
    exact fun hc => ⟨[], rest, rfl, rfl, .of_written rfl (by simp) (.blank (isBlank_iff.1 hc))⟩
  case quotation =>
    rintro rfl
    obtain ⟨lexeme, rest', htext, hlength, hline, hparts, hbroken⟩ :=
      Quotation.exists_lexeme p (p.advance '"') rest
    refine ⟨lexeme, rest', htext, hlength, fun _ _ => by simpa using hline, fun hclean => ?_,
      hbroken⟩
    obtain ⟨parts, rfl, hvalue⟩ := hparts hclean
    exact ⟨.string parts, rfl, by simp [Spelling.kind, hvalue]⟩
  case number => exact reads_number p rest
  case name =>
    intro hc
    have htail : ∀ d ∈ rest.takeWhile continuesName, continuesName d :=
      List.all_eq_true.1 List.all_takeWhile
    have hline : '\n' ∉ c :: rest.takeWhile continuesName := by
      rw [List.mem_cons, not_or]
      refine ⟨?_, newline_not_mem_of_all rfl htail⟩
      rintro rfl
      simp [startsName] at hc
    exact ⟨_, _, List.takeWhile_append_dropWhile.symm, rfl,
      .of_written rfl (fun _ _ => hline) (exists_word hc htail)⟩
  case lineComment =>
    rintro text rfl rfl
    refine ⟨'/' :: text.takeWhile (· != '\n'), text.dropWhile (· != '\n'), ?_, ?_,
      .of_written rfl (by simp) ?_⟩
    · simp
    · simp [lineCommentLength, Nat.add_comm]
    · exact .lineComment (newline_not_mem_of_all rfl (List.all_eq_true.1 List.all_takeWhile))
  case blockComment =>
    rintro text length rfl rfl hlength
    obtain ⟨body, rest', rfl, rfl, hbody⟩ := commentLength_eq_some hlength
    exact ⟨'*' :: (body ++ ['*', '/']), rest', by simp, by simp [Nat.add_comm],
      .of_written rfl (by simp) (.blockComment hbody)⟩
  case openComment =>
    rintro text rfl rfl hnone
    exact ⟨_, [], (List.append_nil _).symm, rfl, by simp, by simp,
      fun _ => .comment (commentLength_eq_none hnone)⟩
  case symbol =>
    intro s extra hs
    obtain ⟨tail, rest', rfl, hlength, htext⟩ := spells_symbol c rest s extra hs
    have hline := s.newline_not_mem
    rw [htext] at hline
    exact ⟨tail, rest', rfl, hlength, .of_written rfl (fun _ _ => hline) ⟨.symbol s, htext, rfl⟩⟩
  case stray => exact fun h => ⟨[], rest, rfl, rfl, by simp, by simp, fun _ => .stray h⟩

end Scanned

end ScriptEngine
