import ScriptEngine.Proofs.Reading.Spelling

/-!
Reading what has been written. A token is read whole when the text ends after it or goes on with a
blank: a name, a number or an operator takes in no more than its characters, and a string ends at its
own closing quote. What stands between two tokens is passed over. So the tokens of a written text are
the ones that were written.
-/
namespace ScriptEngine

/-- The text is at its end or goes on with a blank. -/
def Separates (rest : List Char) : Prop := ∀ c ∈ rest.head?, Scanned.isBlank c

theorem separates_nil : Separates [] := by simp [Separates]

theorem Scanned.isBlank_iff {c : Char} :
    isBlank c ↔ c = ' ' ∨ c = '\t' ∨ c = '\r' ∨ c = '\n' := by
  simp [isBlank, or_assoc]

theorem Separator.separates (s : Separator) (rest : List Char) : Separates (s.text ++ rest) := by
  simpa [Separates, text, Scanned.isBlank_iff] using s.blank

namespace Separates

variable {rest : List Char}

/-- A row of characters ends where the separation begins. -/
theorem takeWhile_append (h : Separates rest) {q : Char → Bool}
    (hq : ∀ c, Scanned.isBlank c → q c = false) {text : List Char} (htext : ∀ c ∈ text, q c) :
    (text ++ rest).takeWhile q = text := by
  rw [List.takeWhile_append_of_pos htext]
  cases rest with
  | nil => simp
  | cons c rest => simp [hq c (h c rfl)]

end Separates

theorem Char.isDigit_of_isBlank {c : Char} (h : Scanned.isBlank c) : c.isDigit = false := by
  rcases Scanned.isBlank_iff.1 h with rfl | rfl | rfl | rfl <;> rfl

theorem Scanned.continuesName_of_isBlank {c : Char} (h : isBlank c) : continuesName c = false := by
  rcases isBlank_iff.1 h with rfl | rfl | rfl | rfl <;> rfl

theorem Scanned.not_isDigit_of_startsName {c : Char} (h : startsName c) : c.isDigit = false := by
  have hranges : (decide ('A'.val ≤ c.val ∧ c.val ≤ 'Z'.val) ||
      decide ('a'.val ≤ c.val) && decide (c.val ≤ 'z'.val) || c == '_') = true := h
  simp only [Bool.or_eq_true, Bool.and_eq_true, decide_eq_true_eq, beq_iff_eq,
    UInt32.le_iff_toNat_le] at hranges
  rcases hranges with hranges | rfl
  · simp only [Char.isDigit, Bool.and_eq_false_iff, decide_eq_false_iff_not,
      UInt32.le_iff_toNat_le, ge_iff_le]
    have hA : 'A'.val.toNat = 65 := rfl
    have ha : 'a'.val.toNat = 97 := rfl
    have h9 : '9'.val.toNat = 57 := rfl
    omega
  · rfl

/-! Names and keywords -/

namespace Scanned

variable {c : Char} {tail rest : List Char}

theorem first_word (p : Position) (hc : startsName c) (htail : ∀ d ∈ tail, continuesName d)
    (hrest : Separates rest) :
    first p c (tail ++ rest) = ⟨.token (word (String.ofList (c :: tail))), tail.length, []⟩ := by
  have hblank : ¬ isBlank c := by
    intro h
    rcases isBlank_iff.1 h with rfl | rfl | rfl | rfl <;> simp [startsName] at hc
  have hquote : c ≠ '"' := by
    rintro rfl
    simp [startsName] at hc
  have hdigit : ¬ c.isDigit := by simp [not_isDigit_of_startsName hc]
  have htake : (tail ++ rest).takeWhile continuesName = tail :=
    hrest.takeWhile_append (fun _ => continuesName_of_isBlank) htail
  simp [first, hblank, hquote, hdigit, hc, htake]

theorem word_keyword (k : Keyword) : word k.text = .keyword k := by
  rw [word, k.ofText?_text]

theorem word_name {text : String} (h : ∀ k : Keyword, k.text ≠ text) : word text = .name text := by
  have hnone : Keyword.ofText? text = none := by
    simp [Keyword.ofText?, h]
  rw [word, hnone]

end Scanned

/-- A keyword is made as a name is. -/
theorem Keyword.exists_text_eq (k : Keyword) :
    ∃ c tail, k.text.toList = c :: tail ∧ Scanned.startsName c ∧
      ∀ d ∈ tail, Scanned.continuesName d := by
  cases k <;> exact ⟨_, _, rfl, rfl, List.all_eq_true.mp rfl⟩

/-! Symbols -/

/-- An operator takes in no more than its characters, as no blank belongs to one. -/
theorem Symbol.first_text (s : Symbol) (p : Position) {rest : List Char} (hrest : Separates rest) :
    ∃ c tail, s.text.toList = c :: tail ∧
      Scanned.first p c (tail ++ rest) = ⟨.token (.symbol s), tail.length, []⟩ := by
  cases rest with
  | nil => cases s <;> exact ⟨_, _, rfl, rfl⟩
  | cons b rest =>
    rcases Scanned.isBlank_iff.1 (hrest b rfl) with rfl | rfl | rfl | rfl <;>
      cases s <;> exact ⟨_, _, rfl, rfl⟩

/-! Numbers -/

/-- The text does not begin with a digit. -/
def EndsDigits (rest : List Char) : Prop := ∀ c ∈ rest.head?, c.isDigit = false

theorem EndsDigits.cons {c : Char} (rest : List Char) (h : c.isDigit = false) :
    EndsDigits (c :: rest) := by
  simpa [EndsDigits] using h

/-- The text does not begin with anything that a number before it would take in. -/
def EndsNumber (rest : List Char) : Prop :=
  ∀ c ∈ rest.head?, c.isDigit = false ∧ c ≠ '.' ∧ c ≠ 'e' ∧ c ≠ 'E'

theorem EndsNumber.endsDigits {rest : List Char} (h : EndsNumber rest) : EndsDigits rest :=
  fun c hc => (h c hc).1

theorem Separates.endsNumber {rest : List Char} (h : Separates rest) : EndsNumber rest := by
  intro c hc
  rcases Scanned.isBlank_iff.1 (h c hc) with rfl | rfl | rfl | rfl <;> decide

theorem Digits.exists_cons (d : Digits) : ∃ c tail, d.text = c :: tail ∧ c.isDigit := by
  obtain ⟨c, tail, htext⟩ := List.exists_cons_of_ne_nil d.nonempty
  exact ⟨c, tail, htext, d.digits c (by simp [htext])⟩

theorem FloatSpelling.exists_cons (f : FloatSpelling) :
    ∃ c tail, f.text = c :: tail ∧ c.isDigit := by
  cases f with
  | pointed whole fraction exponent? =>
    obtain ⟨c, tail, htext, hc⟩ := whole.exists_cons
    exact ⟨c, _, by rw [text, htext, List.cons_append], hc⟩
  | scaled whole e =>
    obtain ⟨c, tail, htext, hc⟩ := whole.exists_cons
    exact ⟨c, _, by rw [text, htext, List.cons_append], hc⟩

namespace NumberLiteral

variable {rest : List Char}

theorem value_text (d : Digits) : value d.text = d.number := rfl

theorem leadingDigits_append (d : Digits) (h : EndsDigits rest) :
    leadingDigits (d.text ++ rest) = d.text := by
  rw [leadingDigits, List.takeWhile_append_of_pos d.digits]
  cases rest with
  | nil => simp
  | cons c rest => simp [h c rfl]

/-- A sign comes before the digits, and a digit is no sign. -/
theorem exponentOf_append (e : ExponentSpelling) (h : EndsDigits rest) :
    exponentOf (e.text ++ rest) = some (e.value, e.text.length) := by
  obtain ⟨capital, minus?, digits⟩ := e
  obtain ⟨c, tail, htext, hc⟩ := digits.exists_cons
  have hlead : leadingDigits (c :: (tail ++ rest)) = c :: tail := by
    simpa [htext] using leadingDigits_append digits h
  have hnumber : value (c :: tail) = digits.number := by rw [← htext, value_text]
  have hminus : c ≠ '-' := by
    rintro rfl
    exact absurd hc (by decide)
  have hplus : c ≠ '+' := by
    rintro rfl
    exact absurd hc (by decide)
  rcases minus? with _ | _ | _ <;> cases capital <;>
    simp [exponentOf, ExponentSpelling.text, ExponentSpelling.sign, ExponentSpelling.mark,
      ExponentSpelling.value, htext, hlead, hnumber, hminus, hplus, Nat.add_comm, Nat.add_left_comm]

theorem exponentOf_eq_none (h : EndsNumber rest) : exponentOf rest = none := by
  cases rest with
  | nil => rfl
  | cons c rest =>
    obtain ⟨-, -, hsmall, hcapital⟩ := h c rfl
    simp [exponentOf, hsmall, hcapital]

theorem fractionOf_eq_nil (h : EndsNumber rest) : fractionOf rest = [] := by
  cases rest with
  | nil => rfl
  | cons c rest =>
    obtain ⟨-, hpoint, -, -⟩ := h c rfl
    simp [fractionOf, hpoint]

theorem scan_integer (d : Digits) (h : EndsNumber rest) :
    scan (d.text ++ rest) = ⟨d.text, [], none, d.text.length⟩ := by
  simp [scan, leadingDigits_append d h.endsDigits, fractionOf_eq_nil h, exponentOf_eq_none h]

/-- An exponent may follow the digits of a literal; its mark is no digit. -/
theorem endsDigits_exponent (exponent? : Option ExponentSpelling) (h : EndsNumber rest) :
    EndsDigits (exponent?.elim [] ExponentSpelling.text ++ rest) := by
  cases exponent? with
  | none => exact h.endsDigits
  | some e =>
    refine EndsDigits.cons _ ?_
    cases hcapital : e.capital <;> simp [ExponentSpelling.mark, hcapital]

theorem exponentOf_elim (exponent? : Option ExponentSpelling) (h : EndsNumber rest) :
    exponentOf (exponent?.elim [] ExponentSpelling.text ++ rest) =
      exponent?.map fun e => (e.value, e.text.length) := by
  cases exponent? with
  | none => exact exponentOf_eq_none h
  | some e => exact exponentOf_append e h.endsDigits

theorem scan_pointed (whole fraction : Digits) (exponent? : Option ExponentSpelling)
    (h : EndsNumber rest) :
    scan ((FloatSpelling.pointed whole fraction exponent?).text ++ rest) =
      ⟨whole.text, fraction.text, exponent?.map ExponentSpelling.value,
        (FloatSpelling.pointed whole fraction exponent?).text.length⟩ := by
  have hwhole := leadingDigits_append whole
    (EndsDigits.cons (fraction.text ++ (exponent?.elim [] ExponentSpelling.text ++ rest))
      (c := '.') rfl)
  have hfraction := leadingDigits_append fraction (endsDigits_exponent exponent? h)
  have hexponent := exponentOf_elim exponent? h
  have hpointed : fraction.text.isEmpty = false := by simp [fraction.nonempty]
  cases exponent? with
  | none =>
    simp only [Option.elim_none, List.nil_append, Option.map_none] at hwhole hfraction hexponent
    simp [scan, FloatSpelling.text, fractionOf, hwhole, hfraction, hexponent, hpointed]
  | some e =>
    simp only [Option.elim_some, Option.map_some] at hwhole hfraction hexponent
    simp [scan, FloatSpelling.text, fractionOf, hwhole, hfraction, hexponent, hpointed,
      Nat.add_assoc, Nat.add_comm 1]

theorem scan_scaled (whole : Digits) (e : ExponentSpelling) (h : EndsNumber rest) :
    scan ((FloatSpelling.scaled whole e).text ++ rest) =
      ⟨whole.text, [], some e.value, (FloatSpelling.scaled whole e).text.length⟩ := by
  have hwhole := leadingDigits_append whole (endsDigits_exponent (some e) h)
  have hexponent := exponentOf_append e h.endsDigits
  have hfraction : fractionOf (e.text ++ rest) = [] := by
    cases hcapital : e.capital <;>
      simp [ExponentSpelling.text, ExponentSpelling.mark, hcapital, fractionOf]
  simp only [Option.elim_some] at hwhole
  simp [scan, FloatSpelling.text, hwhole, hfraction, hexponent]

end NumberLiteral

namespace Scanned

variable {rest : List Char}

theorem first_number (p : Position) {c : Char} (tail : List Char) (hc : c.isDigit) :
    first p c tail = number p (c :: tail) := by
  have hblank : ¬ isBlank c := by
    intro h
    simp [Char.isDigit_of_isBlank h] at hc
  have hquote : c ≠ '"' := by
    rintro rfl
    exact absurd hc (by decide)
  simp [first, hblank, hquote, hc]

theorem number_integer (p : Position) (d : Digits) (inRange : d.number ≤ 2147483647)
    (h : EndsNumber rest) :
    number p (d.text ++ rest) =
      ⟨.token (.integer (Int32.ofNat d.number)), d.text.length - 1, []⟩ := by
  have hvalue : d.number < 0x80000000 := by omega
  simp [number, NumberLiteral.scan_integer d h, NumberLiteral.isWhole, NumberLiteral.integer?,
    hvalue, NumberLiteral.value_text]

theorem number_float (p : Position) (f : FloatSpelling) (h : EndsNumber rest) :
    number p (f.text ++ rest) =
      ⟨.token (.float (Single.ofDecimal f.decimal)), f.text.length - 1, []⟩ := by
  cases f with
  | pointed whole fraction exponent? =>
    have hfraction : fraction.text.isEmpty = false := by simp [fraction.nonempty]
    have hexponent : (exponent?.map ExponentSpelling.value).getD 0 =
        exponent?.elim 0 ExponentSpelling.value := by
      cases exponent? <;> rfl
    simp [number, NumberLiteral.scan_pointed whole fraction exponent? h, NumberLiteral.isWhole,
      hfraction, NumberLiteral.single, FloatSpelling.decimal, hexponent, Digits.append,
      ← NumberLiteral.value_text]
  | scaled whole e =>
    simp [number, NumberLiteral.scan_scaled whole e h, NumberLiteral.isWhole,
      NumberLiteral.single, FloatSpelling.decimal, NumberLiteral.value_text]

end Scanned

/-! Strings -/

namespace Quotation

theorem escaped?_mark (e : StringEscape) :
    escaped? e.mark = some e.char ∧ e.mark ≠ '\n' := by
  cases e <;> decide

/-- One part of a literal is read as the character it stands for. -/
theorem scan_part (start p : Position) (part : StringPart) (text : List Char) :
    ∃ p', scan start p (part.text ++ text) =
      extend [part.char] part.text.length [] (scan start p' text) := by
  cases part with
  | plain c hc =>
    obtain ⟨hquote, hbackslash, hnewline⟩ := hc
    refine ⟨p.advance c, ?_⟩
    simp [scan, hquote, hbackslash, hnewline, StringPart.char]
  | escape e =>
    obtain ⟨hescaped, hnewline⟩ := escaped?_mark e
    refine ⟨(p.advance '\\').advance e.mark, ?_⟩
    simp [scan, hescaped, hnewline, StringPart.char]

/-- A literal is read part by part, up to its own closing quote. -/
theorem scan_parts (start : Position) (parts : List StringPart) (rest : List Char) :
    ∀ p, scan start p (parts.flatMap StringPart.text ++ '"' :: rest) =
      ⟨parts.map StringPart.char, (parts.flatMap StringPart.text).length + 1, []⟩ := by
  induction parts with
  | nil =>
    intro p
    simp [scan, close]
  | cons part parts ih =>
    intro p
    obtain ⟨p', hpart⟩ := scan_part start p part
      (parts.flatMap StringPart.text ++ '"' :: rest)
    rw [List.flatMap_cons, List.append_assoc, hpart, ih]
    simp [extend, Nat.add_assoc]

end Quotation

/-! Tokens -/

/-- A number is read whole also where something other than a blank ends it. -/
theorem Spelling.first_numeral {s : Spelling} (hs : s.isNumeral) (p : Position) {rest : List Char}
    (hrest : EndsNumber rest) :
    ∃ c tail, s.text = c :: tail ∧ c.isDigit ∧
      Scanned.first p c (tail ++ rest) = ⟨.token s.kind, tail.length, []⟩ := by
  cases s with
  | integer digits inRange =>
    obtain ⟨c, tail, htext, hc⟩ := digits.exists_cons
    have hnumber := Scanned.number_integer p digits inRange hrest
    refine ⟨c, tail, htext, hc, ?_⟩
    rw [Scanned.first_number p _ hc, ← List.cons_append, ← htext, hnumber, htext]
    rfl
  | float f =>
    obtain ⟨c, tail, htext, hc⟩ := f.exists_cons
    have hnumber := Scanned.number_float p f hrest
    refine ⟨c, tail, htext, hc, ?_⟩
    rw [Scanned.first_number p _ hc, ← List.cons_append, ← htext, hnumber, htext]
    rfl
  | keyword k => simp [isNumeral] at hs
  | symbol s => simp [isNumeral] at hs
  | name n => simp [isNumeral] at hs
  | string parts => simp [isNumeral] at hs

/-- A token is read whole. -/
theorem Spelling.first_text (s : Spelling) (p : Position) {rest : List Char}
    (hrest : Separates rest) :
    ∃ c tail, s.text = c :: tail ∧
      Scanned.first p c (tail ++ rest) = ⟨.token s.kind, tail.length, []⟩ := by
  cases s with
  | keyword k =>
    obtain ⟨c, tail, htext, hc, htail⟩ := k.exists_text_eq
    have hword : String.ofList (c :: tail) = k.text := by rw [← htext, String.ofList_toList]
    refine ⟨c, tail, htext, ?_⟩
    rw [Scanned.first_word p hc htail hrest, hword, Scanned.word_keyword]
    rfl
  | symbol s => exact s.first_text p hrest
  | name n =>
    have hc : Scanned.startsName n.first := by simpa [Scanned.startsName] using n.starts
    have htail : ∀ d ∈ n.rest, Scanned.continuesName d := fun d hd => by
      simpa [Scanned.continuesName] using n.continues d hd
    refine ⟨n.first, n.rest, rfl, ?_⟩
    rw [Scanned.first_word p hc htail hrest, Scanned.word_name n.free]
    rfl
  | integer digits inRange =>
    obtain ⟨c, tail, htext, -, hfirst⟩ :=
      first_numeral (s := .integer digits inRange) rfl p hrest.endsNumber
    exact ⟨c, tail, htext, hfirst⟩
  | float f =>
    obtain ⟨c, tail, htext, -, hfirst⟩ := first_numeral (s := .float f) rfl p hrest.endsNumber
    exact ⟨c, tail, htext, hfirst⟩
  | string parts =>
    have hscan := Quotation.scan_parts p parts rest (p.advance '"')
    refine ⟨'"', parts.flatMap StringPart.text ++ ['"'], rfl, ?_⟩
    simp [Scanned.first, Scanned.isBlank, hscan, kind]

/-! The whole text -/

namespace Lexed

/-- The characters of a piece after its first are passed over. -/
theorem readFrom_skip (count : Nat) (text rest : List Char) :
    ∀ p, readFrom p count (text ++ rest) text.length = readFrom (p.after text) count rest 0 := by
  induction text with
  | nil =>
    intro p
    rfl
  | cons c text ih =>
    intro p
    exact ih (p.advance c)

theorem readFrom_trivia {p : Position} {count : Nat} {c : Char} (tail : List Char)
    {rest : List Char} (h : Scanned.first p c (tail ++ rest) = ⟨.trivia, tail.length, []⟩) :
    readFrom p count (c :: tail ++ rest) 0 = readFrom (p.after (c :: tail)) count rest 0 := by
  rw [List.cons_append, readFrom, h]
  exact readFrom_skip count tail rest (p.advance c)

theorem readFrom_token {p : Position} {c : Char} {tail rest : List Char} {kind : TokenKind}
    (h : Scanned.first p c (tail ++ rest) = ⟨.token kind, tail.length, []⟩) :
    readFrom p 0 (c :: tail ++ rest) 0 =
      prepend [⟨kind, Scanned.onLine p tail.length⟩] []
        (readFrom (p.after (c :: tail)) 0 rest 0) := by
  have hcount : ¬ maxErrors ≤ 0 := by decide
  have hskip : readFrom (p.advance c) 0 (tail ++ rest) tail.length =
      readFrom (p.after (c :: tail)) 0 rest 0 := readFrom_skip 0 tail rest (p.advance c)
  rw [List.cons_append, readFrom, h, if_neg hcount]
  exact congrArg (prepend _ []) hskip

end Lexed

namespace TriviaPart

/-- A block comment ends at the first end mark. -/
theorem commentLength_append {body : List Char} (h : ¬ ['*', '/'] <:+: body) (rest : List Char) :
    Scanned.commentLength (body ++ '*' :: '/' :: rest) = some (body.length + 2) := by
  induction body with
  | nil => rfl
  | cons c body ih =>
    have hbody : ¬ ['*', '/'] <:+: body := fun hinfix => h (List.infix_cons hinfix)
    have hnext : ∀ text, c = '*' → body ++ '*' :: '/' :: rest ≠ '/' :: text := by
      rintro text rfl heq
      cases body with
      | nil => simp at heq
      | cons d body =>
        obtain ⟨rfl, -⟩ := List.cons.inj heq
        exact h ⟨[], body, rfl⟩
    rw [List.cons_append, Scanned.commentLength, ih hbody]
    · rfl
    · exact hnext

theorem lineCommentLength_append {body : List Char} (h : '\n' ∉ body) (rest : List Char) :
    Scanned.lineCommentLength (body ++ '\n' :: rest) = body.length := by
  have hbody : ∀ c ∈ body, (c != '\n') = true := fun c hc => by
    simpa using ne_of_mem_of_not_mem hc h
  rw [Scanned.lineCommentLength, List.takeWhile_append_of_pos hbody]
  simp

/-- A blank or a comment is passed over, and nothing after it. -/
theorem readFrom_append (part : TriviaPart) (p : Position) (count : Nat) (rest : List Char) :
    Lexed.readFrom p count (part.text ++ rest) 0 =
      Lexed.readFrom (p.after part.text) count rest 0 := by
  cases part with
  | blank c hc =>
    refine Lexed.readFrom_trivia [] ?_
    simp [Scanned.first, Scanned.isBlank_iff.2 hc]
  | lineComment body hbody =>
    have hcomment : Scanned.first p '/' ('/' :: body ++ '\n' :: rest) =
        ⟨.trivia, ('/' :: body).length, []⟩ := by
      simp [Scanned.first, Scanned.isBlank, Scanned.startsName, Scanned.comment?,
        lineCommentLength_append hbody, Nat.add_comm]
    have hbreak : Scanned.first (p.after ('/' :: '/' :: body)) '\n' ([] ++ rest) =
        ⟨.trivia, ([] : List Char).length, []⟩ := rfl
    have hafter : p.after (lineComment body hbody).text =
        (p.after ('/' :: '/' :: body)).after ['\n'] := by
      rw [← Position.after_append]
      rfl
    -- The line break after the comment is a piece of its own.
    calc Lexed.readFrom p count ((lineComment body hbody).text ++ rest) 0
        = Lexed.readFrom p count ('/' :: '/' :: body ++ '\n' :: rest) 0 := by simp [text]
      _ = Lexed.readFrom (p.after ('/' :: '/' :: body)) count ('\n' :: rest) 0 :=
        Lexed.readFrom_trivia _ hcomment
      _ = Lexed.readFrom (p.after (lineComment body hbody).text) count rest 0 := by
        rw [hafter]
        exact Lexed.readFrom_trivia [] hbreak
  | blockComment body hbody =>
    refine Lexed.readFrom_trivia ('*' :: (body ++ ['*', '/'])) ?_
    simp [Scanned.first, Scanned.isBlank, Scanned.startsName, Scanned.comment?,
      commentLength_append hbody, Nat.add_comm]

theorem readFrom_flatMap (parts : List TriviaPart) (count : Nat) (rest : List Char) :
    ∀ p, Lexed.readFrom p count (parts.flatMap text ++ rest) 0 =
      Lexed.readFrom (p.after (parts.flatMap text)) count rest 0 := by
  induction parts with
  | nil =>
    intro p
    rfl
  | cons part parts ih =>
    intro p
    rw [List.flatMap_cons, List.append_assoc, part.readFrom_append, ih, Position.after_append]

end TriviaPart

/-- What stands between two tokens is passed over. -/
theorem Separator.readFrom_append (s : Separator) (p : Position) (count : Nat) (rest : List Char) :
    Lexed.readFrom p count (s.text ++ rest) 0 = Lexed.readFrom (p.after s.text) count rest 0 := by
  have hblank := TriviaPart.readFrom_append (.blank s.first s.blank) p count
    (s.rest.flatMap TriviaPart.text ++ rest)
  exact hblank.trans (TriviaPart.readFrom_flatMap s.rest count rest _)

/-- One token is read, and what stands after it is read on. -/
theorem Spelling.readFrom_append (s : Spelling) (p : Position) {rest : List Char}
    (hrest : Separates rest) :
    ∃ span, Lexed.readFrom p 0 (s.text ++ rest) 0 =
      .prepend [⟨s.kind, span⟩] [] (Lexed.readFrom (p.after s.text) 0 rest 0) := by
  obtain ⟨c, tail, htext, hfirst⟩ := s.first_text p hrest
  refine ⟨Scanned.onLine p tail.length, ?_⟩
  rw [htext]
  exact Lexed.readFrom_token hfirst

theorem Lexed.readFrom_written (ws : List (Spelling × Separator)) :
    ∀ p, (readFrom p 0 (written ws) 0).complaints = [] ∧
      (readFrom p 0 (written ws) 0).tokens.map Token.kind =
        ws.map (fun w => w.1.kind) ++ [.endOfFile] := by
  fun_induction written ws with
  | case1 =>
    intro p
    exact ⟨rfl, rfl⟩
  | case2 s separator =>
    intro p
    obtain ⟨span, hread⟩ := s.readFrom_append p separates_nil
    rw [List.append_nil] at hread
    rw [hread]
    exact ⟨rfl, rfl⟩
  | case3 s separator rest hne ih =>
    intro p
    obtain ⟨span, hread⟩ := s.readFrom_append p (separator.separates (written rest))
    rw [hread, separator.readFrom_append]
    obtain ⟨hcomplaints, hkinds⟩ := ih ((p.after s.text).after separator.text)
    exact ⟨hcomplaints, congrArg (s.kind :: ·) hkinds⟩

/-- Whatever tokens are written, with a blank between them and after it any blanks and comments: they
are read without a complaint, they and the end of the file, and each is read as it was meant. -/
theorem lex_written (ws : List (Spelling × Separator)) :
    (lex (written ws)).complaints = [] ∧
      (lex (written ws)).tokens.map Token.kind = ws.map (fun w => w.1.kind) ++ [.endOfFile] :=
  Lexed.readFrom_written ws ⟨1, 1⟩

end ScriptEngine
