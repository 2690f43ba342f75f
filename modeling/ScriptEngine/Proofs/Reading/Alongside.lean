import ScriptEngine.Proofs.Reading.StmtLossless

/-!
Two readings of the same stretch of tokens. The stretch ends with its semicolon and has no braces in
it; what comes behind the semicolon, and what was complained about before, may be different. The
readings go side by side: they take the same tokens, come to the end of the stretch together, or are
stuck together at the same token and with the same complaint.
-/
namespace ScriptEngine

/-- Tokens up to a semicolon, as a statement without statements in it may have them, well formed or
not: without braces, and with the words that begin statements at the front only. -/
structure Chunk where
  tokens : List Token
  semicolon : Token
  ends : semicolon.kind = .symbol .semicolon
  inside : ∀ t ∈ tokens, t.kind ≠ .symbol .semicolon ∧ t.kind ≠ .symbol .leftBrace ∧
    t.kind ≠ .symbol .rightBrace ∧ t.kind ≠ .endOfFile
  later : ∀ t ∈ tokens.tail, ∀ word, t.kind = .keyword word → Cursor.startsStatement word = false
  first : ∀ t ∈ tokens.head?, ∀ word ∈ [Keyword.function, .if, .while, .try], t.kind ≠ .keyword word

namespace Chunk

def all (u : Chunk) : List Token := u.tokens ++ [u.semicolon]

/-- No token of a chunk opens or closes a block or begins a statement with statements in it. -/
def barred : List TokenKind :=
  [.symbol .leftBrace, .symbol .rightBrace, .endOfFile, .keyword .function, .keyword .if,
    .keyword .while, .keyword .try]

theorem kind_not_barred (u : Chunk) {t : Token} (ht : t ∈ u.all) : t.kind ∉ barred := by
  have hstarts : ∀ word ∈ [Keyword.function, .if, .while, .try], Cursor.startsStatement word := by
    decide
  rcases List.mem_append.1 ht with ht | ht
  · have hword : ∀ word ∈ [Keyword.function, .if, .while, .try], t.kind ≠ .keyword word := by
      intro word hword hkind
      cases htokens : u.tokens with
      | nil => simp [htokens] at ht
      | cons head tail =>
        rcases List.mem_cons.1 (htokens ▸ ht) with rfl | htail
        · exact u.first t (by simp [htokens]) word hword hkind
        · have hlater := u.later t (by simpa [htokens] using htail) word hkind
          exact absurd (hstarts word hword) (by simp [hlater])
    have hinside := u.inside t ht
    simp_all [barred]
  · rw [List.mem_singleton.1 ht, u.ends]
    decide

end Chunk

/-- Two readings of one chunk: what comes behind it for each of them, and what each of them has
complained about before, less than the limit. -/
structure Fork where
  chunk : Chunk
  behind : List Token
  behind' : List Token
  made : List Complaint
  made' : List Complaint
  room : made.length < maxErrors
  room' : made'.length < maxErrors

namespace Fork

variable {α β : Type} {w : Fork} {c c' d d' : Cursor} {front : List Token} {k : TokenKind}

/-- Both readings are before these tokens of the chunk and its semicolon. -/
structure Before (w : Fork) (front : List Token) (c c' : Cursor) : Prop where
  suffix : front <:+ w.chunk.tokens
  rest : c.rest = front ++ w.chunk.semicolon :: w.behind
  rest' : c'.rest = front ++ w.chunk.semicolon :: w.behind'
  depth : c'.depth = c.depth

/-- Both readings are inside the chunk, or before its semicolon, and nothing was complained about
in it. -/
structure Inside (w : Fork) (c c' : Cursor) : Prop where
  before : ∃ front, w.Before front c c'
  silent : c.complaints = w.made
  silent' : c'.complaints = w.made'

/-- Both readings are behind the chunk, and nothing was complained about in it. -/
structure Behind (w : Fork) (c c' : Cursor) : Prop where
  rest : c.rest = w.behind
  rest' : c'.rest = w.behind'
  depth : c'.depth = c.depth
  silent : c.complaints = w.made
  silent' : c'.complaints = w.made'

/-- Both readings have failed inside the chunk, with the same complaint about one of its tokens. -/
structure Stuck (w : Fork) (c c' : Cursor) : Prop where
  before : ∃ front, w.Before front c c'
  blamed : ∃ fault, ∃ t ∈ w.chunk.all,
    c.complaints = w.made ++ [⟨fault, t.span⟩] ∧ c'.complaints = w.made' ++ [⟨fault, t.span⟩]

/-- Inside the chunk, before such a token. -/
def InsideAt (w : Fork) (k : TokenKind) (c c' : Cursor) : Prop := w.Inside c c' ∧ c.kind = k

/-- Both readings have the same token of the chunk ahead. -/
theorem Inside.ahead (h : w.Inside c c') :
    ∃ t ∈ w.chunk.all, c.kind = t.kind ∧ c'.kind = t.kind ∧ c.here = t.span ∧ c'.here = t.span := by
  obtain ⟨front, hfront⟩ := h.before
  obtain ⟨rest, previous, complaints, depth⟩ := c
  obtain ⟨rest', previous', complaints', depth'⟩ := c'
  obtain rfl : rest = _ := hfront.rest
  obtain rfl : rest' = _ := hfront.rest'
  cases front with
  | nil => exact ⟨w.chunk.semicolon, by simp [Chunk.all], rfl, rfl, rfl, rfl⟩
  | cons t front =>
    have hmem : t ∈ w.chunk.tokens := hfront.suffix.subset List.mem_cons_self
    exact ⟨t, List.mem_append_left _ hmem, rfl, rfl, rfl, rfl⟩

theorem Inside.kind_eq (h : w.Inside c c') : c'.kind = c.kind := by
  obtain ⟨t, -, hk, hk', -⟩ := h.ahead
  exact hk'.trans hk.symm

theorem Inside.kind_not_barred (h : w.Inside c c') : c.kind ∉ Chunk.barred := by
  obtain ⟨t, ht, hk, -⟩ := h.ahead
  rw [hk]
  exact w.chunk.kind_not_barred ht

theorem Inside.complain (h : w.Inside c c') (fault : SourceFault) :
    w.Stuck (c.complain fault c.here) (c'.complain fault c'.here) := by
  obtain ⟨t, ht, -, -, hhere, hhere'⟩ := h.ahead
  obtain ⟨front, hfront⟩ := h.before
  have hroom : c.isFull = false := by simp [Cursor.isFull, h.silent, w.room]
  have hroom' : c'.isFull = false := by simp [Cursor.isFull, h.silent', w.room']
  have hc : c.complain fault c.here =
      { c with complaints := w.made ++ [⟨fault, t.span⟩] } := by
    simp [Cursor.complain, hroom, h.silent, hhere]
  have hc' : c'.complain fault c'.here =
      { c' with complaints := w.made' ++ [⟨fault, t.span⟩] } := by
    simp [Cursor.complain, hroom', h.silent', hhere']
  rw [hc, hc']
  exact ⟨⟨front, hfront.suffix, hfront.rest, hfront.rest', hfront.depth⟩, fault, t, ht, rfl, rfl⟩

/-- Until the semicolon both readings take the same tokens. -/
theorem Inside.advance (h : w.Inside c c') (hk : c.kind ≠ .symbol .semicolon) :
    w.Inside c.advance c'.advance := by
  obtain ⟨front, hfront⟩ := h.before
  obtain ⟨rest, previous, complaints, depth⟩ := c
  obtain ⟨rest', previous', complaints', depth'⟩ := c'
  obtain rfl : rest = _ := hfront.rest
  obtain rfl : rest' = _ := hfront.rest'
  cases front with
  | nil => exact absurd w.chunk.ends hk
  | cons t front =>
    have hsuffix := (List.suffix_cons t front).trans hfront.suffix
    exact ⟨⟨front, hsuffix, rfl, rfl, hfront.depth⟩, h.silent, h.silent'⟩

/-- The semicolon is where both readings come to the end of the chunk. -/
theorem Inside.advance_semicolon (h : w.Inside c c') (hk : c.kind = .symbol .semicolon) :
    w.Behind c.advance c'.advance := by
  obtain ⟨front, hfront⟩ := h.before
  obtain ⟨rest, previous, complaints, depth⟩ := c
  obtain ⟨rest', previous', complaints', depth'⟩ := c'
  obtain rfl : rest = _ := hfront.rest
  obtain rfl : rest' = _ := hfront.rest'
  cases front with
  | nil => exact ⟨rfl, rfl, hfront.depth, h.silent, h.silent'⟩
  | cons t front =>
    exact absurd hk (w.chunk.inside t (hfront.suffix.subset List.mem_cons_self)).1

end Fork

/-- Two readings end in the same way, at cursors that are related accordingly. -/
def Reading.Alike {α β : Type} (done failed : Cursor → Cursor → Prop) :
    Reading α → Reading β → Prop
  | .done _ d, .done _ d' => done d d'
  | .failed d, .failed d' => failed d d'
  | .exhausted, .exhausted => True
  | _, _ => False

namespace Reader

open Fork

variable {α β γ δ : Type} {w : Fork} {p q m : Cursor → Cursor → Prop} {k : TokenKind} {fuel : Nat}

/-- From related cursors the readers go side by side, to cursors that are related again or to where
both are stuck. What they read is of no interest. -/
def Alongside (w : Fork) (p q : Cursor → Cursor → Prop) (r : Reader α) (r' : Reader β) : Prop :=
  ∀ c c', p c c' → (r c).Alike q w.Stuck (r' c')

/-! Steps -/

theorem alongside_exhausted : Alongside w p q (exhausted : Reader α) (exhausted : Reader β) :=
  fun _ _ _ => trivial

theorem alongside_pure (a : α) (b : β) : Alongside w p p (Reader.pure a) (Reader.pure b) :=
  fun _ _ h => h

theorem Alongside.bind {r : Reader α} {r' : Reader β} {f : α → Reader γ} {f' : β → Reader δ}
    (h : Alongside w p m r r') (hf : ∀ a b, Alongside w m q (f a) (f' b)) :
    Alongside w p q (r >>= f) (r' >>= f') := by
  intro c c' hc
  have hr := h c c' hc
  rw [bind_apply, bind_apply]
  cases hread : r c <;> cases hread' : r' c' <;> rw [hread, hread'] at hr
  case done.done a d b d' => exact hf a b d d' hr
  case failed.failed => exact hr
  case exhausted.exhausted => trivial
  all_goals exact hr.elim

theorem Alongside.map {r : Reader α} {r' : Reader β} (f : α → γ) (f' : β → δ)
    (h : Alongside w p q r r') : Alongside w p q (f <$> r) (f' <$> r') := by
  rw [map_apply, map_apply]
  exact h.bind fun a b => alongside_pure _ _

theorem Alongside.ite {P : Prop} [Decidable P] {r s : Reader α} {r' s' : Reader β}
    (hr : Alongside w p q r r') (hs : Alongside w p q s s') :
    Alongside w p q (if P then r else s) (if P then r' else s') := by
  split
  · exact hr
  · exact hs

theorem Alongside.at {r : Reader α} {r' : Reader β} (h : Alongside w w.Inside q r r')
    (k : TokenKind) : Alongside w (w.InsideAt k) q r r' :=
  fun c c' hc => h c c' hc.1

/-- No chunk has such a token. -/
theorem alongside_barred (r : Reader α) (r' : Reader β) (hk : k ∈ Chunk.barred) :
    Alongside w (w.InsideAt k) q r r' :=
  fun _ _ hc => absurd (hc.2 ▸ hk) hc.1.kind_not_barred

theorem alongside_kind {f : TokenKind → Reader α} {f' : TokenKind → Reader β}
    (h : ∀ k, Alongside w (w.InsideAt k) q (f k) (f' k)) :
    Alongside w w.Inside q (kind >>= f) (kind >>= f') := by
  intro c c' hc
  change (f c.kind c).Alike q w.Stuck (f' c'.kind c')
  rw [hc.kind_eq]
  exact h c.kind c c' ⟨hc, rfl⟩

theorem alongside_next (hk : k ≠ .symbol .semicolon) :
    Alongside w (w.InsideAt k) w.Inside next next :=
  fun _ _ hc => hc.1.advance (hc.2 ▸ hk)

theorem alongside_semicolon : Alongside w (w.InsideAt (.symbol .semicolon)) w.Behind next next :=
  fun _ _ hc => hc.1.advance_semicolon hc.2

theorem alongside_expect {wanted : TokenKind} (hne : wanted ≠ .symbol .semicolon) :
    Alongside w w.Inside w.Inside (expect wanted) (expect wanted) := by
  intro c c' hc
  unfold expect
  rw [hc.kind_eq]
  by_cases hk : c.kind = wanted
  · simp only [if_pos hk]
    exact hc.advance (hk ▸ hne)
  · simp only [if_neg hk]
    exact hc.complain _

theorem alongside_expect_semicolon :
    Alongside w w.Inside w.Behind (expect (.symbol .semicolon)) (expect (.symbol .semicolon)) := by
  intro c c' hc
  unfold expect
  rw [hc.kind_eq]
  by_cases hk : c.kind = .symbol .semicolon
  · simp only [if_pos hk]
    exact hc.advance_semicolon hk
  · simp only [if_neg hk]
    exact hc.complain _

/-- What no chunk has is not found, so that nothing is read behind it. -/
theorem alongside_expect_barred {wanted : TokenKind} {f : Span → Reader α} {f' : Span → Reader β}
    (hwanted : wanted ∈ Chunk.barred) :
    Alongside w w.Inside q (expect wanted >>= f) (expect wanted >>= f') := by
  intro c c' hc
  have hk : c.kind ≠ wanted := fun hk => hc.kind_not_barred (hk ▸ hwanted)
  rw [bind_apply, bind_apply, expect, expect, hc.kind_eq]
  simp only [if_neg hk]
  exact hc.complain _

theorem alongside_name : Alongside w w.Inside w.Inside name name := by
  intro c c' hc
  unfold name
  rw [hc.kind_eq]
  cases hk : c.kind
  case name text => exact hc.advance (by simp [hk])
  all_goals exact hc.complain _

theorem alongside_accept {wanted : TokenKind} {f : Bool → Reader α} {f' : Bool → Reader β}
    (hne : wanted ≠ .symbol .semicolon) (h : ∀ taken, Alongside w w.Inside q (f taken) (f' taken)) :
    Alongside w w.Inside q (accept wanted >>= f) (accept wanted >>= f') := by
  intro c c' hc
  rw [accept_bind, accept_bind, hc.kind_eq]
  by_cases hk : c.kind = wanted
  · simp only [if_pos hk]
    exact h true _ _ (hc.advance (hk ▸ hne))
  · simp only [if_neg hk]
    exact h false _ _ hc

theorem alongside_fail (fault : TokenKind → SourceFault) :
    Alongside w w.Inside q (fail fault : Reader α) (fail fault : Reader β) := by
  intro c c' hc
  unfold fail
  rw [hc.kind_eq]
  exact hc.complain _

theorem alongside_spanFrom (start start' : Span) :
    Alongside w p p (spanFrom start) (spanFrom start') :=
  fun _ _ h => h

/-- One level deeper and back for both readings. -/
theorem Alongside.nested {r : Reader α} {r' : Reader β} (h : Alongside w w.Inside q r r')
    (hq : ∀ d d', q d d' → q { d with depth := d.depth - 1 } { d' with depth := d'.depth - 1 }) :
    Alongside w w.Inside q (nested r) (nested r') := by
  intro c c' hc
  obtain ⟨front, hfront⟩ := hc.before
  unfold Reader.nested
  rw [hfront.depth]
  split
  · exact hc.complain _
  · have hdeeper : w.Inside { c with depth := c.depth + 1 } { c' with depth := c.depth + 1 } :=
      ⟨⟨front, hfront.suffix, hfront.rest, hfront.rest', rfl⟩, hc.silent, hc.silent'⟩
    have hr := h _ _ hdeeper
    cases hread : r { c with depth := c.depth + 1 } <;>
      cases hread' : r' { c' with depth := c.depth + 1 } <;> rw [hread, hread'] at hr
    case done.done a d b d' => exact hq d d' hr
    case failed.failed d d' =>
      obtain ⟨⟨front, hd⟩, hblamed⟩ := hr
      exact ⟨⟨front, hd.suffix, hd.rest, hd.rest', congrArg (· - 1) hd.depth⟩, hblamed⟩
    case exhausted.exhausted => trivial
    all_goals exact hr.elim

theorem Alongside.nested_inside {r : Reader α} {r' : Reader β}
    (h : Alongside w w.Inside w.Inside r r') :
    Alongside w w.Inside w.Inside (Reader.nested r) (Reader.nested r') := by
  refine h.nested fun d d' hd => ?_
  obtain ⟨front, hfront⟩ := hd.before
  exact ⟨⟨front, hfront.suffix, hfront.rest, hfront.rest', congrArg (· - 1) hfront.depth⟩,
    hd.silent, hd.silent'⟩

theorem Alongside.after {r : Reader α} {r' : Reader β} {mark : TokenKind}
    (hne : mark ≠ .symbol .semicolon) (h : Alongside w w.Inside w.Inside r r') :
    Alongside w w.Inside w.Inside (after mark r) (after mark r') := by
  unfold Reader.after
  exact alongside_accept hne fun _ => .ite (h.map _ _) (alongside_pure _ _)

theorem Alongside.unlessAhead {r : Reader α} {r' : Reader β} (stop : TokenKind)
    (h : Alongside w w.Inside w.Inside r r') :
    Alongside w w.Inside w.Inside (unlessAhead stop r) (unlessAhead stop r') := by
  unfold Reader.unlessAhead
  exact alongside_kind fun k => .ite ((alongside_pure _ _).at k) ((h.map _ _).at k)

/-! Expressions -/

/-- The readers of expressions with so much fuel stay inside the chunk. -/
structure ExprsAlongside (w : Fork) (fuel : Nat) : Prop where
  expression : Alongside w w.Inside w.Inside (expression fuel) (expression fuel)
  chain : ∀ least, Alongside w w.Inside w.Inside (chain fuel least) (chain fuel least)
  operators : ∀ least left left',
    Alongside w w.Inside w.Inside (operators fuel least left) (operators fuel least left')
  unary : Alongside w w.Inside w.Inside (unary fuel) (unary fuel)
  postfixed : Alongside w w.Inside w.Inside (postfixed fuel) (postfixed fuel)
  suffixes : ∀ target target',
    Alongside w w.Inside w.Inside (suffixes fuel target) (suffixes fuel target')
  primary : Alongside w w.Inside w.Inside (primary fuel) (primary fuel)
  named : Alongside w w.Inside w.Inside (named fuel) (named fuel)
  expressions : ∀ close, close ≠ .semicolon →
    Alongside w w.Inside w.Inside (expressions fuel close) (expressions fuel close)
  someExpressions : Alongside w w.Inside w.Inside (someExpressions fuel) (someExpressions fuel)
  arrayLiteral :
    Alongside w (w.InsideAt (.keyword .array)) w.Inside (arrayLiteral fuel) (arrayLiteral fuel)
  structLiteral :
    Alongside w (w.InsideAt (.keyword .struct)) w.Inside (structLiteral fuel) (structLiteral fuel)

theorem alongside_chain (ih : ExprsAlongside w fuel) (least : Nat) :
    Alongside w w.Inside w.Inside (chain (fuel + 1) least) (chain (fuel + 1) least) := by
  unfold chain
  exact ih.unary.bind fun left left' => ih.operators least left left'

theorem alongside_operators (ih : ExprsAlongside w fuel) (least : Nat) (left left' : Expr) :
    Alongside w w.Inside w.Inside (operators (fuel + 1) least left)
      (operators (fuel + 1) least left') := by
  unfold operators
  refine alongside_kind fun k => ?_
  cases hop : k.binaryOp? with
  | none => exact (alongside_pure _ _).at k
  | some op =>
    have hk : k ≠ .symbol .semicolon := by
      rintro rfl
      cases hop
    refine .ite ((alongside_pure _ _).at k) ((alongside_next hk).bind fun _ _ => ?_)
    exact (ih.chain _).bind fun right right' => ih.operators _ _ _

theorem alongside_unary (ih : ExprsAlongside w fuel) :
    Alongside w w.Inside w.Inside (unary (fuel + 1)) (unary (fuel + 1)) := by
  unfold unary
  refine alongside_kind fun k => ?_
  cases hop : k.unaryOp? with
  | none => exact ih.postfixed.at k
  | some op =>
    have hk : k ≠ .symbol .semicolon := by
      rintro rfl
      cases hop
    exact (alongside_next hk).bind fun _ _ =>
      ih.unary.nested_inside.bind fun _ _ => alongside_pure _ _

theorem alongside_postfixed (ih : ExprsAlongside w fuel) :
    Alongside w w.Inside w.Inside (postfixed (fuel + 1)) (postfixed (fuel + 1)) := by
  unfold postfixed
  exact ih.primary.bind ih.suffixes

theorem alongside_suffixes (ih : ExprsAlongside w fuel) (target target' : Expr) :
    Alongside w w.Inside w.Inside (suffixes (fuel + 1) target) (suffixes (fuel + 1) target') := by
  unfold suffixes
  refine alongside_kind fun k => ?_
  split
  · refine (alongside_next (by simp)).bind fun _ _ => ih.expression.bind fun _ _ => ?_
    refine (alongside_expect (by simp)).bind fun _ _ => ?_
    refine alongside_accept (by simp) fun _ => .ite ?_ ?_
    · exact ih.expression.bind fun _ _ => alongside_pure _ _
    · exact (alongside_spanFrom _ _).bind fun _ _ => ih.suffixes _ _
  · refine (alongside_next (by simp)).bind fun _ _ => alongside_name.bind fun _ _ => ?_
    refine alongside_accept (by simp) fun _ => .ite ?_ (ih.suffixes _ _)
    exact ih.expression.bind fun _ _ => alongside_pure _ _
  · exact (alongside_pure _ _).at _

theorem alongside_primary (ih : ExprsAlongside w fuel) :
    Alongside w w.Inside w.Inside (primary (fuel + 1)) (primary (fuel + 1)) := by
  unfold primary
  refine alongside_kind fun k => ?_
  split
  · exact ih.arrayLiteral
  · exact ih.structLiteral
  · refine (alongside_next (by simp)).bind fun _ _ => ih.expression.nested_inside.bind fun _ _ => ?_
    refine (alongside_expect (by simp)).bind fun _ _ => ?_
    exact (alongside_spanFrom _ _).bind fun _ _ => alongside_pure _ _
  · exact ih.named.at _
  · cases hvalue : k.literal? with
    | some value =>
      have hk : k ≠ .symbol .semicolon := by
        rintro rfl
        cases hvalue
      exact (alongside_next hk).bind fun _ _ => alongside_pure _ _
    | none => exact (alongside_fail _).at k

theorem alongside_named (ih : ExprsAlongside w fuel) :
    Alongside w w.Inside w.Inside (named (fuel + 1)) (named (fuel + 1)) := by
  unfold named
  refine alongside_name.bind fun target target' => alongside_kind fun k => ?_
  split
  · exact (alongside_next (by simp)).bind fun _ _ =>
      ih.expression.bind fun _ _ => alongside_pure _ _
  · exact (alongside_next (by simp)).bind fun _ _ => alongside_pure _ _
  · exact (alongside_next (by simp)).bind fun _ _ => alongside_pure _ _
  · refine (alongside_next (by simp)).bind fun _ _ => ?_
    refine (ih.expressions _ (by simp)).bind fun _ _ => ?_
    exact (alongside_spanFrom _ _).bind fun _ _ => alongside_pure _ _
  · exact (alongside_pure _ _).at _

theorem alongside_expressions (ih : ExprsAlongside w fuel) (close : Symbol)
    (hclose : close ≠ .semicolon) :
    Alongside w w.Inside w.Inside (expressions (fuel + 1) close)
      (expressions (fuel + 1) close) := by
  unfold expressions
  refine alongside_kind fun k => ?_
  split
  · rename_i hk
    refine (alongside_next ?_).bind fun _ _ => alongside_pure _ _
    simpa [hk] using hclose
  · have hexpect : Alongside w w.Inside w.Inside (expect (.symbol close))
        (expect (.symbol close)) :=
      alongside_expect (by simpa using hclose)
    exact (ih.someExpressions.bind fun _ _ => hexpect.bind fun _ _ => alongside_pure _ _).at k

theorem alongside_someExpressions (ih : ExprsAlongside w fuel) :
    Alongside w w.Inside w.Inside (someExpressions (fuel + 1)) (someExpressions (fuel + 1)) := by
  unfold someExpressions
  refine ih.expression.bind fun _ _ => ?_
  refine alongside_accept (by simp) fun _ => .ite ?_ (alongside_pure _ _)
  exact ih.someExpressions.bind fun _ _ => alongside_pure _ _

theorem alongside_arrayLiteral (ih : ExprsAlongside w fuel) :
    Alongside w (w.InsideAt (.keyword .array)) w.Inside (arrayLiteral (fuel + 1))
      (arrayLiteral (fuel + 1)) := by
  unfold arrayLiteral
  refine (alongside_next (by simp)).bind fun _ _ => alongside_kind fun k => ?_
  split
  · exact alongside_barred _ _ (by simp [Chunk.barred])
  · refine (alongside_next (by simp)).bind fun _ _ => ih.expression.bind fun _ _ => ?_
    refine (alongside_expect (by simp)).bind fun _ _ => ?_
    exact (alongside_spanFrom _ _).bind fun _ _ => alongside_pure _ _
  · exact (alongside_fail _).at _

/-- A struct cannot be read without a brace. -/
theorem alongside_structLiteral :
    Alongside w (w.InsideAt (.keyword .struct)) w.Inside (structLiteral (fuel + 1))
      (structLiteral (fuel + 1)) := by
  unfold structLiteral
  exact (alongside_next (by simp)).bind fun _ _ => alongside_expect_barred (by simp [Chunk.barred])

theorem exprsAlongside (w : Fork) (fuel : Nat) : ExprsAlongside w fuel := by
  induction fuel with
  | zero => constructor <;> intros <;> exact alongside_exhausted
  | succ fuel ih =>
    exact {
      expression := ih.chain 1
      chain := alongside_chain ih
      operators := alongside_operators ih
      unary := alongside_unary ih
      postfixed := alongside_postfixed ih
      suffixes := alongside_suffixes ih
      primary := alongside_primary ih
      named := alongside_named ih
      expressions := alongside_expressions ih
      someExpressions := alongside_someExpressions ih
      arrayLiteral := alongside_arrayLiteral ih
      structLiteral := alongside_structLiteral
    }

end Reader

end ScriptEngine
