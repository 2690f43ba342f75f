import ScriptEngine.Proofs.Reading.Listing
import ScriptEngine.Proofs.Reading.Tiling

/-!
A tree as it lies on the page: every node is made of smaller nodes and of the tokens between them.
When an outline fits the tokens of a text, each node has a stretch of them for itself, and its span
reaches from the first of these tokens to the last. As tokens lie side by side, the nodes inside a
node stay inside its span, one behind the other.
-/
namespace ScriptEngine

/-- A token, or a node with its span and what it is made of, in reading order. -/
inductive Outline where
  | token (kind : TokenKind)
  | node (span : Span) (parts : List Outline)

/-- The span reaches from the first of the tokens to the last. -/
def Span.Covers (span : Span) (tokens : List Token) : Prop :=
  ∃ first last, tokens.head? = some first ∧ tokens.getLast? = some last ∧
    span = ⟨first.span.start, last.span.stop⟩

namespace Span.Covers

variable {a b : Span} {tokens some left right : List Token}

theorem singleton (t : Token) : t.span.Covers [t] := ⟨t, t, rfl, rfl, rfl⟩

theorem ne_nil (h : a.Covers tokens) : tokens ≠ [] := by
  obtain ⟨first, last, hfirst, -⟩ := h
  rintro rfl
  cases hfirst

theorem exists_mem (h : a.Covers tokens) :
    (∃ t ∈ tokens, a.start = t.span.start) ∧ ∃ t ∈ tokens, a.stop = t.span.stop := by
  obtain ⟨first, last, hfirst, hlast, rfl⟩ := h
  exact ⟨⟨first, List.mem_of_mem_head? hfirst, rfl⟩, ⟨last, List.mem_of_getLast? hlast, rfl⟩⟩

/-- No token reaches beyond the span that covers all of them. -/
theorem le_of_mem (h : a.Covers tokens) (happart : Token.Apart tokens) :
    ∀ t ∈ tokens, a.start ≤ t.span.start ∧ t.span.stop ≤ a.stop := by
  obtain ⟨first, last, hfirst, hlast, rfl⟩ := h
  obtain ⟨rest, hrest⟩ := List.head?_eq_some_iff.1 hfirst
  obtain ⟨before, hbefore⟩ := List.getLast?_eq_some_iff.1 hlast
  intro t ht
  constructor
  · rw [hrest] at happart ht
    exact happart.start_le t ht
  · rw [hbefore] at happart ht
    exact happart.le_stop t ht

/-- The span of some of the tokens lies inside the span of all of them. -/
theorem inside (h : a.Covers tokens) (h' : b.Covers some) (hsome : some ⊆ tokens)
    (happart : Token.Apart tokens) : a.start ≤ b.start ∧ b.stop ≤ a.stop := by
  obtain ⟨⟨t, ht, hstart⟩, u, hu, hstop⟩ := h'.exists_mem
  rw [hstart, hstop]
  exact ⟨(h.le_of_mem happart t (hsome ht)).1, (h.le_of_mem happart u (hsome hu)).2⟩

theorem stop_lt_start (h : a.Covers left) (h' : b.Covers right)
    (happart : ∀ t ∈ left, ∀ u ∈ right, t.span.stop < u.span.start) : a.stop < b.start := by
  obtain ⟨-, t, ht, hstop⟩ := h.exists_mem
  obtain ⟨⟨u, hu, hstart⟩, -⟩ := h'.exists_mem
  rw [hstop, hstart]
  exact happart t ht u hu

/-- Merging the span of what comes first with the span of what comes last covers everything. -/
theorem merge (h : a.Covers left) (h' : b.Covers right) (hleft : left <+: tokens)
    (hright : right <:+ tokens) (happart : Token.Apart tokens) : (a.merge b).Covers tokens := by
  obtain ⟨first, last, hfirst, -, ha⟩ := id h
  obtain ⟨first', last', -, hlast, hb⟩ := id h'
  have hcover : (Span.mk first.span.start last'.span.stop).Covers tokens := by
    obtain ⟨rest, rfl⟩ := hleft
    obtain ⟨before, hbefore⟩ := hright
    refine ⟨first, last', by rw [List.head?_append, hfirst]; rfl, ?_, rfl⟩
    rw [← hbefore, List.getLast?_append, hlast]
    rfl
  have hstart : a.start ≤ b.start := by
    rw [ha]
    exact (hcover.inside h' hright.subset happart).1
  have hstop : a.stop ≤ b.stop := by
    rw [hb]
    exact (hcover.inside h hleft.subset happart).2
  rw [merge_of_le hstart hstop, ha, hb]
  exact hcover

end Span.Covers

namespace Outline

def span? : Outline → Option Span
  | token _ => none
  | node span _ => some span

/-- The spans of the nodes among the pieces. -/
def spans (parts : List Outline) : List Span := parts.filterMap span?

mutual

/-- The tokens are those of the outline, and every node covers its own. -/
def Fits : Outline → List Token → Prop
  | token kind, tokens => ∃ t, tokens = [t] ∧ t.kind = kind
  | node span parts, tokens => span.Covers tokens ∧ AllFit parts tokens

/-- The tokens are those of the pieces, one after the other. -/
def AllFit : List Outline → List Token → Prop
  | [], tokens => tokens = []
  | piece :: rest, tokens =>
    ∃ left right, tokens = left ++ right ∧ piece.Fits left ∧ AllFit rest right

end

mutual

/-- In every node, the nodes that it is made of lie inside its span, each behind the one before. -/
def Nested : Outline → Prop
  | token _ => True
  | node span parts =>
    AllNested parts ∧ (∀ inner ∈ spans parts, span.start ≤ inner.start ∧ inner.stop ≤ span.stop) ∧
      (spans parts).Pairwise fun a b => a.stop < b.start

def AllNested : List Outline → Prop
  | [] => True
  | piece :: rest => piece.Nested ∧ AllNested rest

end

theorem Fits.ne_nil {piece : Outline} {tokens : List Token} (h : piece.Fits tokens) :
    tokens ≠ [] := by
  cases piece with
  | token kind =>
    obtain ⟨t, rfl, -⟩ := h
    simp
  | node span parts => exact h.1.ne_nil

theorem allFit_singleton {piece : Outline} {tokens : List Token} (h : piece.Fits tokens) :
    AllFit [piece] tokens :=
  ⟨tokens, [], (List.append_nil _).symm, h, rfl⟩

theorem AllFit.ne_nil {parts : List Outline} {tokens : List Token} (h : AllFit parts tokens)
    (hne : parts ≠ []) : tokens ≠ [] := by
  obtain ⟨piece, rest, rfl⟩ := List.exists_cons_of_ne_nil hne
  obtain ⟨left, right, rfl, hpiece, -⟩ := h
  simp [hpiece.ne_nil]

theorem AllFit.append {parts parts' : List Outline} {tokens tokens' : List Token}
    (h : AllFit parts tokens) (h' : AllFit parts' tokens') :
    AllFit (parts ++ parts') (tokens ++ tokens') := by
  induction parts generalizing tokens with
  | nil =>
    obtain rfl : tokens = [] := h
    exact h'
  | cons piece rest ih =>
    obtain ⟨left, right, rfl, hpiece, hrest⟩ := h
    exact ⟨left, right ++ tokens', List.append_assoc _ _ _, hpiece, ih hrest⟩

theorem AllFit.exists_append {parts parts' : List Outline} {tokens : List Token}
    (h : AllFit (parts ++ parts') tokens) :
    ∃ left right, tokens = left ++ right ∧ AllFit parts left ∧ AllFit parts' right := by
  induction parts generalizing tokens with
  | nil => exact ⟨[], tokens, rfl, rfl, h⟩
  | cons piece rest ih =>
    obtain ⟨left, right, rfl, hpiece, hrest⟩ := h
    obtain ⟨left', right', rfl, hleft, hright⟩ := ih hrest
    exact ⟨left ++ left', right', (List.append_assoc _ _ _).symm,
      ⟨left, left', rfl, hpiece, hleft⟩, hright⟩

/-- A node among the pieces covers some of their tokens. -/
theorem AllFit.exists_covers {parts : List Outline} {tokens : List Token} (h : AllFit parts tokens)
    {span : Span} (hspan : span ∈ spans parts) : ∃ some, some ⊆ tokens ∧ span.Covers some := by
  induction parts generalizing tokens with
  | nil => cases hspan
  | cons piece rest ih =>
    obtain ⟨left, right, rfl, hpiece, hrest⟩ := h
    have hcases : piece.span? = some span ∨ span ∈ spans rest := by
      simpa [spans, List.mem_filterMap] using hspan
    rcases hcases with hspan | hspan
    · cases piece with
      | token kind => cases hspan
      | node s parts =>
        obtain rfl : s = span := Option.some.inj hspan
        exact ⟨left, List.subset_append_left _ _, hpiece.1⟩
    · obtain ⟨some, hsome, hcovers⟩ := ih hrest hspan
      exact ⟨some, fun t ht => List.mem_append_right _ (hsome ht), hcovers⟩

/-- Nodes that follow one another have their tokens one behind the other. -/
theorem AllFit.pairwise {parts : List Outline} {tokens : List Token} (h : AllFit parts tokens)
    (happart : Token.Apart tokens) : (spans parts).Pairwise fun a b => a.stop < b.start := by
  induction parts generalizing tokens with
  | nil => exact .nil
  | cons piece rest ih =>
    obtain ⟨left, right, rfl, hpiece, hrest⟩ := h
    have htail := ih hrest (happart.of_sublist (List.sublist_append_right _ _))
    cases piece with
    | token kind => exact htail
    | node span parts =>
      refine List.pairwise_cons.2 ⟨fun inner hinner => ?_, htail⟩
      obtain ⟨some, hsome, hcovers⟩ := hrest.exists_covers hinner
      exact hpiece.1.stop_lt_start hcovers fun t ht u hu =>
        (List.pairwise_append.1 happart.next).2.2 t ht u (hsome hu)

mutual

/-- Where tokens lie side by side, nodes that fit them are nested. -/
theorem Fits.nested : ∀ {piece : Outline} {tokens : List Token}, piece.Fits tokens →
    Token.Apart tokens → piece.Nested
  | .token _, _, _, _ => trivial
  | .node _ _, _, ⟨hcovers, hparts⟩, happart => by
    refine ⟨hparts.nested happart, fun inner hinner => ?_, hparts.pairwise happart⟩
    obtain ⟨some, hsome, hinner⟩ := hparts.exists_covers hinner
    exact hcovers.inside hinner hsome happart

theorem AllFit.nested : ∀ {parts : List Outline} {tokens : List Token}, AllFit parts tokens →
    Token.Apart tokens → AllNested parts
  | [], _, _, _ => trivial
  | _ :: _, _, ⟨_, _, htokens, hpiece, hrest⟩, happart => by
    subst htokens
    exact ⟨hpiece.nested (happart.of_sublist (List.sublist_append_left _ _)),
      hrest.nested (happart.of_sublist (List.sublist_append_right _ _))⟩

end

end Outline

/-! The outline of a tree -/

def Name.outline (name : Name) : Outline := .node name.span [.token (.name name.text)]

namespace Expr

mutual

/-- What an expression is made of. A variable is the same node as its name. -/
def parts : Expr → List Outline
  | literal value _ => [.token value.kind]
  | .variable name => [.token (.name name.text)]
  | assign target value _ =>
    [target.outline, .token (.symbol .assign), .node value.span value.parts]
  | adjust target step _ => [target.outline, .token (.symbol step.symbol)]
  | array items _ =>
    .token (.keyword .array) :: .token (.symbol .leftBrace) ::
      (itemParts items ++ [.token (.symbol .rightBrace)])
  | arrayOfSize size _ =>
    [.token (.keyword .array), .token (.symbol .leftBracket), .node size.span size.parts,
      .token (.symbol .rightBracket)]
  | struct fields _ =>
    .token (.keyword .struct) :: .token (.symbol .leftBrace) ::
      (fieldParts fields ++ [.token (.symbol .rightBrace)])
  | index target place _ =>
    [.node target.span target.parts, .token (.symbol .leftBracket), .node place.span place.parts,
      .token (.symbol .rightBracket)]
  | assignIndex target place value _ =>
    [.node target.span target.parts, .token (.symbol .leftBracket), .node place.span place.parts,
      .token (.symbol .rightBracket), .token (.symbol .assign), .node value.span value.parts]
  | member target name _ =>
    [.node target.span target.parts, .token (.symbol .dot), name.outline]
  | assignMember target name value _ =>
    [.node target.span target.parts, .token (.symbol .dot), name.outline,
      .token (.symbol .assign), .node value.span value.parts]
  | binary op left right _ =>
    [.node left.span left.parts, .token (.symbol op.symbol), .node right.span right.parts]
  | unary op operand _ => [.token (.symbol op.symbol), .node operand.span operand.parts]
  | call callee arguments _ =>
    callee.outline :: .token (.symbol .leftParen) ::
      (itemParts arguments ++ [.token (.symbol .rightParen)])
  | paren inner _ =>
    [.token (.symbol .leftParen), .node inner.span inner.parts, .token (.symbol .rightParen)]

def itemParts : List Expr → List Outline
  | [] => []
  | [e] => [.node e.span e.parts]
  | e :: next :: rest =>
    .node e.span e.parts :: .token (.symbol .comma) :: itemParts (next :: rest)

def fieldParts : List (Name × Expr) → List Outline
  | [] => []
  | (name, e) :: rest =>
    name.outline :: .token (.symbol .assign) :: .node e.span e.parts ::
      .token (.symbol .semicolon) :: fieldParts rest

end

def outline (e : Expr) : Outline := .node e.span e.parts

theorem parts_ne_nil (e : Expr) : e.parts ≠ [] := by
  cases e <;> simp [parts]

end Expr

namespace Stmt

def nameParts : List Name → List Outline
  | [] => []
  | [name] => [name.outline]
  | name :: next :: rest => name.outline :: .token (.symbol .comma) :: nameParts (next :: rest)

def initParts (init : Option Expr) : List Outline :=
  init.elim [] fun e => [.token (.symbol .assign), e.outline]

def valueParts (value : Option Expr) : List Outline := value.elim [] fun e => [e.outline]

def handlerParts (param : Option Name) : List Outline :=
  param.elim [] fun name =>
    [.token (.symbol .leftParen), name.outline, .token (.symbol .rightParen)]

def bracedParts (body : List Outline) : List Outline :=
  .token (.symbol .leftBrace) :: (body ++ [.token (.symbol .rightBrace)])

mutual

/-- What a statement is made of. The body and the clause of an attempt are nodes of their own. -/
def parts : Stmt → List Outline
  | declare name init _ =>
    .token (.keyword .var) :: name.outline :: (initParts init ++ [.token (.symbol .semicolon)])
  | function name params body _ =>
    .token (.keyword .function) :: name.outline :: .token (.symbol .leftParen) ::
      (nameParts params ++ .token (.symbol .rightParen) :: bracedParts (bodyParts body))
  | block body _ => bracedParts (bodyParts body)
  | branch condition thenBranch elseBranch _ =>
    .token (.keyword .if) :: .token (.symbol .leftParen) :: condition.outline ::
      .token (.symbol .rightParen) :: .node thenBranch.span thenBranch.parts :: elseParts elseBranch
  | loop condition body _ =>
    [.token (.keyword .while), .token (.symbol .leftParen), condition.outline,
      .token (.symbol .rightParen), .node body.span body.parts]
  | jump kind _ => [.token (.keyword kind.word), .token (.symbol .semicolon)]
  | transfer kind value _ =>
    .token (.keyword kind.word) :: (valueParts value ++ [.token (.symbol .semicolon)])
  | attempt body bodySpan param handler handlerSpan _ =>
    [.token (.keyword .try), .node bodySpan (bracedParts (bodyParts body)),
      .node handlerSpan
        (.token (.keyword .catch) :: (handlerParts param ++ bracedParts (bodyParts handler)))]
  | expression value _ => [value.outline, .token (.symbol .semicolon)]
  | empty _ => [.token (.symbol .semicolon)]

def bodyParts : List Stmt → List Outline
  | [] => []
  | s :: rest => .node s.span s.parts :: bodyParts rest

def elseParts : Option Stmt → List Outline
  | some s => [.token (.keyword .else), .node s.span s.parts]
  | none => []

end

def outline (s : Stmt) : Outline := .node s.span s.parts

theorem parts_ne_nil (s : Stmt) : s.parts ≠ [] := by
  cases s <;> simp [parts, bracedParts]

theorem bodyParts_append (body rest : List Stmt) :
    bodyParts (body ++ rest) = bodyParts body ++ bodyParts rest := by
  induction body with
  | nil => rfl
  | cons s body ih => simp only [List.cons_append, bodyParts, ih]

end Stmt

def Program.outline (program : Program) : Outline :=
  .node program.span (Stmt.bodyParts program.body)

end ScriptEngine
