import ScriptEngine.Proofs.Reading.Outline
import ScriptEngine.Proofs.Reading.StmtLossless

/-!
What is said of the way that a reading takes, from one cursor to another, with the outline of what
was read on it. A reader takes tokens one by one, closes a node, goes a level deeper and comes back,
or complains; when something holds of these few steps and of ways joined end to end, it holds of all
readers. The recursion over the readers is done here, once for everything that is said in this form.
-/
namespace ScriptEngine

/-- The token that is there, when the fault is that another one was expected. -/
def SourceFault.got? : SourceFault → Option TokenKind
  | expected _ got => some got
  | expectedName got => some got
  | expectedExpression got => some got
  | expectedAggregate got => some got
  | _ => none

namespace Cursor

theorem previous_advance (c : Cursor) : c.advance.previous = c.here := by
  obtain ⟨rest, previous, complaints, depth⟩ := c
  cases rest <;> rfl

/-- A node begins with the token at which reading began, or with its first piece. -/
def Opens (c : Cursor) (a : Span) (parts : List Outline) : Prop :=
  a = c.here ∨ ∃ inner rest, parts = .node a inner :: rest

/-- A node ends with the token read last, or with its last piece. -/
def Closes (d : Cursor) (b : Span) (parts : List Outline) : Prop :=
  b = d.previous ∨ ∃ before inner, parts = before ++ [.node b inner]

end Cursor

namespace Reader

open Cursor

variable {α β : Type} {way narrow wide : List Outline → Cursor → Cursor → Prop}
  {failing : Cursor → Cursor → Prop} {parts parts' : List Outline} {b c d e : Cursor} {fuel : Nat}

/-- The steps of which the way to a result is made, and the way to a failure. -/
structure Way (way : List Outline → Cursor → Cursor → Prop) (failing : Cursor → Cursor → Prop) :
    Prop where
  refl : ∀ c, way [] c c
  trans : ∀ {parts parts' c d e}, way parts c d → way parts' d e → way (parts ++ parts') c e
  advance : ∀ {k} {c : Cursor}, c.kind = k → k ≠ .endOfFile → way [.token k] c c.advance
  close : ∀ {parts a b} {c d : Cursor}, way parts c d → parts ≠ [] → c.Opens a parts →
    d.Closes b parts → way [.node (a.merge b) parts] c d
  nested : ∀ {parts} {c d : Cursor}, c.depth < maxNesting →
    way parts { c with depth := c.depth + 1 } d → way parts c { d with depth := d.depth - 1 }
  fail : ∀ {parts c d e}, way parts c d → failing d e → failing c e
  fail_nested : ∀ {c d : Cursor}, c.depth < maxNesting →
    failing { c with depth := c.depth + 1 } d → failing c { d with depth := d.depth - 1 }
  complain : ∀ (c : Cursor) fault, fault.got? = none ∨ fault.got? = some c.kind →
    failing c (c.complain fault c.here)

/-- What is composed along with the readers. The narrow ways are those over an expression, on which
only a field that is there twice can be complained about; the wide ones are those over statements,
some of which may have failed. -/
structure Composed (narrow wide : List Outline → Cursor → Cursor → Prop)
    (failing : Cursor → Cursor → Prop) : Prop where
  expr : Way narrow failing
  stmt : Way wide failing
  widen : ∀ {parts c d}, narrow parts c d → wide parts c d
  opened : ∀ {span parts c d}, wide [.node span parts] c d → wide parts c d
  field : ∀ {name parts} {c d : Cursor}, c.kind = .name name → narrow parts c.advance d →
    narrow ((Name.mk name c.here).outline :: parts) c (d.complain (.duplicateField name) c.here)
  parameter : ∀ {name} {c : Cursor}, c.kind = .name name →
    wide [(Name.mk name c.here).outline] c
      (c.advance.complain (.duplicateParameter name) c.here)
  stray : ∀ {c : Cursor}, c.kind = .symbol .rightBrace →
    wide [] c (c.complain .strayBrace c.here).advance
  recover : ∀ {c d : Cursor}, c.kind ≠ .endOfFile → failing c d → wide [] c (c.recover d)

/-- The reader, begun at the cursor, takes such a way over what it gives, or fails at the end of
such another. -/
def Takes (way : List Outline → Cursor → Cursor → Prop) (failing : Cursor → Cursor → Prop)
    (r : Reader α) (outline : α → List Outline) (c : Cursor) : Prop :=
  (r c).Meets (fun a d => way (outline a) c d) (failing c) True

/-- The reader goes on behind an expression that began at some cursor before. -/
def Prolongs (way : List Outline → Cursor → Cursor → Prop) (failing : Cursor → Cursor → Prop)
    (r : Reader Expr) (left : Expr) : Prop :=
  ∀ b c, way [left.outline] b c → (r c).Meets (fun e d => way [e.outline] b d) (failing b) True

namespace Way

/-! Steps -/

/-- A node that is a single token. -/
theorem leaf (w : Way way failing) {k : TokenKind} (hk : c.kind = k) (hne : k ≠ .endOfFile) :
    way [.node c.here [.token k]] c c.advance := by
  have h := w.close (w.advance hk hne) (by simp) (.inl rfl) (.inl rfl)
  rwa [previous_advance, Span.merge_of_le (Position.le_refl _) (Position.le_refl _)] at h

/-- A reading goes on from `d`, which was come to from `c`, and that from `b`. -/
theorem step_behind (w : Way way failing) {r : Reader α} {f : α → Reader β}
    {outline : α → List Outline} {Q : β → Cursor → Prop} (hb : way parts' b c)
    (h : way parts c d) (hr : r.Takes way failing outline d)
    (hnext : ∀ a e, way (parts ++ outline a) c e → (f a e).Meets Q (failing b) True) :
    ((r >>= f) d).Meets Q (failing b) True :=
  Reading.Meets.bind hr (fun a e he => hnext a e (w.trans h he))
    (fun _ he => w.fail hb (w.fail h he)) (fun h => h)

theorem step (w : Way way failing) {r : Reader α} {f : α → Reader β} {outline : α → List Outline}
    {Q : β → Cursor → Prop} (h : way parts c d) (hr : r.Takes way failing outline d)
    (hnext : ∀ a e, way (parts ++ outline a) c e → (f a e).Meets Q (failing c) True) :
    ((r >>= f) d).Meets Q (failing c) True :=
  w.step_behind (w.refl c) h hr hnext

theorem next (w : Way way failing) {f : Span → Reader β} {Q : β → Cursor → Prop} {k : TokenKind}
    (h : way parts c d) (hk : d.kind = k) (hne : k ≠ .endOfFile)
    (hnext : ∀ e, e.previous = d.here → way (parts ++ [.token k]) c e →
      (f d.here e).Meets Q (failing c) True) :
    ((next >>= f) d).Meets Q (failing c) True :=
  hnext d.advance (previous_advance d) (w.trans h (w.advance hk hne))

theorem expect_behind (w : Way way failing) {f : Span → Reader β} {Q : β → Cursor → Prop}
    {wanted : TokenKind} (hb : way parts' b c) (h : way parts c d) (hne : wanted ≠ .endOfFile)
    (hnext : ∀ e, e.previous = d.here → way (parts ++ [.token wanted]) c e →
      (f d.here e).Meets Q (failing b) True) :
    ((Reader.expect wanted >>= f) d).Meets Q (failing b) True := by
  rw [bind_apply, Reader.expect]
  by_cases hk : d.kind = wanted
  · rw [if_pos hk]
    exact hnext d.advance (previous_advance d) (w.trans h (w.advance hk hne))
  · rw [if_neg hk]
    exact w.fail hb (w.fail h (w.complain d _ (.inr rfl)))

theorem expect (w : Way way failing) {f : Span → Reader β} {Q : β → Cursor → Prop}
    {wanted : TokenKind} (h : way parts c d) (hne : wanted ≠ .endOfFile)
    (hnext : ∀ e, e.previous = d.here → way (parts ++ [.token wanted]) c e →
      (f d.here e).Meets Q (failing c) True) :
    ((Reader.expect wanted >>= f) d).Meets Q (failing c) True :=
  w.expect_behind (w.refl c) h hne hnext

theorem takes_name (w : Way way failing) (c : Cursor) :
    name.Takes way failing (fun a => [a.outline]) c := by
  refine (name_meets c).mono ?_ ?_ (fun h => h)
  · rintro ⟨text, span⟩ d ⟨hk, rfl, rfl⟩
    exact w.leaf hk (by simp)
  · rintro d rfl
    exact w.complain c _ (.inr rfl)

theorem takes_nested (w : Way way failing) {r : Reader α} {outline : α → List Outline}
    (hr : ∀ c, r.Takes way failing outline c) (c : Cursor) :
    (Reader.nested r).Takes way failing outline c := by
  unfold Takes
  rw [Reader.nested]
  split
  · exact w.complain c _ (.inl rfl)
  · have hdepth : c.depth < maxNesting := Nat.lt_of_not_le ‹_›
    have h := hr { c with depth := c.depth + 1 }
    unfold Takes at h
    cases hread : r { c with depth := c.depth + 1 } with
    | done a d =>
      rw [hread] at h
      exact w.nested hdepth h
    | failed d =>
      rw [hread] at h
      exact w.fail_nested hdepth h
    | exhausted => trivial

/-! Parts that may be missing -/

theorem takes_after (w : Way way failing) {mark : TokenKind} {r : Reader α}
    (outline : α → List Outline) (hne : mark ≠ .endOfFile)
    (hr : ∀ c, r.Takes way failing outline c) (c : Cursor) :
    (Reader.after mark r).Takes way failing
      (fun a => a.elim [] fun a => .token mark :: outline a) c := by
  unfold Reader.after Takes
  rw [accept_bind]
  split
  · rw [if_pos rfl, map_apply]
    exact w.step (w.advance ‹_› hne) (hr _) fun _ _ hd => hd
  · exact w.refl c

theorem takes_unlessAhead (w : Way way failing) {stop : TokenKind} {r : Reader α}
    {outline : α → List Outline} (hr : r.Takes way failing outline c) :
    (Reader.unlessAhead stop r).Takes way failing (fun a => a.elim [] outline) c := by
  unfold Reader.unlessAhead
  apply meets_kind
  intro k _
  split
  · exact w.refl c
  · rw [map_apply]
    exact w.step (w.refl c) hr fun _ _ hd => hd

end Way

namespace Composed

/-! Expressions -/

/-- The readers of expressions with so much fuel take narrow ways. -/
structure Exprs (narrow : List Outline → Cursor → Cursor → Prop)
    (failing : Cursor → Cursor → Prop) (fuel : Nat) : Prop where
  expression : ∀ c, (expression fuel).Takes narrow failing (fun e => [e.outline]) c
  chain : ∀ least c, (chain fuel least).Takes narrow failing (fun e => [e.outline]) c
  operators : ∀ least left, (operators fuel least left).Prolongs narrow failing left
  unary : ∀ c, (unary fuel).Takes narrow failing (fun e => [e.outline]) c
  postfixed : ∀ c, (postfixed fuel).Takes narrow failing (fun e => [e.outline]) c
  suffixes : ∀ target, (suffixes fuel target).Prolongs narrow failing target
  primary : ∀ c, (primary fuel).Takes narrow failing (fun e => [e.outline]) c
  named : ∀ c, (named fuel).Takes narrow failing (fun e => [e.outline]) c
  expressions : ∀ close c, (expressions fuel close).Takes narrow failing
    (fun items => Expr.itemParts items ++ [.token (.symbol close)]) c
  someExpressions : ∀ c, (someExpressions fuel c).Meets
    (fun items d => items ≠ [] ∧ narrow (Expr.itemParts items) c d) (failing c) True
  arrayLiteral : ∀ c, c.kind = .keyword .array →
    (arrayLiteral fuel).Takes narrow failing (fun e => [e.outline]) c
  structLiteral : ∀ c, c.kind = .keyword .struct →
    (structLiteral fuel).Takes narrow failing (fun e => [e.outline]) c
  structFields : ∀ seen c, (structFields fuel seen).Takes narrow failing Expr.fieldParts c

theorem takes_chain (rules : Composed narrow wide failing) (ih : Exprs narrow failing fuel)
    (least : Nat) (c : Cursor) :
    (chain (fuel + 1) least).Takes narrow failing (fun e => [e.outline]) c := by
  unfold chain
  apply rules.expr.step (rules.expr.refl c) (ih.unary c)
  intro left d hd
  exact ih.operators least left c d hd

theorem prolongs_operators (rules : Composed narrow wide failing) (ih : Exprs narrow failing fuel)
    (least : Nat) (left : Expr) :
    (operators (fuel + 1) least left).Prolongs narrow failing left := by
  intro b c hc
  unfold operators
  apply meets_kind
  intro k hk
  cases hop : k.binaryOp? with
  | none => exact hc
  | some op =>
    dsimp only
    split
    · exact hc
    · have hk := hk.trans (BinaryOp.symbol_of_binaryOp? hop)
      apply rules.expr.next hc hk (by simp)
      intro d _ hd
      apply rules.expr.step hd (ih.chain _ d)
      intro right d hd
      exact ih.operators _ _ b d
        (rules.expr.close hd (Expr.parts_ne_nil _) (.inr ⟨_, _, rfl⟩) (.inr ⟨[_, _], _, rfl⟩))

theorem takes_unary (rules : Composed narrow wide failing) (ih : Exprs narrow failing fuel)
    (c : Cursor) : (unary (fuel + 1)).Takes narrow failing (fun e => [e.outline]) c := by
  unfold unary
  apply meets_kind
  intro k hk
  cases hop : k.unaryOp? with
  | none => exact ih.postfixed c
  | some op =>
    have hk := hk.trans (UnaryOp.symbol_of_unaryOp? hop)
    apply rules.expr.next (rules.expr.refl c) hk (by simp)
    intro d _ hd
    apply rules.expr.step hd (rules.expr.takes_nested ih.unary d)
    intro operand d hd
    exact rules.expr.close hd (Expr.parts_ne_nil _) (.inl rfl) (.inr ⟨[_], _, rfl⟩)

theorem takes_postfixed (rules : Composed narrow wide failing) (ih : Exprs narrow failing fuel)
    (c : Cursor) : (postfixed (fuel + 1)).Takes narrow failing (fun e => [e.outline]) c := by
  unfold postfixed
  apply rules.expr.step (rules.expr.refl c) (ih.primary c)
  intro target d hd
  exact ih.suffixes target c d hd

theorem prolongs_suffixes (rules : Composed narrow wide failing) (ih : Exprs narrow failing fuel)
    (target : Expr) : (suffixes (fuel + 1) target).Prolongs narrow failing target := by
  intro b c hc
  unfold suffixes
  apply meets_kind
  intro k hk
  split
  · apply rules.expr.next hc hk (by simp)
    intro d _ hd
    apply rules.expr.step hd (ih.expression d)
    intro place d hd
    apply rules.expr.expect hd (by simp)
    intro d _ hd
    rw [accept_bind]
    split
    · have hd := rules.expr.trans hd (rules.expr.advance ‹_› (by simp))
      apply rules.expr.step hd (ih.expression _)
      intro value d hd
      exact rules.expr.close hd (Expr.parts_ne_nil _) (.inr ⟨_, _, rfl⟩)
        (.inr ⟨[_, _, _, _, _], _, rfl⟩)
    · rw [if_neg (by simp), spanFrom_bind]
      exact ih.suffixes _ b d
        (rules.expr.close hd (Expr.parts_ne_nil _) (.inr ⟨_, _, rfl⟩) (.inl rfl))
  · apply rules.expr.next hc hk (by simp)
    intro d _ hd
    apply rules.expr.step hd (rules.expr.takes_name d)
    intro member d hd
    rw [accept_bind]
    split
    · have hd := rules.expr.trans hd (rules.expr.advance ‹_› (by simp))
      apply rules.expr.step hd (ih.expression _)
      intro value d hd
      exact rules.expr.close hd (Expr.parts_ne_nil _) (.inr ⟨_, _, rfl⟩)
        (.inr ⟨[_, _, _, _], _, rfl⟩)
    · exact ih.suffixes _ b d
        (rules.expr.close hd (Expr.parts_ne_nil _) (.inr ⟨_, _, rfl⟩) (.inr ⟨[_, _], _, rfl⟩))
  · exact hc

theorem takes_primary (rules : Composed narrow wide failing) (ih : Exprs narrow failing fuel)
    (c : Cursor) : (primary (fuel + 1)).Takes narrow failing (fun e => [e.outline]) c := by
  unfold primary
  apply meets_kind
  intro k hk
  split
  · exact ih.arrayLiteral c hk
  · exact ih.structLiteral c hk
  · apply rules.expr.next (rules.expr.refl c) hk (by simp)
    intro d _ hd
    apply rules.expr.step hd (rules.expr.takes_nested ih.expression d)
    intro inner d hd
    apply rules.expr.expect hd (by simp)
    intro d _ hd
    exact rules.expr.close hd (Expr.parts_ne_nil _) (.inl rfl) (.inl rfl)
  · exact ih.named c
  · cases hvalue : k.literal? with
    | some value =>
      obtain rfl := Literal.kind_of_literal? hvalue
      refine rules.expr.leaf hk fun hend => ?_
      rw [hend] at hvalue
      cases hvalue
    | none => exact rules.expr.complain c _ (.inr rfl)

theorem takes_named (rules : Composed narrow wide failing) (ih : Exprs narrow failing fuel)
    (c : Cursor) : (named (fuel + 1)).Takes narrow failing (fun e => [e.outline]) c := by
  unfold named
  apply rules.expr.step (rules.expr.refl c) (rules.expr.takes_name c)
  intro target d hd
  apply meets_kind
  intro k hk
  split
  · apply rules.expr.next hd hk (by simp)
    intro d _ hd
    apply rules.expr.step hd (ih.expression d)
    intro value d hd
    exact rules.expr.close hd (Expr.parts_ne_nil _) (.inr ⟨_, _, rfl⟩) (.inr ⟨[_, _], _, rfl⟩)
  · apply rules.expr.next hd hk (by simp)
    intro e he hd
    exact rules.expr.close hd (Expr.parts_ne_nil _) (.inr ⟨_, _, rfl⟩) (.inl he.symm)
  · apply rules.expr.next hd hk (by simp)
    intro e he hd
    exact rules.expr.close hd (Expr.parts_ne_nil _) (.inr ⟨_, _, rfl⟩) (.inl he.symm)
  · apply rules.expr.next hd hk (by simp)
    intro d _ hd
    apply rules.expr.step hd (ih.expressions _ d)
    intro arguments d hd
    exact rules.expr.close hd (Expr.parts_ne_nil _) (.inr ⟨_, _, rfl⟩) (.inl rfl)
  · exact hd

theorem takes_expressions (rules : Composed narrow wide failing) (ih : Exprs narrow failing fuel)
    (close : Symbol) (c : Cursor) :
    (expressions (fuel + 1) close).Takes narrow failing
      (fun items => Expr.itemParts items ++ [.token (.symbol close)]) c := by
  unfold expressions
  apply meets_kind
  intro k hk
  split
  · rename_i hclose
    apply rules.expr.next (rules.expr.refl c) (hk.trans hclose) (by simp)
    exact fun d _ hd => hd
  · refine Reading.Meets.bind (ih.someExpressions c) ?_ (fun _ h => h) (fun h => h)
    rintro items d ⟨-, hd⟩
    apply rules.expr.expect hd (by simp)
    exact fun d _ hd => hd

theorem takes_someExpressions (rules : Composed narrow wide failing)
    (ih : Exprs narrow failing fuel) (c : Cursor) :
    (someExpressions (fuel + 1) c).Meets
      (fun items d => items ≠ [] ∧ narrow (Expr.itemParts items) c d) (failing c) True := by
  unfold someExpressions
  apply rules.expr.step (rules.expr.refl c) (ih.expression c)
  intro item d hd
  rw [accept_bind]
  split
  · have hd := rules.expr.trans hd (rules.expr.advance ‹_› (by simp))
    refine Reading.Meets.bind (ih.someExpressions _) ?_ (fun _ => rules.expr.fail hd)
      (fun h => h)
    rintro items e ⟨hne, he⟩
    obtain ⟨next, rest, rfl⟩ := List.exists_cons_of_ne_nil hne
    exact ⟨by simp, rules.expr.trans hd he⟩
  · exact ⟨by simp, hd⟩

theorem takes_arrayLiteral (rules : Composed narrow wide failing) (ih : Exprs narrow failing fuel)
    (c : Cursor) (hk : c.kind = .keyword .array) :
    (arrayLiteral (fuel + 1)).Takes narrow failing (fun e => [e.outline]) c := by
  unfold arrayLiteral
  apply rules.expr.next (rules.expr.refl c) hk (by simp)
  intro d _ hd
  apply meets_kind
  intro k hk
  split
  · apply rules.expr.next hd hk (by simp)
    intro d _ hd
    apply rules.expr.step hd (ih.expressions _ d)
    intro items d hd
    exact rules.expr.close hd (Expr.parts_ne_nil _) (.inl rfl) (.inl rfl)
  · apply rules.expr.next hd hk (by simp)
    intro d _ hd
    apply rules.expr.step hd (ih.expression d)
    intro size d hd
    apply rules.expr.expect hd (by simp)
    intro d _ hd
    exact rules.expr.close hd (Expr.parts_ne_nil _) (.inl rfl) (.inl rfl)
  · exact rules.expr.fail hd (rules.expr.complain d _ (.inr rfl))

theorem takes_structLiteral (rules : Composed narrow wide failing)
    (ih : Exprs narrow failing fuel) (c : Cursor) (hk : c.kind = .keyword .struct) :
    (structLiteral (fuel + 1)).Takes narrow failing (fun e => [e.outline]) c := by
  unfold structLiteral
  apply rules.expr.next (rules.expr.refl c) hk (by simp)
  intro d _ hd
  apply rules.expr.expect hd (by simp)
  intro d _ hd
  apply rules.expr.step hd (ih.structFields _ d)
  intro fields d hd
  apply rules.expr.expect hd (by simp)
  intro d _ hd
  have hd : narrow (Expr.struct fields (c.here.merge d.previous)).parts c d := by
    simpa [Expr.parts] using hd
  exact rules.expr.close hd (Expr.parts_ne_nil _) (.inl rfl) (.inl rfl)

/-- Whether a field is there twice is asked only behind its value, and the complaint points back to
its name. -/
theorem takes_structFields (rules : Composed narrow wide failing)
    (ih : Exprs narrow failing fuel) (seen : List String) (c : Cursor) :
    (structFields (fuel + 1) seen).Takes narrow failing Expr.fieldParts c := by
  unfold structFields
  apply meets_kind
  intro k hk
  split
  · exact rules.expr.refl c
  · refine (name_meets c).bind ?_ ?_ (fun h => h)
    · rintro ⟨text, span⟩ d ⟨hname, rfl, rfl⟩
      have hc := rules.expr.leaf hname (by simp)
      apply rules.expr.expect_behind hc (rules.expr.refl _) (by simp)
      intro d _ hd
      apply rules.expr.step_behind hc hd (ih.expression d)
      intro value d hd
      apply rules.expr.expect_behind hc hd (by simp)
      intro d _ hd
      refine meets_complainIf fun e he => ?_
      have he : narrow [(Name.mk text c.here).outline, .token (.symbol .assign), value.outline,
          .token (.symbol .semicolon)] c e := by
        rcases he with rfl | rfl
        · exact rules.expr.trans hc hd
        · exact rules.field hname hd
      exact rules.expr.step he (ih.structFields _ e) fun _ _ hd => hd
    · rintro d rfl
      exact rules.expr.complain c _ (.inr rfl)

theorem exprs (rules : Composed narrow wide failing) (fuel : Nat) : Exprs narrow failing fuel := by
  induction fuel with
  | zero =>
    -- Every reader is exhausted, and nothing is said of that.
    constructor
    case operators => exact fun _ _ _ _ _ => trivial
    case suffixes => exact fun _ _ _ _ => trivial
    all_goals intros; trivial
  | succ fuel ih =>
    exact {
      expression := ih.chain 1
      chain := rules.takes_chain ih
      operators := rules.prolongs_operators ih
      unary := rules.takes_unary ih
      postfixed := rules.takes_postfixed ih
      suffixes := rules.prolongs_suffixes ih
      primary := rules.takes_primary ih
      named := rules.takes_named ih
      expressions := rules.takes_expressions ih
      someExpressions := rules.takes_someExpressions ih
      arrayLiteral := rules.takes_arrayLiteral ih
      structLiteral := rules.takes_structLiteral ih
      structFields := rules.takes_structFields ih
    }

/-! Parts of statements that contain no statements -/

theorem takes_expression (rules : Composed narrow wide failing) (c : Cursor) :
    (expression fuel).Takes wide failing (fun e => [e.outline]) c :=
  Reading.Meets.mono ((rules.exprs fuel).expression c) (fun _ _ => rules.widen) (fun _ h => h)
    (fun h => h)

theorem takes_condition (rules : Composed narrow wide failing) (c : Cursor) :
    (condition fuel).Takes wide failing
      (fun e => [.token (.symbol .leftParen), e.outline, .token (.symbol .rightParen)]) c := by
  unfold condition
  apply rules.stmt.expect (rules.stmt.refl c) (by simp)
  intro d _ hd
  apply rules.stmt.step hd (rules.takes_expression d)
  intro test d hd
  apply rules.stmt.expect hd (by simp)
  exact fun d _ hd => hd

theorem takes_declaration (rules : Composed narrow wide failing) (hk : c.kind = .keyword .var) :
    (declaration fuel).Takes wide failing (fun s => [s.outline]) c := by
  unfold declaration
  apply rules.stmt.next (rules.stmt.refl c) hk (by simp)
  intro d _ hd
  apply rules.stmt.step hd (rules.stmt.takes_name d)
  intro target d hd
  apply rules.stmt.step hd (rules.stmt.takes_after _ (by simp) rules.takes_expression d)
  intro init d hd
  apply rules.stmt.expect hd (by simp)
  intro d _ hd
  exact rules.stmt.close hd (Stmt.parts_ne_nil _) (.inl rfl) (.inl rfl)

theorem takes_loopJump (rules : Composed narrow wide failing) {jump : LoopJump}
    (hk : c.kind = .keyword jump.word) :
    (loopJump jump).Takes wide failing (fun s => [s.outline]) c := by
  unfold loopJump
  apply rules.stmt.next (rules.stmt.refl c) hk (by simp)
  intro d _ hd
  apply rules.stmt.expect hd (by simp)
  intro d _ hd
  exact rules.stmt.close hd (Stmt.parts_ne_nil _) (.inl rfl) (.inl rfl)

theorem takes_transfer (rules : Composed narrow wide failing) {kind : Transfer}
    (hk : c.kind = .keyword kind.word) :
    (transfer fuel kind).Takes wide failing (fun s => [s.outline]) c := by
  unfold transfer
  apply rules.stmt.next (rules.stmt.refl c) hk (by simp)
  intro d _ hd
  apply rules.stmt.step hd (rules.stmt.takes_unlessAhead (rules.takes_expression d))
  intro value d hd
  apply rules.stmt.expect hd (by simp)
  intro d _ hd
  exact rules.stmt.close hd (Stmt.parts_ne_nil _) (.inl rfl) (.inl rfl)

theorem takes_expressionStatement (rules : Composed narrow wide failing) (c : Cursor) :
    (expressionStatement fuel).Takes wide failing (fun s => [s.outline]) c := by
  unfold expressionStatement
  apply rules.stmt.step (rules.stmt.refl c) (rules.takes_expression c)
  intro value d hd
  apply rules.stmt.expect hd (by simp)
  intro d _ hd
  exact rules.stmt.close hd (Stmt.parts_ne_nil _) (.inr ⟨_, _, rfl⟩) (.inl rfl)

/-- Whether a parameter is there twice is asked as soon as it is read. -/
theorem takes_parameters (rules : Composed narrow wide failing) (fuel : Nat) (seen : List String)
    (c : Cursor) :
    (parameters fuel seen c).Meets
      (fun params d => params ≠ [] ∧ wide (Stmt.nameParts params) c d) (failing c) True := by
  induction fuel generalizing seen c with
  | zero => trivial
  | succ fuel ih =>
    unfold parameters
    refine (name_meets c).bind ?_ ?_ (fun h => h)
    · rintro ⟨text, span⟩ d ⟨hname, rfl, rfl⟩
      refine meets_complainIf fun d hd => ?_
      have hd : wide [(Name.mk text c.here).outline] c d := by
        rcases hd with rfl | rfl
        · exact rules.stmt.leaf hname (by simp)
        · exact rules.parameter hname
      rw [accept_bind]
      split
      · have hd := rules.stmt.trans hd (rules.stmt.advance ‹_› (by simp))
        refine Reading.Meets.bind (ih _ _) ?_ (fun _ => rules.stmt.fail hd) (fun h => h)
        rintro params e ⟨hne, he⟩
        obtain ⟨next, rest, rfl⟩ := List.exists_cons_of_ne_nil hne
        exact ⟨by simp, rules.stmt.trans hd he⟩
      · exact ⟨by simp, hd⟩
    · rintro d rfl
      exact rules.stmt.complain c _ (.inr rfl)

theorem takes_parameterList (rules : Composed narrow wide failing) (c : Cursor) :
    (parameterList fuel).Takes wide failing (fun params =>
      .token (.symbol .leftParen) ::
        (Stmt.nameParts params ++ [.token (.symbol .rightParen)])) c := by
  unfold parameterList
  apply rules.stmt.expect (rules.stmt.refl c) (by simp)
  intro d _ hd
  have hparams : (parameters fuel []).Takes wide failing Stmt.nameParts d :=
    (rules.takes_parameters fuel [] d).mono (fun _ _ h => h.2) (fun _ h => h) (fun h => h)
  apply rules.stmt.step hd (rules.stmt.takes_unlessAhead hparams)
  intro params d hd
  apply rules.stmt.expect hd (by simp)
  intro d _ hd
  cases params with
  | none => exact hd
  | some params => exact hd

theorem takes_handlerParameter (rules : Composed narrow wide failing) (c : Cursor) :
    handlerParameter.Takes wide failing Stmt.handlerParts c := by
  unfold handlerParameter
  refine rules.stmt.takes_after (fun param : Name => [param.outline, .token (.symbol .rightParen)])
    (by simp) (fun d => ?_) c
  apply rules.stmt.step (rules.stmt.refl d) (rules.stmt.takes_name d)
  intro param e he
  apply rules.stmt.expect he (by simp)
  exact fun e _ he => he

/-! Statements -/

/-- The readers of statements with so much fuel take wide ways. -/
structure Stmts (wide : List Outline → Cursor → Cursor → Prop)
    (failing : Cursor → Cursor → Prop) (fuel : Nat) : Prop where
  statement : ∀ c, (statement fuel).Takes wide failing (fun s => [s.outline]) c
  statementKind : ∀ c, (statementKind fuel).Takes wide failing (fun s => [s.outline]) c
  statements : ∀ c, (statements fuel).Takes wide failing Stmt.bodyParts c
  block : ∀ c, (block fuel).Takes wide failing
    (fun b => [.node b.2 (Stmt.bracedParts (Stmt.bodyParts b.1))]) c
  function : ∀ c, c.kind = .keyword .function →
    (function fuel).Takes wide failing (fun s => [s.outline]) c
  branch : ∀ c, c.kind = .keyword .if → (branch fuel).Takes wide failing (fun s => [s.outline]) c
  loop : ∀ c, c.kind = .keyword .while → (loop fuel).Takes wide failing (fun s => [s.outline]) c
  attempt : ∀ c, c.kind = .keyword .try →
    (attempt fuel).Takes wide failing (fun s => [s.outline]) c

/-- The body of a function or of a handler is a part of it, without a node of its own. -/
theorem takes_bare_block (rules : Composed narrow wide failing) (ih : Stmts wide failing fuel)
    (c : Cursor) :
    (block fuel).Takes wide failing (fun b => Stmt.bracedParts (Stmt.bodyParts b.1)) c :=
  Reading.Meets.mono (ih.block c) (fun _ _ => rules.opened) (fun _ h => h) (fun h => h)

theorem takes_statementKind (rules : Composed narrow wide failing) (ih : Stmts wide failing fuel)
    (c : Cursor) :
    (statementKind (fuel + 1)).Takes wide failing (fun s => [s.outline]) c := by
  unfold statementKind
  apply meets_kind
  intro k hk
  split
  · exact rules.stmt.step (rules.stmt.refl c) (ih.block c) fun _ _ hd => hd
  · rw [map_apply]
    exact rules.stmt.leaf hk (by simp)
  · exact rules.takes_declaration hk
  · exact ih.function c hk
  · exact ih.branch c hk
  · exact ih.loop c hk
  · exact ih.attempt c hk
  · rename_i word _ _ _ _ _
    cases hjump : word.loopJump? with
    | some jump =>
      rw [← LoopJump.word_of_loopJump? hjump] at hk
      exact rules.takes_loopJump hk
    | none =>
      cases htransfer : word.transfer? with
      | some kind =>
        rw [← Transfer.word_of_transfer? htransfer] at hk
        exact rules.takes_transfer hk
      | none => exact rules.takes_expressionStatement c
  · exact rules.takes_expressionStatement c

/-- A statement that fails is left behind, and reading goes on from where recovery stops. -/
theorem takes_orRecover (rules : Composed narrow wide failing) {r : Reader Stmt}
    (hr : r.Takes wide failing (fun s => [s.outline]) c) (hc : c.kind ≠ .endOfFile) :
    (orRecover r).Takes wide failing (fun s => Stmt.bodyParts s.toList) c := by
  unfold Takes at *
  rw [orRecover]
  cases hread : r c with
  | done s d =>
    rw [hread] at hr
    exact hr
  | failed d =>
    rw [hread] at hr
    exact rules.recover hc hr
  | exhausted => trivial

theorem takes_statements (rules : Composed narrow wide failing) (ih : Stmts wide failing fuel)
    (c : Cursor) : (statements (fuel + 1)).Takes wide failing Stmt.bodyParts c := by
  unfold statements
  apply meets_kind
  intro k hk
  split
  · exact rules.stmt.refl c
  · rename_i hmore
    have hc : c.kind ≠ .endOfFile := fun hend => hmore (Or.inr (hk.symm.trans hend))
    rw [isFull_bind]
    split
    · exact rules.stmt.refl c
    · apply rules.stmt.step (rules.stmt.refl c) (rules.takes_orRecover (ih.statement c) hc)
      intro first d hd
      apply rules.stmt.step hd (ih.statements d)
      intro others d hd
      rw [List.nil_append, ← Stmt.bodyParts_append] at hd
      exact hd

theorem takes_block (rules : Composed narrow wide failing) (ih : Stmts wide failing fuel)
    (c : Cursor) :
    (block (fuel + 1)).Takes wide failing
      (fun b => [.node b.2 (Stmt.bracedParts (Stmt.bodyParts b.1))]) c := by
  unfold block
  apply rules.stmt.expect (rules.stmt.refl c) (by simp)
  intro d _ hd
  apply rules.stmt.step hd (ih.statements d)
  intro body d hd
  apply rules.stmt.expect hd (by simp)
  intro d _ hd
  exact rules.stmt.close hd (by simp [Stmt.bracedParts]) (.inl rfl) (.inl rfl)

theorem takes_function (rules : Composed narrow wide failing) (ih : Stmts wide failing fuel)
    (c : Cursor) (hk : c.kind = .keyword .function) :
    (function (fuel + 1)).Takes wide failing (fun s => [s.outline]) c := by
  unfold function
  apply rules.stmt.next (rules.stmt.refl c) hk (by simp)
  intro d _ hd
  apply rules.stmt.step hd (rules.stmt.takes_name d)
  intro target d hd
  apply rules.stmt.step hd (rules.takes_parameterList d)
  intro params d hd
  apply rules.stmt.step hd (rules.takes_bare_block ih d)
  intro body d hd
  have hd : wide (Stmt.function target params body.1 (c.here.merge d.previous)).parts c d := by
    simpa [Stmt.parts] using hd
  exact rules.stmt.close hd (Stmt.parts_ne_nil _) (.inl rfl) (.inl rfl)

theorem takes_branch (rules : Composed narrow wide failing) (ih : Stmts wide failing fuel)
    (c : Cursor) (hk : c.kind = .keyword .if) :
    (branch (fuel + 1)).Takes wide failing (fun s => [s.outline]) c := by
  unfold branch
  apply rules.stmt.next (rules.stmt.refl c) hk (by simp)
  intro d _ hd
  apply rules.stmt.step hd (rules.takes_condition d)
  intro test d hd
  apply rules.stmt.step hd (ih.statement d)
  intro thenBranch d hd
  apply rules.stmt.step hd (rules.stmt.takes_after _ (by simp) ih.statement d)
  intro elseBranch d hd
  have hclose := rules.stmt.close hd (by simp) (.inl rfl) (.inl rfl)
  cases elseBranch with
  | none => exact hclose
  | some other => exact hclose

theorem takes_loop (rules : Composed narrow wide failing) (ih : Stmts wide failing fuel)
    (c : Cursor) (hk : c.kind = .keyword .while) :
    (loop (fuel + 1)).Takes wide failing (fun s => [s.outline]) c := by
  unfold loop
  apply rules.stmt.next (rules.stmt.refl c) hk (by simp)
  intro d _ hd
  apply rules.stmt.step hd (rules.takes_condition d)
  intro test d hd
  apply rules.stmt.step hd (ih.statement d)
  intro body d hd
  exact rules.stmt.close hd (Stmt.parts_ne_nil _) (.inl rfl) (.inl rfl)

theorem takes_attempt (rules : Composed narrow wide failing) (ih : Stmts wide failing fuel)
    (c : Cursor) (hk : c.kind = .keyword .try) :
    (attempt (fuel + 1)).Takes wide failing (fun s => [s.outline]) c := by
  unfold attempt
  apply rules.stmt.next (rules.stmt.refl c) hk (by simp)
  intro d _ hd
  apply rules.stmt.step hd (ih.block d)
  intro body d hd
  -- The clause is a node of its own, which begins here.
  apply rules.stmt.expect_behind hd (rules.stmt.refl d) (by simp)
  intro e _ he
  apply rules.stmt.step_behind hd he (rules.takes_handlerParameter e)
  intro param e he
  apply rules.stmt.step_behind hd he (rules.takes_bare_block ih e)
  intro handler e he
  have hd := rules.stmt.trans hd (rules.stmt.close he (by simp) (.inl rfl) (.inl rfl))
  have hd : wide (Stmt.attempt body.1 body.2 param handler.1 (d.here.merge e.previous)
      (c.here.merge e.previous)).parts c e := by
    simpa [Stmt.parts] using hd
  exact rules.stmt.close hd (Stmt.parts_ne_nil _) (.inl rfl) (.inl rfl)

theorem stmts (rules : Composed narrow wide failing) (fuel : Nat) : Stmts wide failing fuel := by
  induction fuel with
  | zero => constructor <;> intros <;> trivial
  | succ fuel ih =>
    exact {
      statement := rules.stmt.takes_nested ih.statementKind
      statementKind := rules.takes_statementKind ih
      statements := rules.takes_statements ih
      block := rules.takes_block ih
      function := rules.takes_function ih
      branch := rules.takes_branch ih
      loop := rules.takes_loop ih
      attempt := rules.takes_attempt ih
    }

/-- The way over a whole script is a wide one. -/
theorem takes_script (rules : Composed narrow wide failing) (fuel : Nat) (c : Cursor) :
    (script fuel).Takes wide failing Stmt.bodyParts c := by
  induction fuel generalizing c with
  | zero => trivial
  | succ fuel ih =>
    unfold script
    apply meets_kind
    intro k hk
    split
    · exact rules.stmt.refl c
    · rename_i hmore
      have hc : c.kind ≠ .endOfFile := by rwa [hk]
      rw [isFull_bind]
      split
      · exact rules.stmt.refl c
      · split
        · rename_i hbrace
          rw [here_bind, complain_bind]
          have hstray := rules.stray (hk.trans hbrace)
          exact (ih _).mono (fun _ _ => rules.stmt.trans hstray)
            (fun _ => rules.stmt.fail hstray) (fun h => h)
        · apply rules.stmt.step (rules.stmt.refl c)
            (rules.takes_orRecover ((rules.stmts fuel).statement c) hc)
          intro first d hd
          apply rules.stmt.step hd (ih d)
          intro others d hd
          rw [List.nil_append, ← Stmt.bodyParts_append] at hd
          exact hd

end Composed

end Reader

end ScriptEngine
