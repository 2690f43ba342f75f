import ScriptEngine.Proofs.Reading.Listing
import ScriptEngine.Tree.Program

/-!
Reading does not look at places. A reader that gets tokens without places reads what it reads otherwise,
without places, makes the same complaints and stops before the same token. Places only go into what is
read and into complaints, and whatever is put together from no places has none.
-/
namespace ScriptEngine

/-! Without places -/

def Token.bare (t : Token) : Token := ⟨t.kind, default⟩

def Complaint.bare (c : Complaint) : Complaint := ⟨c.fault, default⟩

def Cursor.bare (c : Cursor) : Cursor :=
  ⟨c.rest.map Token.bare, default, c.complaints.map Complaint.bare, c.depth⟩

/-- The same reading under a view of its result, without places. -/
def Reading.bare {α β : Type} (view : α → β) : Reading α → Reading β
  | .done a c => .done (view a) c.bare
  | .failed c => .failed c.bare
  | .exhausted => .exhausted

theorem Span.merge_default : Span.merge default default = default := by decide

theorem Expr.span_bare (e : Expr) : e.bare.span = default := by
  cases e <;> rfl

theorem Expr.merge_bare (a b : Expr) : a.bare.span.merge b.bare.span = default := by
  rw [span_bare, span_bare, Span.merge_default]

theorem Name.merge_bare (name : Name) (e : Expr) : name.bare.span.merge e.bare.span = default := by
  rw [Expr.span_bare]
  exact Span.merge_default

namespace Cursor

theorem kind_bare (c : Cursor) : c.bare.kind = c.kind := by
  unfold kind bare
  cases c.rest <;> rfl

theorem here_bare (c : Cursor) : c.bare.here = default := by
  unfold here bare
  cases c.rest <;> rfl

theorem advance_bare (c : Cursor) : c.bare.advance = c.advance.bare := by
  obtain ⟨rest, previous, complaints, depth⟩ := c
  cases rest <;> rfl

theorem isFull_bare (c : Cursor) : c.bare.isFull = c.isFull := by
  unfold isFull bare
  rw [List.length_map]

theorem complain_bare (c : Cursor) (fault : SourceFault) (span : Span) :
    c.bare.complain fault default = (c.complain fault span).bare := by
  unfold complain
  rw [isFull_bare]
  split
  · rfl
  · unfold bare
    rw [List.map_append]
    rfl

theorem skipFrom_bare (moved : Bool) (previous : Span) (tokens : List Token) :
    skipFrom moved default (tokens.map Token.bare) =
      ((skipFrom moved previous tokens).1.map Token.bare, default) := by
  induction tokens generalizing moved previous with
  | nil => rfl
  | cons t rest ih =>
    rw [List.map_cons]
    unfold skipFrom
    change (if t.kind = .endOfFile then (t.bare :: rest.map Token.bare, default)
      else if t.kind = .symbol .semicolon then (rest.map Token.bare, default)
      else if moved && isBoundary t.kind then (t.bare :: rest.map Token.bare, default)
      else skipFrom true default (rest.map Token.bare)) = _
    rw [ih true t.span]
    split
    · rfl
    · split
      · rfl
      · split <;> rfl

theorem recover_bare (before c : Cursor) : before.bare.recover c.bare = (before.recover c).bare := by
  have hmoved : decide (c.bare.rest.length < before.bare.rest.length) =
      decide (c.rest.length < before.rest.length) := by
    unfold bare
    rw [List.length_map, List.length_map]
  have hskip : skipFrom (c.bare.rest.length < before.bare.rest.length) c.bare.previous c.bare.rest =
      ((skipFrom (c.rest.length < before.rest.length) c.previous c.rest).1.map Token.bare, default) := by
    rw [hmoved]
    exact skipFrom_bare _ _ _
  unfold recover
  rw [hskip]
  rfl

end Cursor

namespace Reader

variable {α β γ δ : Type} {fuel : Nat}

/-- Without places the second reader reads the view of what the first one reads. -/
def Blind (view : α → β) (r : Reader α) (r' : Reader β) : Prop := ∀ c, r' c.bare = (r c).bare view

theorem Blind.bind {view : α → β} {view' : γ → δ} {r : Reader α} {r' : Reader β}
    {f : α → Reader γ} {g : β → Reader δ} (h : Blind view r r')
    (hf : ∀ a, Blind view' (f a) (g (view a))) : Blind view' (r >>= f) (r' >>= g) := by
  intro c
  rw [bind_apply, bind_apply, h c]
  cases r c with
  | done a d => exact hf a d
  | failed d => rfl
  | exhausted => rfl

theorem blind_pure {view : α → β} {a : α} {b : β} (h : b = view a) :
    Blind view (Pure.pure a) (Pure.pure b) := by
  subst h
  exact fun _ => rfl

theorem blind_exhausted (view : α → β) : Blind view exhausted exhausted := fun _ => rfl

theorem blind_kind : Blind id kind kind := by
  intro c
  unfold kind
  rw [c.kind_bare]
  rfl

theorem Blind.kind_bind {view : α → β} {f : TokenKind → Reader α} {g : TokenKind → Reader β}
    (h : ∀ ahead, Blind view (f ahead) (g ahead)) : Blind view (kind >>= f) (kind >>= g) :=
  blind_kind.bind h

theorem blind_here : Blind (fun _ => default) here here := by
  intro c
  unfold here
  rw [c.here_bare]
  rfl

theorem blind_next : Blind (fun _ => default) next next := by
  intro c
  unfold next
  rw [c.here_bare, c.advance_bare]
  rfl

theorem blind_isFull : Blind id isFull isFull := by
  intro c
  unfold isFull
  rw [c.isFull_bare]
  rfl

theorem blind_spanFrom (start : Span) :
    Blind (fun _ => default) (spanFrom start) (spanFrom default) := by
  intro c
  change Reading.done (Span.merge default default) c.bare = _
  rw [Span.merge_default]
  rfl

theorem blind_complain (fault : SourceFault) (span : Span) :
    Blind id (complain fault span) (complain fault default) := by
  intro c
  unfold complain
  rw [c.complain_bare fault span]
  rfl

theorem blind_complainIf (bad : Bool) (fault : SourceFault) (span : Span) :
    Blind id (complainIf bad fault span) (complainIf bad fault default) := by
  unfold complainIf
  cases bad with
  | true => exact blind_complain fault span
  | false => exact blind_pure rfl

theorem blind_fail (view : α → β) (fault : TokenKind → SourceFault) :
    Blind view (fail fault) (fail fault) := by
  intro c
  unfold fail
  rw [c.kind_bare, c.here_bare, c.complain_bare _ c.here]
  rfl

theorem blind_accept (wanted : TokenKind) : Blind id (accept wanted) (accept wanted) := by
  intro c
  unfold accept
  rw [c.kind_bare, c.advance_bare]
  split <;> rfl

theorem blind_expect (wanted : TokenKind) :
    Blind (fun _ => default) (expect wanted) (expect wanted) := by
  intro c
  unfold expect
  rw [c.kind_bare, c.advance_bare, c.here_bare, c.complain_bare _ c.here]
  split <;> rfl

theorem blind_name : Blind Name.bare name name := by
  intro c
  unfold name
  rw [c.kind_bare, c.advance_bare, c.here_bare]
  cases c.kind with
  | name text => rfl
  | _ => exact congrArg Reading.failed (c.complain_bare _ _)

theorem Blind.map {view : α → β} {view' : γ → δ} {r : Reader α} {r' : Reader β} {f : α → γ}
    {g : β → δ} (h : Blind view r r') (hf : ∀ a, g (view a) = view' (f a)) :
    Blind view' (f <$> r) (g <$> r') := by
  rw [map_eq_pure_bind, map_eq_pure_bind]
  exact h.bind fun a => blind_pure (hf a)

theorem blind_after {view : α → β} (mark : TokenKind) {r : Reader α} {r' : Reader β}
    (h : Blind view r r') : Blind (Option.map view) (after mark r) (after mark r') := by
  refine (blind_accept mark).bind fun accepted => ?_
  cases accepted with
  | true => exact h.map fun _ => rfl
  | false => exact blind_pure rfl

theorem blind_unlessAhead {view : α → β} (stop : TokenKind) {r : Reader α} {r' : Reader β}
    (h : Blind view r r') : Blind (Option.map view) (unlessAhead stop r) (unlessAhead stop r') := by
  refine blind_kind.bind fun ahead => ?_
  change Blind _ (if ahead = stop then _ else _) (if ahead = stop then _ else _)
  split
  · exact blind_pure rfl
  · exact h.map fun _ => rfl

theorem blind_nested {view : α → β} {r : Reader α} {r' : Reader β} (h : Blind view r r') :
    Blind view (nested r) (nested r') := by
  intro c
  have hinner : r' { c.bare with depth := c.bare.depth + 1 } =
      (r { c with depth := c.depth + 1 }).bare view := h { c with depth := c.depth + 1 }
  unfold nested
  by_cases hdeep : maxNesting ≤ c.depth
  · have hdeep' : maxNesting ≤ c.bare.depth := hdeep
    rw [if_pos hdeep, if_pos hdeep', c.here_bare, c.complain_bare _ c.here]
    rfl
  · have hdeep' : ¬ maxNesting ≤ c.bare.depth := hdeep
    rw [if_neg hdeep, if_neg hdeep', hinner]
    cases r { c with depth := c.depth + 1 } <;> rfl

theorem blind_orRecover {r : Reader Stmt} {r' : Reader Stmt} (h : Blind Stmt.bare r r') :
    Blind (Option.map Stmt.bare) (orRecover r) (orRecover r') := by
  intro c
  unfold orRecover
  rw [h c]
  cases r c with
  | done s d => rfl
  | failed d => exact congrArg (Reading.done none) (c.recover_bare d)
  | exhausted => rfl

/-! Expressions -/

/-- With so much fuel the readers of expressions do not look at places. -/
structure BlindExprs (fuel : Nat) : Prop where
  expression : Blind Expr.bare (expression fuel) (expression fuel)
  chain : ∀ least, Blind Expr.bare (chain fuel least) (chain fuel least)
  operators : ∀ least left,
    Blind Expr.bare (operators fuel least left) (operators fuel least left.bare)
  unary : Blind Expr.bare (unary fuel) (unary fuel)
  postfixed : Blind Expr.bare (postfixed fuel) (postfixed fuel)
  suffixes : ∀ target, Blind Expr.bare (suffixes fuel target) (suffixes fuel target.bare)
  primary : Blind Expr.bare (primary fuel) (primary fuel)
  named : Blind Expr.bare (named fuel) (named fuel)
  expressions : ∀ close, Blind Expr.bareItems (expressions fuel close) (expressions fuel close)
  someExpressions : Blind Expr.bareItems (someExpressions fuel) (someExpressions fuel)
  arrayLiteral : Blind Expr.bare (arrayLiteral fuel) (arrayLiteral fuel)
  structLiteral : Blind Expr.bare (structLiteral fuel) (structLiteral fuel)
  structFields : ∀ seen, Blind Expr.bareFields (structFields fuel seen) (structFields fuel seen)

theorem blind_chain (ih : BlindExprs fuel) (least : Nat) :
    Blind Expr.bare (chain (fuel + 1) least) (chain (fuel + 1) least) :=
  ih.unary.bind (ih.operators least)

theorem blind_operators (ih : BlindExprs fuel) (least : Nat) (left : Expr) :
    Blind Expr.bare (operators (fuel + 1) least left) (operators (fuel + 1) least left.bare) := by
  refine .kind_bind fun ahead => ?_
  cases ahead.binaryOp? with
  | none => exact blind_pure rfl
  | some op =>
    change Blind _ (if op.strength < least then _ else _) (if op.strength < least then _ else _)
    split
    · exact blind_pure rfl
    · refine blind_next.bind fun _ => (ih.chain (op.strength + 1)).bind fun right => ?_
      rw [Expr.merge_bare]
      exact ih.operators least (.binary op left right _)

theorem blind_unary (ih : BlindExprs fuel) :
    Blind Expr.bare (unary (fuel + 1)) (unary (fuel + 1)) := by
  refine .kind_bind fun ahead => ?_
  cases ahead.unaryOp? with
  | none => exact ih.postfixed
  | some op =>
    refine blind_next.bind fun _ => (blind_nested ih.unary).bind fun operand => blind_pure ?_
    rw [Expr.span_bare, Span.merge_default]
    rfl

theorem blind_postfixed (ih : BlindExprs fuel) :
    Blind Expr.bare (postfixed (fuel + 1)) (postfixed (fuel + 1)) :=
  ih.primary.bind ih.suffixes

theorem blind_suffixes (ih : BlindExprs fuel) (target : Expr) :
    Blind Expr.bare (suffixes (fuel + 1) target) (suffixes (fuel + 1) target.bare) := by
  refine .kind_bind fun ahead => ?_
  cases ahead with
  | symbol s =>
    cases s with
    | leftBracket =>
      refine blind_next.bind fun _ => ih.expression.bind fun index => ?_
      refine (blind_expect _).bind fun _ => (blind_accept _).bind fun accepted => ?_
      cases accepted with
      | true =>
        refine ih.expression.bind fun value => blind_pure ?_
        rw [Expr.merge_bare]
        rfl
      | false =>
        rw [Expr.span_bare]
        exact (blind_spanFrom target.span).bind fun span => ih.suffixes (.index target index span)
    | dot =>
      refine blind_next.bind fun _ => blind_name.bind fun member => ?_
      refine (blind_accept _).bind fun accepted => ?_
      cases accepted with
      | true =>
        refine ih.expression.bind fun value => blind_pure ?_
        rw [Expr.merge_bare]
        rfl
      | false =>
        have hspan : target.bare.span.merge member.bare.span = default := by
          rw [Expr.span_bare]
          exact Span.merge_default
        rw [hspan]
        exact ih.suffixes (.member target member _)
    | _ => exact blind_pure rfl
  | _ => exact blind_pure rfl

theorem blind_primary (ih : BlindExprs fuel) :
    Blind Expr.bare (primary (fuel + 1)) (primary (fuel + 1)) := by
  refine .kind_bind fun ahead => ?_
  cases ahead with
  | keyword word =>
    cases word with
    | array => exact ih.arrayLiteral
    | struct => exact ih.structLiteral
    | true | false | null => exact blind_next.bind fun _ => blind_pure rfl
    | _ => exact blind_fail _ _
  | symbol s =>
    cases s with
    | leftParen =>
      refine blind_next.bind fun start => (blind_nested ih.expression).bind fun inner => ?_
      refine (blind_expect _).bind fun _ => (blind_spanFrom start).bind fun _ => blind_pure rfl
    | _ => exact blind_fail _ _
  | name _ => exact ih.named
  | endOfFile => exact blind_fail _ _
  | _ => exact blind_next.bind fun _ => blind_pure rfl

theorem blind_named (ih : BlindExprs fuel) :
    Blind Expr.bare (named (fuel + 1)) (named (fuel + 1)) := by
  refine blind_name.bind fun target => .kind_bind fun ahead => ?_
  have hstep : target.bare.span.merge default = default := Span.merge_default
  cases ahead with
  | symbol s =>
    cases s with
    | assign =>
      refine blind_next.bind fun _ => ih.expression.bind fun value => blind_pure ?_
      rw [Name.merge_bare]
      rfl
    | plusPlus =>
      refine blind_next.bind fun _ => blind_pure ?_
      rw [hstep]
      rfl
    | minusMinus =>
      refine blind_next.bind fun _ => blind_pure ?_
      rw [hstep]
      rfl
    | leftParen =>
      refine blind_next.bind fun _ => (ih.expressions _).bind fun arguments => ?_
      exact (blind_spanFrom target.span).bind fun _ => blind_pure rfl
    | _ => exact blind_pure rfl
  | _ => exact blind_pure rfl

theorem blind_expressions (ih : BlindExprs fuel) (close : Symbol) :
    Blind Expr.bareItems (expressions (fuel + 1) close) (expressions (fuel + 1) close) := by
  refine .kind_bind fun ahead => ?_
  split
  · exact blind_next.bind fun _ => blind_pure rfl
  · exact ih.someExpressions.bind fun items => (blind_expect _).bind fun _ => blind_pure rfl

theorem blind_someExpressions (ih : BlindExprs fuel) :
    Blind Expr.bareItems (someExpressions (fuel + 1)) (someExpressions (fuel + 1)) := by
  refine ih.expression.bind fun item => (blind_accept _).bind fun accepted => ?_
  cases accepted with
  | true => exact ih.someExpressions.bind fun items => blind_pure rfl
  | false => exact blind_pure rfl

theorem blind_arrayLiteral (ih : BlindExprs fuel) :
    Blind Expr.bare (arrayLiteral (fuel + 1)) (arrayLiteral (fuel + 1)) := by
  refine blind_next.bind fun start => .kind_bind fun ahead => ?_
  cases ahead with
  | symbol s =>
    cases s with
    | leftBrace =>
      refine blind_next.bind fun _ => (ih.expressions _).bind fun items => ?_
      exact (blind_spanFrom start).bind fun _ => blind_pure rfl
    | leftBracket =>
      refine blind_next.bind fun _ => ih.expression.bind fun size => ?_
      exact (blind_expect _).bind fun _ => (blind_spanFrom start).bind fun _ => blind_pure rfl
    | _ => exact blind_fail _ _
  | _ => exact blind_fail _ _

theorem blind_structLiteral (ih : BlindExprs fuel) :
    Blind Expr.bare (structLiteral (fuel + 1)) (structLiteral (fuel + 1)) := by
  refine blind_next.bind fun start => (blind_expect _).bind fun _ => ?_
  refine (ih.structFields []).bind fun fields => (blind_expect _).bind fun _ => ?_
  exact (blind_spanFrom start).bind fun _ => blind_pure rfl

theorem blind_structFields (ih : BlindExprs fuel) (seen : List String) :
    Blind Expr.bareFields (structFields (fuel + 1) seen) (structFields (fuel + 1) seen) := by
  refine .kind_bind fun ahead => ?_
  split
  · exact blind_pure rfl
  · refine blind_name.bind fun field => (blind_expect _).bind fun _ => ?_
    refine ih.expression.bind fun value => (blind_expect _).bind fun _ => ?_
    refine (blind_complainIf _ _ field.span).bind fun _ => ?_
    exact (ih.structFields (field.text :: seen)).bind fun fields => blind_pure rfl

theorem blindExprs (fuel : Nat) : BlindExprs fuel := by
  induction fuel with
  | zero =>
    exact {
      expression := blind_exhausted _
      chain := fun _ => blind_exhausted _
      operators := fun _ _ => blind_exhausted _
      unary := blind_exhausted _
      postfixed := blind_exhausted _
      suffixes := fun _ => blind_exhausted _
      primary := blind_exhausted _
      named := blind_exhausted _
      expressions := fun _ => blind_exhausted _
      someExpressions := blind_exhausted _
      arrayLiteral := blind_exhausted _
      structLiteral := blind_exhausted _
      structFields := fun _ => blind_exhausted _
    }
  | succ fuel ih =>
    exact {
      expression := ih.chain 1
      chain := blind_chain ih
      operators := blind_operators ih
      unary := blind_unary ih
      postfixed := blind_postfixed ih
      suffixes := blind_suffixes ih
      primary := blind_primary ih
      named := blind_named ih
      expressions := blind_expressions ih
      someExpressions := blind_someExpressions ih
      arrayLiteral := blind_arrayLiteral ih
      structLiteral := blind_structLiteral ih
      structFields := blind_structFields ih
    }

/-! Statements -/

theorem blind_expression (fuel : Nat) : Blind Expr.bare (expression fuel) (expression fuel) :=
  (blindExprs fuel).expression

theorem blind_condition (fuel : Nat) : Blind Expr.bare (condition fuel) (condition fuel) := by
  refine (blind_expect _).bind fun _ => (blind_expression fuel).bind fun test => ?_
  exact (blind_expect _).bind fun _ => blind_pure rfl

theorem blind_declaration (fuel : Nat) : Blind Stmt.bare (declaration fuel) (declaration fuel) := by
  refine blind_next.bind fun start => blind_name.bind fun target => ?_
  refine (blind_after _ (blind_expression fuel)).bind fun init => (blind_expect _).bind fun _ => ?_
  exact (blind_spanFrom start).bind fun _ => blind_pure rfl

theorem blind_loopJump (jump : LoopJump) : Blind Stmt.bare (loopJump jump) (loopJump jump) := by
  refine blind_next.bind fun start => (blind_expect _).bind fun _ => ?_
  exact (blind_spanFrom start).bind fun _ => blind_pure rfl

theorem blind_transfer (fuel : Nat) (kind : Transfer) :
    Blind Stmt.bare (transfer fuel kind) (transfer fuel kind) := by
  refine blind_next.bind fun start => ?_
  refine (blind_unlessAhead _ (blind_expression fuel)).bind fun value => ?_
  refine (blind_expect _).bind fun _ => (blind_spanFrom start).bind fun _ => blind_pure rfl

theorem blind_expressionStatement (fuel : Nat) :
    Blind Stmt.bare (expressionStatement fuel) (expressionStatement fuel) := by
  refine (blind_expression fuel).bind fun value => (blind_expect _).bind fun _ => ?_
  rw [Expr.span_bare]
  exact (blind_spanFrom value.span).bind fun _ => blind_pure rfl

theorem blind_parameters (fuel : Nat) :
    ∀ seen, Blind (List.map Name.bare) (parameters fuel seen) (parameters fuel seen) := by
  induction fuel with
  | zero => exact fun _ => blind_exhausted _
  | succ fuel ih =>
    intro seen
    refine blind_name.bind fun param => (blind_complainIf _ _ param.span).bind fun _ => ?_
    refine (blind_accept _).bind fun accepted => ?_
    cases accepted with
    | true => exact (ih (param.text :: seen)).bind fun params => blind_pure rfl
    | false => exact blind_pure rfl

theorem blind_parameterList (fuel : Nat) :
    Blind (List.map Name.bare) (parameterList fuel) (parameterList fuel) := by
  refine (blind_expect _).bind fun _ => ?_
  refine (blind_unlessAhead _ (blind_parameters fuel [])).bind fun params => ?_
  refine (blind_expect _).bind fun _ => blind_pure ?_
  cases params <;> rfl

theorem blind_handlerParameter :
    Blind (Option.map Name.bare) handlerParameter handlerParameter :=
  blind_after _ (blind_name.bind fun _ => (blind_expect _).bind fun _ => blind_pure rfl)

/-- With so much fuel the readers of statements do not look at places. -/
structure BlindStmts (fuel : Nat) : Prop where
  statement : Blind Stmt.bare (statement fuel) (statement fuel)
  statementKind : Blind Stmt.bare (statementKind fuel) (statementKind fuel)
  statements : Blind Stmt.bareBody (statements fuel) (statements fuel)
  block : Blind (fun b => (Stmt.bareBody b.1, default)) (block fuel) (block fuel)
  function : Blind Stmt.bare (function fuel) (function fuel)
  branch : Blind Stmt.bare (branch fuel) (branch fuel)
  loop : Blind Stmt.bare (loop fuel) (loop fuel)
  attempt : Blind Stmt.bare (attempt fuel) (attempt fuel)

theorem blind_statementKind (ih : BlindStmts fuel) :
    Blind Stmt.bare (statementKind (fuel + 1)) (statementKind (fuel + 1)) := by
  refine .kind_bind fun ahead => ?_
  cases ahead with
  | symbol s =>
    cases s with
    | leftBrace => exact ih.block.bind fun _ => blind_pure rfl
    | semicolon => exact blind_next.map fun _ => rfl
    | _ => exact blind_expressionStatement fuel
  | keyword word =>
    cases word with
    | var => exact blind_declaration fuel
    | function => exact ih.function
    | «if» => exact ih.branch
    | «while» => exact ih.loop
    | «try» => exact ih.attempt
    | «break» => exact blind_loopJump .break
    | «continue» => exact blind_loopJump .continue
    | «return» => exact blind_transfer fuel .return
    | exit => exact blind_transfer fuel .exit
    | throw => exact blind_transfer fuel .throw
    | _ => exact blind_expressionStatement fuel
  | _ => exact blind_expressionStatement fuel

theorem bareBody_append (first : Option Stmt) (others : List Stmt) :
    (first.map Stmt.bare).toList ++ Stmt.bareBody others =
      Stmt.bareBody (first.toList ++ others) := by
  cases first <;> rfl

theorem blind_statements (ih : BlindStmts fuel) :
    Blind Stmt.bareBody (statements (fuel + 1)) (statements (fuel + 1)) := by
  refine .kind_bind fun ahead => ?_
  split
  · exact blind_pure rfl
  · refine blind_isFull.bind fun full => ?_
    cases full with
    | true => exact blind_pure rfl
    | false =>
      refine (blind_orRecover ih.statement).bind fun first => ih.statements.bind fun others => ?_
      exact blind_pure (bareBody_append first others)

theorem blind_block (ih : BlindStmts fuel) :
    Blind (fun b => (Stmt.bareBody b.1, default)) (block (fuel + 1)) (block (fuel + 1)) := by
  refine (blind_expect _).bind fun start => ih.statements.bind fun body => ?_
  exact (blind_expect _).bind fun _ => (blind_spanFrom start).bind fun _ => blind_pure rfl

theorem blind_function (ih : BlindStmts fuel) :
    Blind Stmt.bare (function (fuel + 1)) (function (fuel + 1)) := by
  refine blind_next.bind fun start => blind_name.bind fun target => ?_
  refine (blind_parameterList fuel).bind fun params => ih.block.bind fun body => ?_
  exact (blind_spanFrom start).bind fun _ => blind_pure rfl

theorem blind_branch (ih : BlindStmts fuel) :
    Blind Stmt.bare (branch (fuel + 1)) (branch (fuel + 1)) := by
  refine blind_next.bind fun start => (blind_condition fuel).bind fun test => ?_
  refine ih.statement.bind fun thenBranch => (blind_after _ ih.statement).bind fun elseBranch => ?_
  refine (blind_spanFrom start).bind fun _ => blind_pure ?_
  cases elseBranch <;> rfl

theorem blind_loop (ih : BlindStmts fuel) :
    Blind Stmt.bare (loop (fuel + 1)) (loop (fuel + 1)) := by
  refine blind_next.bind fun start => (blind_condition fuel).bind fun test => ?_
  exact ih.statement.bind fun body => (blind_spanFrom start).bind fun _ => blind_pure rfl

theorem blind_attempt (ih : BlindStmts fuel) :
    Blind Stmt.bare (attempt (fuel + 1)) (attempt (fuel + 1)) := by
  refine blind_next.bind fun start => ih.block.bind fun body => (blind_expect _).bind fun mark => ?_
  refine blind_handlerParameter.bind fun param => ih.block.bind fun handler => ?_
  refine (blind_spanFrom mark).bind fun _ => (blind_spanFrom start).bind fun _ => blind_pure rfl

theorem blindStmts (fuel : Nat) : BlindStmts fuel := by
  induction fuel with
  | zero =>
    exact {
      statement := blind_exhausted _
      statementKind := blind_exhausted _
      statements := blind_exhausted _
      block := blind_exhausted _
      function := blind_exhausted _
      branch := blind_exhausted _
      loop := blind_exhausted _
      attempt := blind_exhausted _
    }
  | succ fuel ih =>
    exact {
      statement := blind_nested ih.statementKind
      statementKind := blind_statementKind ih
      statements := blind_statements ih
      block := blind_block ih
      function := blind_function ih
      branch := blind_branch ih
      loop := blind_loop ih
      attempt := blind_attempt ih
    }

theorem blind_script (fuel : Nat) : Blind Stmt.bareBody (script fuel) (script fuel) := by
  induction fuel with
  | zero => exact blind_exhausted _
  | succ fuel ih =>
    refine .kind_bind fun ahead => ?_
    split
    · exact blind_pure rfl
    · refine blind_isFull.bind fun full => ?_
      cases full with
      | true => exact blind_pure rfl
      | false =>
        by_cases hbrace : ahead = .symbol .rightBrace
        · subst hbrace
          refine blind_here.bind fun span => (blind_complain _ span).bind fun _ => ?_
          exact blind_next.bind fun _ => ih
        · change Blind _ (if ahead = .symbol .rightBrace then _ else _)
            (if ahead = .symbol .rightBrace then _ else _)
          rw [if_neg hbrace]
          refine (blind_orRecover (blindStmts fuel).statement).bind fun first => ih.bind fun others => ?_
          exact blind_pure (bareBody_append first others)

end Reader

/-! Programs -/

def Parsed.bare (parsed : Parsed) : Parsed :=
  ⟨parsed.program.map Program.bare, parsed.complaints.map Complaint.bare⟩

/-- What a reading of the statements makes of a script; the span is that of the program. -/
theorem Parsed.bare_eq {body body' : List Stmt} {complaints complaints' : List Complaint}
    (span span' : Span) (hbody : Stmt.bareBody body = Stmt.bareBody body')
    (hcomplaints : complaints.map Complaint.bare = complaints'.map Complaint.bare) :
    Parsed.bare ⟨if complaints.isEmpty then some ⟨body, span⟩ else none, complaints⟩ =
      Parsed.bare ⟨if complaints'.isEmpty then some ⟨body', span'⟩ else none, complaints'⟩ := by
  have hempty : complaints.isEmpty = complaints'.isEmpty := by
    rw [← List.isEmpty_map (f := Complaint.bare), hcomplaints, List.isEmpty_map]
  unfold Parsed.bare
  rw [hempty, hcomplaints]
  refine congrArg (Parsed.mk · _) ?_
  split
  · exact congrArg (fun body => some (Program.mk body default)) hbody
  · rfl

/-- Tokens of the same kinds are read alike. -/
theorem Program.bare_ofTokens {tokens tokens' : List Token}
    (hkinds : tokens.map Token.kind = tokens'.map Token.kind) :
    (ofTokens tokens).bare = (ofTokens tokens').bare := by
  have htokens : tokens.map Token.bare = tokens'.map Token.bare := by
    have hbare : ∀ l : List Token, l.map Token.bare = (l.map Token.kind).map (⟨·, default⟩) := by
      intro l
      rw [List.map_map]
      rfl
    rw [hbare, hbare, hkinds]
  have hstart : (Cursor.start tokens).bare = (Cursor.start tokens').bare := by
    unfold Cursor.bare Cursor.start
    dsimp only
    rw [htokens]
  have hfuel : readingFuel tokens = readingFuel tokens' := by
    have hlength := congrArg List.length hkinds
    rw [List.length_map, List.length_map] at hlength
    unfold readingFuel
    rw [hlength]
  have hread := (Reader.blind_script (readingFuel tokens) (Cursor.start tokens)).symm
  rw [hstart, hfuel, Reader.blind_script (readingFuel tokens') (Cursor.start tokens')] at hread
  unfold ofTokens
  rw [hfuel]
  dsimp only
  generalize Reader.script (readingFuel tokens') (Cursor.start tokens) = first at hread ⊢
  generalize Reader.script (readingFuel tokens') (Cursor.start tokens') = second at hread ⊢
  cases first with
  | done body c =>
    cases second with
    | done body' d =>
      injection hread with hbody hcursor
      exact Parsed.bare_eq _ _ hbody (congrArg Cursor.complaints hcursor)
    | _ => exact absurd hread (by simp [Reading.bare])
  | failed c =>
    cases second with
    | failed d =>
      injection hread with hcursor
      exact congrArg (Parsed.mk none) (congrArg Cursor.complaints hcursor)
    | _ => exact absurd hread (by simp [Reading.bare])
  | exhausted =>
    cases second with
    | exhausted => rfl
    | _ => exact absurd hread (by simp [Reading.bare])

theorem parse_of_lexed {source : List Char} (hclean : (lex source).complaints = []) :
    parse source = Program.ofTokens (lex source).tokens := by
  unfold parse
  dsimp only
  rw [hclean]
  rfl

/-- Texts with tokens of the same kinds are parsed alike. -/
theorem bare_parse {source source' : List Char} (hclean : (lex source).complaints = [])
    (hclean' : (lex source').complaints = [])
    (hkinds : (lex source).tokens.map Token.kind = (lex source').tokens.map Token.kind) :
    (parse source).bare = (parse source').bare := by
  rw [parse_of_lexed hclean, parse_of_lexed hclean']
  exact Program.bare_ofTokens hkinds

end ScriptEngine
