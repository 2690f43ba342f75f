import ScriptEngine.Proofs.Reading.Lossless

/-!
Readings with more fuel. What comes to an end with some fuel comes to the same end with more, so
that fuel bounds the recursion of a reader and decides nothing else: a script is read in one way,
with whatever fuel that is enough. The induction is on the fuel, one level of the recursion at a
time.
-/
namespace ScriptEngine

namespace Reader

variable {α β : Type} {fuel : Nat}

/-- The second reader does what the first one does, unless that runs out of fuel. -/
def Prolonged (r r' : Reader α) : Prop := ∀ c, r c = .exhausted ∨ r' c = r c

/-! Steps -/

theorem Prolonged.refl (r : Reader α) : r.Prolonged r := fun _ => .inr rfl

theorem prolonged_exhausted (r : Reader α) : exhausted.Prolonged r := fun _ => .inl rfl

theorem Prolonged.bind {r r' : Reader α} {f f' : α → Reader β} (h : r.Prolonged r')
    (hf : ∀ a, (f a).Prolonged (f' a)) : (r >>= f).Prolonged (r' >>= f') := by
  intro c
  rw [bind_apply, bind_apply]
  rcases h c with hr | hr
  · rw [hr]
    exact .inl rfl
  · rw [hr]
    cases r c with
    | done a d => exact hf a d
    | failed d => exact .inr rfl
    | exhausted => exact .inl rfl

/-- What comes first needs no fuel. -/
theorem Prolonged.step {r : Reader α} {f f' : α → Reader β} (hf : ∀ a, (f a).Prolonged (f' a)) :
    (r >>= f).Prolonged (r >>= f') :=
  (Prolonged.refl r).bind hf

theorem Prolonged.ite {p : Prop} [Decidable p] {r r' s s' : Reader α} (hr : r.Prolonged r')
    (hs : s.Prolonged s') : (if p then r else s).Prolonged (if p then r' else s') := by
  split
  · exact hr
  · exact hs

theorem Prolonged.map {r r' : Reader α} (f : α → β) (h : r.Prolonged r') :
    (f <$> r).Prolonged (f <$> r') := by
  rw [map_apply, map_apply]
  exact h.bind fun a => .refl _

theorem Prolonged.nested {r r' : Reader α} (h : r.Prolonged r') :
    (nested r).Prolonged (nested r') := by
  intro c
  unfold Reader.nested
  split
  · exact .inr rfl
  · rcases h { c with depth := c.depth + 1 } with hr | hr
    · rw [hr]
      exact .inl rfl
    · rw [hr]
      exact .inr rfl

theorem Prolonged.after {r r' : Reader α} (mark : TokenKind) (h : r.Prolonged r') :
    (after mark r).Prolonged (after mark r') := by
  unfold Reader.after
  exact .step fun _ => .ite (h.map _) (.refl _)

theorem Prolonged.unlessAhead {r r' : Reader α} (stop : TokenKind) (h : r.Prolonged r') :
    (unlessAhead stop r).Prolonged (unlessAhead stop r') := by
  unfold Reader.unlessAhead
  exact .step fun _ => .ite (.refl _) (h.map _)

theorem Prolonged.orRecover {r r' : Reader Stmt} (h : r.Prolonged r') :
    (orRecover r).Prolonged (orRecover r') := by
  intro c
  unfold Reader.orRecover
  rcases h c with hr | hr
  · rw [hr]
    exact .inl rfl
  · rw [hr]
    exact .inr rfl

/-! Expressions -/

/-- One more level of recursion changes nothing for the readers of expressions. -/
structure ExprsProlonged (fuel : Nat) : Prop where
  expression : (expression fuel).Prolonged (expression (fuel + 1))
  chain : ∀ least, (chain fuel least).Prolonged (chain (fuel + 1) least)
  operators : ∀ least left, (operators fuel least left).Prolonged (operators (fuel + 1) least left)
  unary : (unary fuel).Prolonged (unary (fuel + 1))
  postfixed : (postfixed fuel).Prolonged (postfixed (fuel + 1))
  suffixes : ∀ target, (suffixes fuel target).Prolonged (suffixes (fuel + 1) target)
  primary : (primary fuel).Prolonged (primary (fuel + 1))
  named : (named fuel).Prolonged (named (fuel + 1))
  expressions : ∀ close, (expressions fuel close).Prolonged (expressions (fuel + 1) close)
  someExpressions : (someExpressions fuel).Prolonged (someExpressions (fuel + 1))
  arrayLiteral : (arrayLiteral fuel).Prolonged (arrayLiteral (fuel + 1))
  structLiteral : (structLiteral fuel).Prolonged (structLiteral (fuel + 1))
  structFields : ∀ seen, (structFields fuel seen).Prolonged (structFields (fuel + 1) seen)

theorem prolonged_chain (ih : ExprsProlonged fuel) (least : Nat) :
    (chain (fuel + 1) least).Prolonged (chain (fuel + 2) least) := by
  unfold chain
  exact ih.unary.bind fun left => ih.operators least left

theorem prolonged_operators (ih : ExprsProlonged fuel) (least : Nat) (left : Expr) :
    (operators (fuel + 1) least left).Prolonged (operators (fuel + 2) least left) := by
  unfold operators
  refine .step fun k => ?_
  cases k.binaryOp? with
  | none => exact .refl _
  | some op =>
    exact .ite (.refl _) (.step fun _ => (ih.chain _).bind fun right => ih.operators _ _)

theorem prolonged_unary (ih : ExprsProlonged fuel) :
    (unary (fuel + 1)).Prolonged (unary (fuel + 2)) := by
  unfold unary
  refine .step fun k => ?_
  cases k.unaryOp? with
  | none => exact ih.postfixed
  | some op => exact .step fun _ => ih.unary.nested.bind fun operand => .refl _

theorem prolonged_postfixed (ih : ExprsProlonged fuel) :
    (postfixed (fuel + 1)).Prolonged (postfixed (fuel + 2)) := by
  unfold postfixed
  exact ih.primary.bind ih.suffixes

theorem prolonged_suffixes (ih : ExprsProlonged fuel) (target : Expr) :
    (suffixes (fuel + 1) target).Prolonged (suffixes (fuel + 2) target) := by
  unfold suffixes
  refine .step fun k => ?_
  split
  · refine .step fun _ => ih.expression.bind fun index => .step fun _ => .step fun _ => .ite ?_ ?_
    · exact ih.expression.bind fun value => .refl _
    · exact .step fun span => ih.suffixes _
  · refine .step fun _ => .step fun member => .step fun _ => .ite ?_ (ih.suffixes _)
    exact ih.expression.bind fun value => .refl _
  · exact .refl _

theorem prolonged_primary (ih : ExprsProlonged fuel) :
    (primary (fuel + 1)).Prolonged (primary (fuel + 2)) := by
  unfold primary
  refine .step fun k => ?_
  split
  · exact ih.arrayLiteral
  · exact ih.structLiteral
  · exact .step fun start => ih.expression.nested.bind fun inner => .refl _
  · exact ih.named
  · exact .refl _

theorem prolonged_named (ih : ExprsProlonged fuel) :
    (named (fuel + 1)).Prolonged (named (fuel + 2)) := by
  unfold named
  refine .step fun target => .step fun k => ?_
  split
  · exact .step fun _ => ih.expression.bind fun value => .refl _
  · exact .refl _
  · exact .refl _
  · exact .step fun _ => (ih.expressions _).bind fun arguments => .refl _
  · exact .refl _

theorem prolonged_expressions (ih : ExprsProlonged fuel) (close : Symbol) :
    (expressions (fuel + 1) close).Prolonged (expressions (fuel + 2) close) := by
  unfold expressions
  exact .step fun _ => .ite (.refl _) (ih.someExpressions.bind fun items => .refl _)

theorem prolonged_someExpressions (ih : ExprsProlonged fuel) :
    (someExpressions (fuel + 1)).Prolonged (someExpressions (fuel + 2)) := by
  unfold someExpressions
  refine ih.expression.bind fun item => .step fun _ => .ite ?_ (.refl _)
  exact ih.someExpressions.bind fun items => .refl _

theorem prolonged_arrayLiteral (ih : ExprsProlonged fuel) :
    (arrayLiteral (fuel + 1)).Prolonged (arrayLiteral (fuel + 2)) := by
  unfold arrayLiteral
  refine .step fun start => .step fun k => ?_
  split
  · exact .step fun _ => (ih.expressions _).bind fun items => .refl _
  · exact .step fun _ => ih.expression.bind fun size => .refl _
  · exact .refl _

theorem prolonged_structLiteral (ih : ExprsProlonged fuel) :
    (structLiteral (fuel + 1)).Prolonged (structLiteral (fuel + 2)) := by
  unfold structLiteral
  exact .step fun start => .step fun _ => (ih.structFields _).bind fun fields => .refl _

theorem prolonged_structFields (ih : ExprsProlonged fuel) (seen : List String) :
    (structFields (fuel + 1) seen).Prolonged (structFields (fuel + 2) seen) := by
  unfold structFields
  refine .step fun k => .ite (.refl _) (.step fun field => .step fun _ => ?_)
  refine ih.expression.bind fun value => .step fun _ => .step fun _ => ?_
  exact (ih.structFields _).bind fun fields => .refl _

theorem exprsProlonged (fuel : Nat) : ExprsProlonged fuel := by
  induction fuel with
  | zero => constructor <;> intros <;> exact prolonged_exhausted _
  | succ fuel ih =>
    exact {
      expression := ih.chain 1
      chain := prolonged_chain ih
      operators := prolonged_operators ih
      unary := prolonged_unary ih
      postfixed := prolonged_postfixed ih
      suffixes := prolonged_suffixes ih
      primary := prolonged_primary ih
      named := prolonged_named ih
      expressions := prolonged_expressions ih
      someExpressions := prolonged_someExpressions ih
      arrayLiteral := prolonged_arrayLiteral ih
      structLiteral := prolonged_structLiteral ih
      structFields := prolonged_structFields ih
    }

/-! Statements -/

theorem prolonged_condition : (condition fuel).Prolonged (condition (fuel + 1)) := by
  unfold condition
  exact .step fun _ => (exprsProlonged fuel).expression.bind fun test => .refl _

theorem prolonged_declaration : (declaration fuel).Prolonged (declaration (fuel + 1)) := by
  unfold declaration
  refine .step fun start => .step fun target => ?_
  exact ((exprsProlonged fuel).expression.after _).bind fun init => .refl _

theorem prolonged_transfer (kind : Transfer) :
    (transfer fuel kind).Prolonged (transfer (fuel + 1) kind) := by
  unfold transfer
  exact .step fun start =>
    ((exprsProlonged fuel).expression.unlessAhead _).bind fun value => .refl _

theorem prolonged_expressionStatement :
    (expressionStatement fuel).Prolonged (expressionStatement (fuel + 1)) := by
  unfold expressionStatement
  exact (exprsProlonged fuel).expression.bind fun value => .refl _

theorem prolonged_parameters (fuel : Nat) (seen : List String) :
    (parameters fuel seen).Prolonged (parameters (fuel + 1) seen) := by
  induction fuel generalizing seen with
  | zero => exact prolonged_exhausted _
  | succ fuel ih =>
    unfold parameters
    refine .step fun param => .step fun _ => .step fun _ => .ite ?_ (.refl _)
    exact (ih _).bind fun params => .refl _

theorem prolonged_parameterList : (parameterList fuel).Prolonged (parameterList (fuel + 1)) := by
  unfold parameterList
  exact .step fun _ => ((prolonged_parameters fuel []).unlessAhead _).bind fun params => .refl _

/-- One more level of recursion changes nothing for the readers of statements. -/
structure StmtsProlonged (fuel : Nat) : Prop where
  statement : (statement fuel).Prolonged (statement (fuel + 1))
  statementKind : (statementKind fuel).Prolonged (statementKind (fuel + 1))
  statements : (statements fuel).Prolonged (statements (fuel + 1))
  block : (block fuel).Prolonged (block (fuel + 1))
  function : (function fuel).Prolonged (function (fuel + 1))
  branch : (branch fuel).Prolonged (branch (fuel + 1))
  loop : (loop fuel).Prolonged (loop (fuel + 1))
  attempt : (attempt fuel).Prolonged (attempt (fuel + 1))

theorem prolonged_statementKind (ih : StmtsProlonged fuel) :
    (statementKind (fuel + 1)).Prolonged (statementKind (fuel + 2)) := by
  unfold statementKind
  refine .step fun k => ?_
  split
  · exact ih.block.bind fun body => .refl _
  · exact .refl _
  · exact prolonged_declaration
  · exact ih.function
  · exact ih.branch
  · exact ih.loop
  · exact ih.attempt
  · split
    · exact .refl _
    · exact prolonged_transfer _
    · exact prolonged_expressionStatement
  · exact prolonged_expressionStatement

theorem prolonged_statements (ih : StmtsProlonged fuel) :
    (statements (fuel + 1)).Prolonged (statements (fuel + 2)) := by
  unfold statements
  refine .step fun k => .ite (.refl _) (.step fun full => .ite (.refl _) ?_)
  exact ih.statement.orRecover.bind fun first => ih.statements.bind fun others => .refl _

theorem prolonged_block (ih : StmtsProlonged fuel) :
    (block (fuel + 1)).Prolonged (block (fuel + 2)) := by
  unfold block
  exact .step fun start => ih.statements.bind fun body => .refl _

theorem prolonged_function (ih : StmtsProlonged fuel) :
    (function (fuel + 1)).Prolonged (function (fuel + 2)) := by
  unfold function
  refine .step fun start => .step fun target => prolonged_parameterList.bind fun params => ?_
  exact ih.block.bind fun body => .refl _

theorem prolonged_branch (ih : StmtsProlonged fuel) :
    (branch (fuel + 1)).Prolonged (branch (fuel + 2)) := by
  unfold branch
  refine .step fun start => prolonged_condition.bind fun test => ?_
  exact ih.statement.bind fun thenBranch => (ih.statement.after _).bind fun elseBranch => .refl _

theorem prolonged_loop (ih : StmtsProlonged fuel) :
    (loop (fuel + 1)).Prolonged (loop (fuel + 2)) := by
  unfold loop
  refine .step fun start => prolonged_condition.bind fun test => ?_
  exact ih.statement.bind fun body => .refl _

theorem prolonged_attempt (ih : StmtsProlonged fuel) :
    (attempt (fuel + 1)).Prolonged (attempt (fuel + 2)) := by
  unfold attempt
  refine .step fun start => ih.block.bind fun body => .step fun _ => .step fun param => ?_
  exact ih.block.bind fun handler => .refl _

theorem stmtsProlonged (fuel : Nat) : StmtsProlonged fuel := by
  induction fuel with
  | zero => constructor <;> exact prolonged_exhausted _
  | succ fuel ih =>
    exact {
      statement := ih.statementKind.nested
      statementKind := prolonged_statementKind ih
      statements := prolonged_statements ih
      block := prolonged_block ih
      function := prolonged_function ih
      branch := prolonged_branch ih
      loop := prolonged_loop ih
      attempt := prolonged_attempt ih
    }

theorem prolonged_script (fuel : Nat) : (script fuel).Prolonged (script (fuel + 1)) := by
  induction fuel with
  | zero => exact prolonged_exhausted _
  | succ fuel ih =>
    unfold script
    refine .step fun k => .ite (.refl _) (.step fun full => .ite (.refl _) (.ite ?_ ?_))
    · exact .step fun place => .step fun _ => .step fun _ => ih
    · exact (stmtsProlonged fuel).statement.orRecover.bind fun first =>
        ih.bind fun others => .refl _

/-- A script that is read with some fuel is read in the same way with more. -/
theorem script_eq_of_le {fuel' : Nat} {c : Cursor} (h : script fuel c ≠ .exhausted)
    (hle : fuel ≤ fuel') : script fuel' c = script fuel c := by
  induction hle with
  | refl => rfl
  | @step more _ ih =>
    rw [← ih]
    exact (prolonged_script more c).resolve_left (ih ▸ h)

end Reader

/-- The fuel that a program gets is enough, and any more makes no difference. -/
theorem script_eq_of_readingFuel_le {tokens : List Token} {fuel : Nat}
    (h : readingFuel tokens ≤ fuel) :
    Reader.script fuel (Cursor.start tokens) =
      Reader.script (readingFuel tokens) (Cursor.start tokens) :=
  Reader.script_eq_of_le (script_ne_exhausted tokens) h

end ScriptEngine
