import ScriptEngine.Proofs.Reading.Lossless
import ScriptEngine.Proofs.Reading.Proper

/-!
How deep reading goes. Every reader comes back to the depth at which it began, whether it succeeds
or fails, so that a statement that cannot be read costs those after it nothing. What was read
without complaint is proper: names that are there twice do not stop a reader, but they leave a
complaint behind.
-/
namespace ScriptEngine

namespace Cursor

/-- Reading has come back to the depth at which it began, and what was read is so unless there is
something to complain about. -/
structure Returned (c d : Cursor) (p : Prop) : Prop where
  depth : d.depth = c.depth
  clean : d.complaints = [] → c.complaints = [] ∧ p

/-- Reading has failed with a complaint, at the depth at which it began. -/
structure Refused (c d : Cursor) : Prop where
  depth : d.depth = c.depth
  blamed : d.complaints ≠ []

variable {p q : Prop} {c d e : Cursor}

theorem Returned.refl (c : Cursor) (hp : p) : c.Returned c p := ⟨rfl, fun h => ⟨h, hp⟩⟩

theorem Returned.trans (h : c.Returned d p) (h' : d.Returned e q) : c.Returned e (p ∧ q) where
  depth := h'.depth.trans h.depth
  clean := fun hclean =>
    have ⟨hd, hq⟩ := h'.clean hclean
    ⟨(h.clean hd).1, (h.clean hd).2, hq⟩

theorem Returned.of_imp (h : c.Returned d p) (hpq : p → q) : c.Returned d q :=
  ⟨h.depth, fun hclean => (h.clean hclean).imp_right hpq⟩

theorem Returned.of_refused (h : c.Refused d) : c.Returned d p :=
  ⟨h.depth, fun hclean => absurd hclean h.blamed⟩

theorem Returned.refused (h : c.Returned d p) (h' : d.Refused e) : c.Refused e :=
  ⟨h'.depth.trans h.depth, h'.blamed⟩

theorem depth_complain (c : Cursor) (fault : SourceFault) (span : Span) :
    (c.complain fault span).depth = c.depth := by
  unfold complain
  split <;> rfl

theorem refused_complain (c : Cursor) (fault : SourceFault) (span : Span) :
    c.Refused (c.complain fault span) :=
  ⟨depth_complain c fault span, complain_ne_nil c fault span⟩

/-- Recovery leaves the depth as it is. -/
theorem Returned.recover (h : c.Refused d) (before : Cursor) : c.Returned (before.recover d) p :=
  .of_refused ⟨h.depth, h.blamed⟩

theorem returned_advance (c : Cursor) : c.Returned c.advance True := by
  obtain ⟨rest, previous, complaints, depth⟩ := c
  cases rest <;> exact ⟨rfl, fun h => ⟨h, trivial⟩⟩

end Cursor

namespace Reader

open Cursor

variable {α β : Type} {p : Prop} {c d : Cursor} {good : Nat → α → Prop} {Q : β → Cursor → Prop}

/-- What the reader gives without a complaint is good for the depth at which it begins, and the
reader comes back to that depth in any case. -/
def Makes (r : Reader α) (good : Nat → α → Prop) (c : Cursor) : Prop :=
  (r c).Meets (fun a d => c.Returned d (good c.depth a)) c.Refused True

/-! Steps -/

theorem makes_step {r : Reader α} {f : α → Reader β} (h : c.Returned d p) (hr : r.Makes good d)
    (hnext : ∀ a e, c.Returned e (p ∧ good c.depth a) → (f a e).Meets Q c.Refused True) :
    ((r >>= f) d).Meets Q c.Refused True := by
  refine hr.bind (fun a e he => hnext a e ?_) (fun _ he => h.refused he) (fun h => h)
  rw [h.depth] at he
  exact h.trans he

theorem makes_next {f : Span → Reader β} (h : c.Returned d p)
    (hnext : ∀ span e, c.Returned e p → (f span e).Meets Q c.Refused True) :
    ((next >>= f) d).Meets Q c.Refused True :=
  hnext d.here d.advance ((h.trans (returned_advance d)).of_imp And.left)

theorem makes_expect {wanted : TokenKind} {f : Span → Reader β} (h : c.Returned d p)
    (hnext : ∀ span e, c.Returned e p → (f span e).Meets Q c.Refused True) :
    ((expect wanted >>= f) d).Meets Q c.Refused True := by
  rw [bind_apply, expect]
  by_cases hk : d.kind = wanted
  · rw [if_pos hk]
    exact hnext d.here d.advance ((h.trans (returned_advance d)).of_imp And.left)
  · rw [if_neg hk]
    exact h.refused (refused_complain d _ _)

theorem makes_name {f : Name → Reader β} (h : c.Returned d p)
    (hnext : ∀ name e, c.Returned e p → (f name e).Meets Q c.Refused True) :
    ((name >>= f) d).Meets Q c.Refused True := by
  refine (name_meets d).bind ?_ ?_ (fun h => h)
  · rintro a e ⟨-, -, rfl⟩
    exact hnext a d.advance ((h.trans (returned_advance d)).of_imp And.left)
  · rintro e rfl
    exact h.refused (refused_complain d _ _)

theorem makes_accept {wanted : TokenKind} {f : Bool → Reader β} (h : c.Returned d p)
    (htaken : ∀ e, c.Returned e p → (f true e).Meets Q c.Refused True)
    (hleft : (f false d).Meets Q c.Refused True) :
    ((accept wanted >>= f) d).Meets Q c.Refused True := by
  rw [accept_bind]
  split
  · exact htaken d.advance ((h.trans (returned_advance d)).of_imp And.left)
  · exact hleft

theorem makes_fail {P : α → Cursor → Prop} (fault : TokenKind → SourceFault)
    (h : c.Returned d p) : (fail fault d).Meets P c.Refused True :=
  h.refused (refused_complain d _ _)

/-- A complaint that does not stop reading shows that something is bad. -/
theorem makes_complainIf {bad : Bool} {fault : SourceFault} {span : Span} {f : Unit → Reader β}
    (h : c.Returned d p)
    (hnext : ∀ e, c.Returned e (p ∧ bad = false) → (f () e).Meets Q c.Refused True) :
    ((complainIf bad fault span >>= f) d).Meets Q c.Refused True := by
  cases bad with
  | true =>
    exact hnext _ (.of_refused (h.refused (refused_complain d fault span)))
  | false => exact hnext d (h.of_imp fun hp => ⟨hp, rfl⟩)

theorem makes_nested {r : Reader α} (hr : ∀ c, r.Makes good c) (c : Cursor) :
    (nested r).Makes (fun n a => n < maxNesting ∧ good (n + 1) a) c := by
  unfold Makes
  rw [nested]
  split
  · exact refused_complain c _ _
  · have hdepth : c.depth < maxNesting := Nat.lt_of_not_le ‹_›
    have h := hr { c with depth := c.depth + 1 }
    unfold Makes at h
    cases hread : r { c with depth := c.depth + 1 } with
    | done a d =>
      rw [hread] at h
      have hback : d.depth - 1 = c.depth := by rw [h.depth]; rfl
      exact ⟨hback, fun hclean => (h.clean hclean).imp_right fun ha => ⟨hdepth, ha⟩⟩
    | failed d =>
      rw [hread] at h
      have hback : d.depth - 1 = c.depth := by rw [h.depth]; rfl
      exact ⟨hback, h.blamed⟩
    | exhausted => trivial

theorem makes_after {mark : TokenKind} {r : Reader α} (hr : ∀ c, r.Makes good c) (c : Cursor) :
    (after mark r).Makes (fun n a => ∀ b, a = some b → good n b) c := by
  unfold after
  apply makes_accept (Returned.refl c trivial)
  · intro d hd
    rw [if_pos rfl, map_apply]
    apply makes_step hd (hr d)
    intro a e he
    exact he.of_imp fun h b hb => Option.some.inj hb ▸ h.2
  · exact .refl c (by simp)

theorem makes_unlessAhead {stop : TokenKind} {r : Reader α} (hr : r.Makes good c) :
    (unlessAhead stop r).Makes (fun n a => ∀ b, a = some b → good n b) c := by
  unfold unlessAhead
  apply meets_kind
  intro k _
  split
  · exact Returned.refl c (by simp)
  · rw [map_apply]
    apply makes_step (Returned.refl c trivial) hr
    intro a e he
    exact he.of_imp fun h b hb => Option.some.inj hb ▸ h.2

/-! Expressions -/

/-- The names are distinct, and none of them was seen before. -/
def Fresh (seen names : List String) : Prop := names.Nodup ∧ ∀ name ∈ names, name ∉ seen

theorem fresh_nil (seen : List String) : Fresh seen [] := ⟨List.nodup_nil, by simp⟩

theorem Fresh.cons {seen names : List String} {name : String} (hname : name ∉ seen)
    (h : Fresh (name :: seen) names) : Fresh seen (name :: names) := by
  refine ⟨List.nodup_cons.2 ⟨fun hmem => h.2 name hmem List.mem_cons_self, h.1⟩, ?_⟩
  intro other hother
  rcases List.mem_cons.1 hother with rfl | hother
  · exact hname
  · exact fun hseen => h.2 other hother (List.mem_cons_of_mem _ hseen)

/-- The reader goes on behind a proper expression that began at some cursor before. -/
def Enlarges (r : Reader Expr) (left : Expr) : Prop :=
  ∀ b c : Cursor, b.Returned c (left.Proper b.depth) →
    (r c).Meets (fun e d => b.Returned d (e.Proper b.depth)) b.Refused True

/-- The readers of expressions with so much fuel make proper ones. -/
structure MakesExprs (fuel : Nat) : Prop where
  expression : ∀ c, (expression fuel).Makes Expr.Proper c
  chain : ∀ least c, (chain fuel least).Makes Expr.Proper c
  operators : ∀ least left, (operators fuel least left).Enlarges left
  unary : ∀ c, (unary fuel).Makes Expr.Proper c
  postfixed : ∀ c, (postfixed fuel).Makes Expr.Proper c
  suffixes : ∀ target, (suffixes fuel target).Enlarges target
  primary : ∀ c, (primary fuel).Makes Expr.Proper c
  named : ∀ c, (named fuel).Makes Expr.Proper c
  expressions : ∀ close c, (expressions fuel close).Makes Expr.ProperItems c
  someExpressions : ∀ c, (someExpressions fuel).Makes Expr.ProperItems c
  arrayLiteral : ∀ c, (arrayLiteral fuel).Makes Expr.Proper c
  structLiteral : ∀ c, (structLiteral fuel).Makes Expr.Proper c
  structFields : ∀ seen c, (structFields fuel seen).Makes (fun n fields =>
    Expr.ProperFields n fields ∧ Fresh seen (fields.map fun field => field.1.text)) c

variable {fuel : Nat}

theorem makes_chain (ih : MakesExprs fuel) (least : Nat) (c : Cursor) :
    (chain (fuel + 1) least).Makes Expr.Proper c := by
  unfold chain
  apply makes_step (.refl c trivial) (ih.unary c)
  intro left d hd
  exact ih.operators least left c d (hd.of_imp And.right)

theorem enlarges_operators (ih : MakesExprs fuel) (least : Nat) (left : Expr) :
    (operators (fuel + 1) least left).Enlarges left := by
  intro b c hc
  unfold operators
  apply meets_kind
  intro k _
  cases k.binaryOp? with
  | none => exact hc
  | some op =>
    dsimp only
    split
    · exact hc
    · apply makes_next hc
      intro _ d hd
      apply makes_step hd (ih.chain _ d)
      intro right d hd
      exact ih.operators _ _ b d (hd.of_imp Expr.proper_binary.2)

theorem makes_unary (ih : MakesExprs fuel) (c : Cursor) :
    (unary (fuel + 1)).Makes Expr.Proper c := by
  unfold unary
  apply meets_kind
  intro k _
  cases k.unaryOp? with
  | none => exact ih.postfixed c
  | some op =>
    apply makes_next (.refl c trivial)
    intro start d hd
    apply makes_step hd (makes_nested ih.unary d)
    intro operand d hd
    exact hd.of_imp fun h => Expr.proper_unary h.2.1 h.2.2

theorem makes_postfixed (ih : MakesExprs fuel) (c : Cursor) :
    (postfixed (fuel + 1)).Makes Expr.Proper c := by
  unfold postfixed
  apply makes_step (.refl c trivial) (ih.primary c)
  intro target d hd
  exact ih.suffixes target c d (hd.of_imp And.right)

theorem enlarges_suffixes (ih : MakesExprs fuel) (target : Expr) :
    (suffixes (fuel + 1) target).Enlarges target := by
  intro b c hc
  unfold suffixes
  apply meets_kind
  intro k _
  split
  · apply makes_next hc
    intro _ d hd
    apply makes_step hd (ih.expression d)
    intro place d hd
    apply makes_expect hd
    intro _ d hd
    apply makes_accept hd
    · intro d hd
      rw [if_pos rfl]
      apply makes_step hd (ih.expression d)
      intro value d hd
      exact hd.of_imp fun h => by simpa [and_assoc] using h
    · rw [if_neg (by simp), spanFrom_bind]
      exact ih.suffixes _ b d (hd.of_imp Expr.proper_index.2)
  · apply makes_next hc
    intro _ d hd
    apply makes_name hd
    intro member d hd
    apply makes_accept hd
    · intro d hd
      rw [if_pos rfl]
      apply makes_step hd (ih.expression d)
      intro value d hd
      exact hd.of_imp Expr.proper_assignMember.2
    · exact ih.suffixes _ b d (hd.of_imp Expr.proper_member.2)
  · exact hc

theorem makes_primary (ih : MakesExprs fuel) (c : Cursor) :
    (primary (fuel + 1)).Makes Expr.Proper c := by
  unfold primary
  apply meets_kind
  intro k _
  split
  · exact ih.arrayLiteral c
  · exact ih.structLiteral c
  · apply makes_next (.refl c trivial)
    intro start d hd
    apply makes_step hd (makes_nested ih.expression d)
    intro inner d hd
    apply makes_expect hd
    intro _ d hd
    exact hd.of_imp fun h => Expr.proper_paren h.2.1 h.2.2
  · exact ih.named c
  · cases k.literal? with
    | some value =>
      apply makes_next (.refl c trivial)
      exact fun _ d hd => hd.of_imp fun _ => Expr.proper_literal value
    | none => exact makes_fail _ (.refl c trivial)

theorem makes_named (ih : MakesExprs fuel) (c : Cursor) :
    (named (fuel + 1)).Makes Expr.Proper c := by
  unfold named
  apply makes_name (.refl c trivial)
  intro target d hd
  apply meets_kind
  intro k _
  split
  · apply makes_next hd
    intro _ d hd
    apply makes_step hd (ih.expression d)
    intro value d hd
    exact hd.of_imp fun h => Expr.proper_assign.2 h.2
  · apply makes_next hd
    exact fun _ d hd => hd.of_imp fun _ => Expr.proper_adjust target .increment
  · apply makes_next hd
    exact fun _ d hd => hd.of_imp fun _ => Expr.proper_adjust target .decrement
  · apply makes_next hd
    intro _ d hd
    apply makes_step hd (ih.expressions _ d)
    intro arguments d hd
    exact hd.of_imp fun h => Expr.proper_call.2 h.2
  · exact hd.of_imp fun _ => Expr.proper_variable target

theorem makes_expressions (ih : MakesExprs fuel) (close : Symbol) (c : Cursor) :
    (expressions (fuel + 1) close).Makes Expr.ProperItems c := by
  unfold expressions
  apply meets_kind
  intro k _
  split
  · apply makes_next (.refl c trivial)
    exact fun _ d hd => hd.of_imp fun _ => Expr.properItems_nil
  · apply makes_step (.refl c trivial) (ih.someExpressions c)
    intro items d hd
    apply makes_expect hd
    exact fun _ d hd => hd.of_imp And.right

theorem makes_someExpressions (ih : MakesExprs fuel) (c : Cursor) :
    (someExpressions (fuel + 1)).Makes Expr.ProperItems c := by
  unfold someExpressions
  apply makes_step (.refl c trivial) (ih.expression c)
  intro item d hd
  apply makes_accept hd
  · intro d hd
    rw [if_pos rfl]
    apply makes_step hd (ih.someExpressions d)
    intro items d hd
    exact hd.of_imp fun h => Expr.properItems_cons.2 ⟨h.1.2, h.2⟩
  · exact hd.of_imp fun h => Expr.properItems_cons.2 ⟨h.2, Expr.properItems_nil⟩

theorem makes_arrayLiteral (ih : MakesExprs fuel) (c : Cursor) :
    (arrayLiteral (fuel + 1)).Makes Expr.Proper c := by
  unfold arrayLiteral
  apply makes_next (.refl c trivial)
  intro start d hd
  apply meets_kind
  intro k _
  split
  · apply makes_next hd
    intro _ d hd
    apply makes_step hd (ih.expressions _ d)
    intro items d hd
    exact hd.of_imp fun h => Expr.proper_array.2 h.2
  · apply makes_next hd
    intro _ d hd
    apply makes_step hd (ih.expression d)
    intro size d hd
    apply makes_expect hd
    intro _ d hd
    exact hd.of_imp fun h => Expr.proper_arrayOfSize.2 h.2
  · exact makes_fail _ hd

theorem makes_structLiteral (ih : MakesExprs fuel) (c : Cursor) :
    (structLiteral (fuel + 1)).Makes Expr.Proper c := by
  unfold structLiteral
  apply makes_next (.refl c trivial)
  intro start d hd
  apply makes_expect hd
  intro _ d hd
  apply makes_step hd (ih.structFields [] d)
  intro fields d hd
  apply makes_expect hd
  intro _ d hd
  exact hd.of_imp fun h => Expr.proper_struct.2 ⟨h.2.1, h.2.2.1⟩

/-- A field that is there twice does not stop the reader, but is not forgotten either. -/
theorem makes_structFields (ih : MakesExprs fuel) (seen : List String) (c : Cursor) :
    (structFields (fuel + 1) seen).Makes (fun n fields =>
      Expr.ProperFields n fields ∧ Fresh seen (fields.map fun field => field.1.text)) c := by
  unfold structFields
  apply meets_kind
  intro k _
  split
  · exact .refl c ⟨Expr.properFields_nil, fresh_nil seen⟩
  · apply makes_name (.refl c trivial)
    intro field d hd
    apply makes_expect hd
    intro _ d hd
    apply makes_step hd (ih.expression d)
    intro value d hd
    apply makes_expect hd
    intro _ d hd
    apply makes_complainIf hd
    intro d hd
    apply makes_step hd (ih.structFields _ d)
    intro fields d hd
    refine hd.of_imp fun h => ?_
    obtain ⟨⟨⟨-, hvalue⟩, hseen⟩, hfields, hfresh⟩ := h
    constructor
    · exact Expr.properFields_cons.2 ⟨hvalue, hfields⟩
    · exact hfresh.cons (of_decide_eq_false hseen)

theorem makesExprs (fuel : Nat) : MakesExprs fuel := by
  induction fuel with
  | zero =>
    constructor
    case operators => exact fun _ _ _ _ _ => trivial
    case suffixes => exact fun _ _ _ _ => trivial
    all_goals intros; trivial
  | succ fuel ih =>
    exact {
      expression := ih.chain 1
      chain := makes_chain ih
      operators := enlarges_operators ih
      unary := makes_unary ih
      postfixed := makes_postfixed ih
      suffixes := enlarges_suffixes ih
      primary := makes_primary ih
      named := makes_named ih
      expressions := makes_expressions ih
      someExpressions := makes_someExpressions ih
      arrayLiteral := makes_arrayLiteral ih
      structLiteral := makes_structLiteral ih
      structFields := makes_structFields ih
    }

/-! Parts of statements that contain no statements -/

theorem makes_expression (c : Cursor) : (expression fuel).Makes Expr.Proper c :=
  (makesExprs fuel).expression c

theorem makes_condition (c : Cursor) : (condition fuel).Makes Expr.Proper c := by
  unfold condition
  apply makes_expect (.refl c trivial)
  intro _ d hd
  apply makes_step hd (makes_expression d)
  intro test d hd
  apply makes_expect hd
  exact fun _ d hd => hd.of_imp And.right

theorem makes_declaration (c : Cursor) : (declaration fuel).Makes Stmt.ProperWithin c := by
  unfold declaration
  apply makes_next (.refl c trivial)
  intro start d hd
  apply makes_name hd
  intro target d hd
  apply makes_step hd (makes_after makes_expression d)
  intro init d hd
  apply makes_expect hd
  exact fun _ d hd => hd.of_imp fun h => Stmt.properWithin_declare.2 h.2

theorem makes_loopJump (jump : LoopJump) (c : Cursor) :
    (loopJump jump).Makes Stmt.ProperWithin c := by
  unfold loopJump
  apply makes_next (.refl c trivial)
  intro start d hd
  apply makes_expect hd
  exact fun _ d hd => hd.of_imp fun _ => Stmt.properWithin_jump jump

theorem makes_transfer (kind : Transfer) (c : Cursor) :
    (transfer fuel kind).Makes Stmt.ProperWithin c := by
  unfold transfer
  apply makes_next (.refl c trivial)
  intro start d hd
  apply makes_step hd (makes_unlessAhead (makes_expression d))
  intro value d hd
  apply makes_expect hd
  exact fun _ d hd => hd.of_imp fun h => Stmt.properWithin_transfer.2 h.2

theorem makes_expressionStatement (c : Cursor) :
    (expressionStatement fuel).Makes Stmt.ProperWithin c := by
  unfold expressionStatement
  apply makes_step (.refl c trivial) (makes_expression c)
  intro value d hd
  apply makes_expect hd
  exact fun _ d hd => hd.of_imp fun h => Stmt.properWithin_expression.2 h.2

theorem makes_parameters (fuel : Nat) (seen : List String) (c : Cursor) :
    (parameters fuel seen).Makes (fun _ params => Fresh seen (params.map Name.text)) c := by
  induction fuel generalizing seen c with
  | zero => trivial
  | succ fuel ih =>
    unfold parameters
    apply makes_name (.refl c trivial)
    intro param d hd
    apply makes_complainIf hd
    intro d hd
    apply makes_accept hd
    · intro d hd
      rw [if_pos rfl]
      apply makes_step hd (ih _ d)
      intro params d hd
      exact hd.of_imp fun h => h.2.cons (of_decide_eq_false h.1.2)
    · exact hd.of_imp fun h => (fresh_nil _).cons (of_decide_eq_false h.2)

theorem makes_parameterList (c : Cursor) :
    (parameterList fuel).Makes (fun _ params => (params.map Name.text).Nodup) c := by
  unfold parameterList
  apply makes_expect (.refl c trivial)
  intro _ d hd
  apply makes_step hd (makes_unlessAhead (makes_parameters fuel [] d))
  intro params d hd
  apply makes_expect hd
  refine fun _ d hd => hd.of_imp fun h => ?_
  cases params with
  | none => exact List.nodup_nil
  | some params => exact (h.2 params rfl).1

theorem makes_handlerParameter (c : Cursor) :
    handlerParameter.Makes (fun _ _ => True) c := by
  unfold handlerParameter
  have hparam : ∀ c, Makes (do
      let param ← name
      let _ ← expect (.symbol .rightParen)
      pure param) (fun _ _ => True) c := by
    intro c
    apply makes_name (.refl c trivial)
    intro param d hd
    apply makes_expect hd
    exact fun _ d hd => hd
  exact (makes_after hparam c).mono (fun _ _ h => h.of_imp fun _ => trivial) (fun _ h => h)
    (fun h => h)

/-! Statements -/

/-- The readers of statements with so much fuel make proper ones. What is read as a statement is one
level deeper than the statement. -/
structure MakesStmts (fuel : Nat) : Prop where
  statement : ∀ c, (statement fuel).Makes Stmt.Proper c
  statementKind : ∀ c, (statementKind fuel).Makes Stmt.ProperWithin c
  statements : ∀ c, (statements fuel).Makes Stmt.ProperBody c
  block : ∀ c, (block fuel).Makes (fun n b => Stmt.ProperBody n b.1) c
  function : ∀ c, (function fuel).Makes Stmt.ProperWithin c
  branch : ∀ c, (branch fuel).Makes Stmt.ProperWithin c
  loop : ∀ c, (loop fuel).Makes Stmt.ProperWithin c
  attempt : ∀ c, (attempt fuel).Makes Stmt.ProperWithin c

theorem makes_statement (ih : MakesStmts fuel) (c : Cursor) :
    (statement (fuel + 1)).Makes Stmt.Proper c := by
  unfold statement
  exact (makes_nested ih.statementKind c).mono
    (fun _ _ h => h.of_imp fun hs => hs.2.proper hs.1) (fun _ h => h) (fun h => h)

theorem makes_statementKind (ih : MakesStmts fuel) (c : Cursor) :
    (statementKind (fuel + 1)).Makes Stmt.ProperWithin c := by
  unfold statementKind
  apply meets_kind
  intro k _
  split
  · apply makes_step (.refl c trivial) (ih.block c)
    exact fun _ d hd => hd.of_imp fun h => Stmt.properWithin_block.2 h.2
  · rw [map_apply]
    apply makes_next (.refl c trivial)
    exact fun _ d hd => hd.of_imp fun _ => Stmt.properWithin_empty
  · exact makes_declaration c
  · exact ih.function c
  · exact ih.branch c
  · exact ih.loop c
  · exact ih.attempt c
  · rename_i word _ _ _ _ _ _
    cases word.loopJump? with
    | some jump => exact makes_loopJump jump c
    | none =>
      cases word.transfer? with
      | some kind => exact makes_transfer kind c
      | none => exact makes_expressionStatement c
  · exact makes_expressionStatement c

/-- A statement that cannot be read is left out, at the depth at which it was expected. -/
theorem makes_orRecover {r : Reader Stmt} {c : Cursor} (hr : r.Makes Stmt.Proper c) :
    (orRecover r).Makes (fun n s => Stmt.ProperBody n s.toList) c := by
  unfold Makes at *
  rw [orRecover]
  cases hread : r c with
  | done s d =>
    rw [hread] at hr
    exact hr.of_imp fun hs => Stmt.properBody_cons.2 ⟨hs, Stmt.properBody_nil⟩
  | failed d =>
    rw [hread] at hr
    exact .recover hr c
  | exhausted => trivial

theorem makes_statements (ih : MakesStmts fuel) (c : Cursor) :
    (statements (fuel + 1)).Makes Stmt.ProperBody c := by
  unfold statements
  apply meets_kind
  intro k _
  split
  · exact .refl c Stmt.properBody_nil
  · rw [isFull_bind]
    split
    · exact .refl c Stmt.properBody_nil
    · apply makes_step (.refl c trivial) (makes_orRecover (ih.statement c))
      intro first d hd
      apply makes_step hd (ih.statements d)
      exact fun _ d hd => hd.of_imp fun h => Stmt.properBody_append.2 ⟨h.1.2, h.2⟩

theorem makes_block (ih : MakesStmts fuel) (c : Cursor) :
    (block (fuel + 1)).Makes (fun n b => Stmt.ProperBody n b.1) c := by
  unfold block
  apply makes_expect (.refl c trivial)
  intro start d hd
  apply makes_step hd (ih.statements d)
  intro body d hd
  apply makes_expect hd
  exact fun _ d hd => hd.of_imp And.right

theorem makes_function (ih : MakesStmts fuel) (c : Cursor) :
    (function (fuel + 1)).Makes Stmt.ProperWithin c := by
  unfold function
  apply makes_next (.refl c trivial)
  intro start d hd
  apply makes_name hd
  intro target d hd
  apply makes_step hd (makes_parameterList d)
  intro params d hd
  apply makes_step hd (ih.block d)
  intro body d hd
  exact hd.of_imp fun h => Stmt.properWithin_function.2 ⟨h.1.2, h.2⟩

theorem makes_branch (ih : MakesStmts fuel) (c : Cursor) :
    (branch (fuel + 1)).Makes Stmt.ProperWithin c := by
  unfold branch
  apply makes_next (.refl c trivial)
  intro start d hd
  apply makes_step hd (makes_condition d)
  intro test d hd
  apply makes_step hd (ih.statement d)
  intro thenBranch d hd
  apply makes_step hd (makes_after ih.statement d)
  intro elseBranch d hd
  refine hd.of_imp fun h => ?_
  obtain ⟨⟨⟨-, htest⟩, hthen⟩, helse⟩ := h
  exact Stmt.properWithin_branch.2 ⟨htest, hthen, helse⟩

theorem makes_loop (ih : MakesStmts fuel) (c : Cursor) :
    (loop (fuel + 1)).Makes Stmt.ProperWithin c := by
  unfold loop
  apply makes_next (.refl c trivial)
  intro start d hd
  apply makes_step hd (makes_condition d)
  intro test d hd
  apply makes_step hd (ih.statement d)
  intro body d hd
  exact hd.of_imp fun h => Stmt.properWithin_loop.2 ⟨h.1.2, h.2⟩

theorem makes_attempt (ih : MakesStmts fuel) (c : Cursor) :
    (attempt (fuel + 1)).Makes Stmt.ProperWithin c := by
  unfold attempt
  apply makes_next (.refl c trivial)
  intro start d hd
  apply makes_step hd (ih.block d)
  intro body d hd
  apply makes_expect hd
  intro handlerStart d hd
  apply makes_step hd (makes_handlerParameter d)
  intro param d hd
  apply makes_step hd (ih.block d)
  intro handler d hd
  refine hd.of_imp fun h => ?_
  obtain ⟨⟨⟨-, hbody⟩, -⟩, hhandler⟩ := h
  exact Stmt.properWithin_attempt.2 ⟨hbody, hhandler⟩

theorem makesStmts (fuel : Nat) : MakesStmts fuel := by
  induction fuel with
  | zero => constructor <;> intros <;> trivial
  | succ fuel ih =>
    exact {
      statement := makes_statement ih
      statementKind := makes_statementKind ih
      statements := makes_statements ih
      block := makes_block ih
      function := makes_function ih
      branch := makes_branch ih
      loop := makes_loop ih
      attempt := makes_attempt ih
    }

theorem makes_script (fuel : Nat) (c : Cursor) : (script fuel).Makes Stmt.ProperBody c := by
  induction fuel generalizing c with
  | zero => trivial
  | succ fuel ih =>
    unfold script
    apply meets_kind
    intro k _
    split
    · exact .refl c Stmt.properBody_nil
    · rw [isFull_bind]
      split
      · exact .refl c Stmt.properBody_nil
      · split
        · -- A stray brace is complained about, so that the rest may be anything.
          rw [here_bind, complain_bind]
          have hstray : c.Returned (c.complain .strayBrace c.here) False :=
            .of_refused (refused_complain c _ _)
          apply makes_next hstray
          intro _ d hd
          have hrest := ih d
          unfold Makes at hrest
          refine hrest.mono (fun body e he => ?_) (fun e he => hd.refused he) (fun h => h)
          exact (hd.trans he).of_imp fun h => h.1.elim
        · apply makes_step (.refl c trivial) (makes_orRecover ((makesStmts fuel).statement c))
          intro first d hd
          apply makes_step hd (ih d)
          exact fun _ d hd => hd.of_imp fun h => Stmt.properBody_append.2 ⟨h.1.2, h.2⟩

end Reader

end ScriptEngine
