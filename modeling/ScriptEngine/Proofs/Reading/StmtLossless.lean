import ScriptEngine.Proofs.Reading.ExprLossless

/-!
Readers of statements lose nothing as long as they do not complain. A statement that cannot be read
always leaves a complaint behind, so that recovery skips tokens only where there is one; and
recovery always skips something, so that a body never runs out of fuel.
-/
namespace ScriptEngine

namespace Cursor

theorem skipFrom_suffix (moved : Bool) (previous : Span) (tokens : List Token) :
    (skipFrom moved previous tokens).1 <:+ tokens := by
  fun_induction skipFrom moved previous tokens with
  | case1 => exact List.suffix_refl _
  | case2 => exact List.suffix_refl _
  | case3 => exact List.suffix_cons _ _
  | case4 => exact List.suffix_refl _
  | case5 moved previous t rest _ _ _ ih => exact ih.trans (List.suffix_cons _ _)

/-- Unless the file ends, a failed statement that took no token makes recovery take one. -/
theorem length_skipFrom_lt {tokens : List Token} {t : Token} {rest : List Token}
    (htokens : tokens = t :: rest) (ht : t.kind ≠ .endOfFile) (previous : Span) :
    (skipFrom false previous tokens).1.length < tokens.length := by
  subst htokens
  unfold skipFrom
  rw [if_neg ht]
  split
  · simp
  · have := length_skipFrom_le true t.span rest
    simp only [Bool.false_and, Bool.false_eq_true, if_false, List.length_cons]
    omega


theorem suffix_recover (before c : Cursor) : (recover before c).rest <:+ c.rest :=
  skipFrom_suffix _ _ _

/-- Recovery goes past the beginning of the statement that failed. -/
theorem length_recover_lt {before c : Cursor} (hbefore : before.kind ≠ .endOfFile)
    (hc : c.rest <:+ before.rest) : (recover before c).rest.length < before.rest.length := by
  have hle := hc.length_le
  by_cases hmoved : c.rest.length < before.rest.length
  · have := (suffix_recover before c).length_le
    omega
  · have hrest : c.rest = before.rest := hc.eq_of_length (by omega)
    obtain ⟨t, rest, hbefore', ht⟩ := exists_rest rfl hbefore
    unfold recover
    simp only [decide_eq_false hmoved]
    rw [hrest]
    exact length_skipFrom_lt hbefore' (by rwa [ht]) _

end Cursor

namespace Stmt

theorem bodyTokens_append (a b : List Stmt) : bodyTokens (a ++ b) = bodyTokens a ++ bodyTokens b := by
  induction a with
  | nil => rfl
  | cons s rest ih => simp only [List.cons_append, bodyTokens, ih, List.append_assoc]

end Stmt

namespace Reader

open Cursor

variable {fuel : Nat}

/-! Parts of statements that contain no statements -/

theorem lossless_condition (c : Cursor) :
    (condition fuel).Lossless c fuel 1 0 fun e =>
      .symbol .leftParen :: (e.tokens ++ [.symbol .rightParen]) := by
  unfold condition
  apply meets_token (Over.refl c) (expect_passes (by simp))
  intro _ d hd
  apply meets_step hd ((exprReaders fuel).expression d) (by omega)
  intro test d hd
  apply meets_token hd (expect_passes (by simp))
  intro _ d hd
  exact hd.of_eq (by omega) (by simp)

theorem lossless_declaration (c : Cursor) (hk : c.kind = .keyword .var) :
    (declaration fuel).Lossless c fuel 1 1 Stmt.tokens := by
  unfold declaration
  apply meets_token (Over.refl c) (next_passes hk (by simp))
  intro start d hd
  apply meets_token hd name_passes
  intro target d hd
  have hinit : (after (.symbol .assign) (expression fuel)).Lossless d fuel 6 0 Stmt.initTokens := by
    apply after_passes Expr.tokens (by simp)
    intro e _
    exact ((exprReaders fuel).expression e).mono (fun _ _ h => h) (fun _ h => h) (by omega)
  apply meets_step hd hinit (by omega)
  intro init d hd
  apply meets_token hd (expect_passes (by simp))
  intro _ d hd
  exact hd.of_eq (by omega) (by simp [Stmt.tokens])

theorem lossless_loopJump {jump : LoopJump} (c : Cursor) (hk : c.kind = .keyword jump.word) :
    (loopJump jump).Lossless c fuel 1 1 Stmt.tokens := by
  unfold loopJump
  apply meets_token (Over.refl c) (next_passes hk (by simp))
  intro start d hd
  apply meets_token hd (expect_passes (by simp))
  intro _ d hd
  exact hd.of_eq (by omega) (by simp [Stmt.tokens])

theorem lossless_transfer {kind : Transfer} (c : Cursor) (hk : c.kind = .keyword kind.word) :
    (transfer fuel kind).Lossless c fuel 1 1 Stmt.tokens := by
  unfold transfer
  apply meets_token (Over.refl c) (next_passes hk (by simp))
  intro start d hd
  have hvalue : (unlessAhead (.symbol .semicolon) (expression fuel)).Lossless d fuel 6 0
      Stmt.valueTokens := unlessAhead_passes ((exprReaders fuel).expression d)
  apply meets_step hd hvalue (by omega)
  intro value d hd
  apply meets_token hd (expect_passes (by simp))
  intro _ d hd
  exact hd.of_eq (by omega) (by simp [Stmt.tokens])

theorem lossless_expressionStatement (c : Cursor) :
    (expressionStatement fuel).Lossless c fuel 6 1 Stmt.tokens := by
  unfold expressionStatement
  apply meets_step (Over.refl c) ((exprReaders fuel).expression c) (by omega)
  intro value d hd
  apply meets_token hd (expect_passes (by simp))
  intro _ d hd
  exact hd.of_eq (by omega) (by simp [Stmt.tokens])

/-- The names that a list of parameters begins with are not empty. -/
theorem parameters_passes (fuel : Nat) (seen : List String) (c : Cursor) :
    (parameters fuel seen c).Meets
      (fun params d => params ≠ [] ∧ c.Over d 0 (Stmt.nameTokens params)) c.Stuck
      (fuel < 16 * c.rest.length + 1) := by
  induction fuel generalizing seen c with
  | zero => exact Nat.lt_of_lt_of_le (by omega) (Nat.le_add_left _ _)
  | succ fuel ih =>
    unfold parameters
    apply meets_token (Over.refl c) name_passes
    intro param d hd
    apply meets_token hd (complainIf_passes _ _ _)
    intro _ d hd
    rw [accept_bind]
    split
    · rename_i hcomma
      have hd := hd.trans (over_advance hcomma (by simp))
      refine (ih _ _).bind ?_ (fun _ => hd.stuck) ?_
      · intro params e hresult
        obtain ⟨hne, he⟩ := hresult
        obtain ⟨next, rest, rfl⟩ := List.exists_cons_of_ne_nil hne
        exact ⟨by simp, (hd.trans he).of_eq (by omega) (by simp [Stmt.nameTokens])⟩
      · have := hd.shorter
        omega
    · exact ⟨by simp, hd.of_eq (by omega) (by simp [Stmt.nameTokens])⟩

theorem lossless_parameterList (c : Cursor) :
    (parameterList fuel).Lossless c fuel 1 0 fun params =>
      .symbol .leftParen :: (Stmt.nameTokens params ++ [.symbol .rightParen]) := by
  unfold parameterList
  apply meets_token (Over.refl c) (expect_passes (by simp))
  intro _ d hd
  have hparams := (parameters_passes fuel [] d).mono (fun _ _ h => h.2) (fun _ h => h) (fun h => h)
  apply meets_step hd (unlessAhead_passes hparams) (by omega)
  intro params d hd
  apply meets_token hd (expect_passes (by simp))
  intro _ d hd
  exact hd.of_eq (by omega) (by cases params <;> simp [Stmt.nameTokens])

theorem handlerParameter_passes {c : Cursor} :
    (handlerParameter c).Meets (fun param d => c.Over d 0 (Stmt.handlerTokens param)) c.Stuck
      False := by
  unfold handlerParameter
  refine after_passes (fun param : Name => [.name param.text, .symbol .rightParen]) (by simp)
    fun d _ => ?_
  apply meets_token (Over.refl d) name_passes
  intro param e he
  apply meets_token he (expect_passes (by simp))
  intro _ e he
  exact he.of_eq (by omega) (by simp)

/-! Statements -/

theorem isFull_bind {α : Type} {c : Cursor} (f : Bool → Reader α) :
    (isFull >>= f) c = f c.isFull c := rfl

/-- The readers of statements with so much fuel lose nothing. -/
structure StmtReaders (fuel : Nat) : Prop where
  statement : ∀ c, (statement fuel).Lossless c fuel 8 1 Stmt.tokens
  statementKind : ∀ c, (statementKind fuel).Lossless c fuel 7 1 Stmt.tokens
  statements : ∀ c, (statements fuel).Lossless c fuel 9 0 Stmt.bodyTokens
  block : ∀ c, (block fuel).Lossless c fuel 1 1 fun b => Stmt.braced (Stmt.bodyTokens b.1)
  function : ∀ c, c.kind = .keyword .function → (function fuel).Lossless c fuel 1 1 Stmt.tokens
  branch : ∀ c, c.kind = .keyword .if → (branch fuel).Lossless c fuel 1 1 Stmt.tokens
  loop : ∀ c, c.kind = .keyword .while → (loop fuel).Lossless c fuel 1 1 Stmt.tokens
  attempt : ∀ c, c.kind = .keyword .try → (attempt fuel).Lossless c fuel 1 1 Stmt.tokens

theorem lossless_statement (ih : StmtReaders fuel) (c : Cursor) :
    (statement (fuel + 1)).Lossless c (fuel + 1) 8 1 Stmt.tokens := by
  unfold statement
  exact (lossless_nested ih.statementKind c).mono (fun _ _ h => h) (fun _ h => h) (by omega)

theorem lossless_statementKind (ih : StmtReaders fuel) (c : Cursor) :
    (statementKind (fuel + 1)).Lossless c (fuel + 1) 7 1 Stmt.tokens := by
  unfold statementKind
  apply meets_kind
  intro k hk
  split
  · apply meets_step (Over.refl c) (ih.block c) (by omega)
    intro body d hd
    exact hd.of_eq (by omega) (by simp [Stmt.tokens])
  · rw [map_apply]
    apply meets_token (Over.refl c) (next_passes hk (by simp))
    intro span d hd
    exact hd.of_eq (by omega) (by simp [Stmt.tokens])
  · exact (lossless_declaration c hk).mono (fun _ _ h => h) (fun _ h => h) (by omega)
  · exact (ih.function c hk).mono (fun _ _ h => h) (fun _ h => h) (by omega)
  · exact (ih.branch c hk).mono (fun _ _ h => h) (fun _ h => h) (by omega)
  · exact (ih.loop c hk).mono (fun _ _ h => h) (fun _ h => h) (by omega)
  · exact (ih.attempt c hk).mono (fun _ _ h => h) (fun _ h => h) (by omega)
  · rename_i word _ _ _ _ _
    cases hjump : word.loopJump? with
    | some jump =>
      rw [← LoopJump.word_of_loopJump? hjump] at hk
      exact (lossless_loopJump c hk).mono (fun _ _ h => h) (fun _ h => h)
        (fun h : fuel < _ => by omega)
    | none =>
      cases htransfer : word.transfer? with
      | some kind =>
        rw [← Transfer.word_of_transfer? htransfer] at hk
        exact (lossless_transfer c hk).mono (fun _ _ h => h) (fun _ h => h) (by omega)
      | none =>
        exact (lossless_expressionStatement c).mono (fun _ _ h => h) (fun _ h => h) (by omega)
  · exact (lossless_expressionStatement c).mono (fun _ _ h => h) (fun _ h => h) (by omega)

/-- A statement is read, or something is skipped after a complaint. -/
theorem lossless_orRecover (ih : StmtReaders fuel) (c : Cursor) (hc : c.kind ≠ .endOfFile) :
    (orRecover (statement fuel)).Lossless c fuel 8 1 fun s => Stmt.bodyTokens s.toList := by
  have h := ih.statement c
  unfold Lossless orRecover at *
  cases hread : statement fuel c with
  | done s d =>
    rw [hread] at h
    exact Over.of_eq h (by omega) (by simp [Stmt.bodyTokens])
  | failed d =>
    rw [hread] at h
    exact Over.of_blamed ((suffix_recover c d).trans h.suffix) (length_recover_lt hc h.suffix)
      h.blamed
  | exhausted =>
    rw [hread] at h
    exact h

theorem lossless_statements (ih : StmtReaders fuel) (c : Cursor) :
    (statements (fuel + 1)).Lossless c (fuel + 1) 9 0 Stmt.bodyTokens := by
  unfold statements
  apply meets_kind
  intro k hk
  split
  · exact Over.refl c
  · rename_i hmore
    rw [isFull_bind]
    split
    · exact Over.refl c
    · refine meets_step (Over.refl c) (lossless_orRecover ih c ?_) (by omega) fun first d hd => ?_
      · rw [hk]
        exact fun h => hmore (Or.inr h)
      · apply meets_step hd (ih.statements d) (by omega)
        intro others d hd
        exact hd.of_eq (by omega) (by simp [Stmt.bodyTokens_append])

theorem lossless_block (ih : StmtReaders fuel) (c : Cursor) :
    (block (fuel + 1)).Lossless c (fuel + 1) 1 1 fun b => Stmt.braced (Stmt.bodyTokens b.1) := by
  unfold block
  apply meets_token (Over.refl c) (expect_passes (by simp))
  intro start d hd
  apply meets_step hd (ih.statements d) (by omega)
  intro body d hd
  apply meets_token hd (expect_passes (by simp))
  intro _ d hd
  exact hd.of_eq (by omega) (by simp [Stmt.braced])

theorem lossless_function (ih : StmtReaders fuel) (c : Cursor) (hk : c.kind = .keyword .function) :
    (function (fuel + 1)).Lossless c (fuel + 1) 1 1 Stmt.tokens := by
  unfold function
  apply meets_token (Over.refl c) (next_passes hk (by simp))
  intro start d hd
  apply meets_token hd name_passes
  intro target d hd
  apply meets_step hd (lossless_parameterList d) (by omega)
  intro params d hd
  apply meets_step hd (ih.block d) (by omega)
  intro body d hd
  exact hd.of_eq (by omega) (by simp [Stmt.tokens])

theorem lossless_branch (ih : StmtReaders fuel) (c : Cursor) (hk : c.kind = .keyword .if) :
    (branch (fuel + 1)).Lossless c (fuel + 1) 1 1 Stmt.tokens := by
  unfold branch
  apply meets_token (Over.refl c) (next_passes hk (by simp))
  intro start d hd
  apply meets_step hd (lossless_condition d) (by omega)
  intro test d hd
  apply meets_step hd (ih.statement d) (by omega)
  intro thenBranch d hd
  have helse : (after (.keyword .else) (statement fuel)).Lossless d fuel 8 0 Stmt.elseTokens := by
    refine (after_passes Stmt.tokens (by simp) fun e _ => ?_).mono ?_ (fun _ h => h) (fun h => h)
    · exact (ih.statement e).mono (fun _ _ h => h.of_eq (by omega) rfl) (fun _ h => h) (by omega)
    · exact fun other e he => he.of_eq (by omega) (by cases other <;> rfl)
  apply meets_step hd helse (by omega)
  intro elseBranch d hd
  exact hd.of_eq (by omega) (by simp [Stmt.tokens])

theorem lossless_loop (ih : StmtReaders fuel) (c : Cursor) (hk : c.kind = .keyword .while) :
    (loop (fuel + 1)).Lossless c (fuel + 1) 1 1 Stmt.tokens := by
  unfold loop
  apply meets_token (Over.refl c) (next_passes hk (by simp))
  intro start d hd
  apply meets_step hd (lossless_condition d) (by omega)
  intro test d hd
  apply meets_step hd (ih.statement d) (by omega)
  intro body d hd
  exact hd.of_eq (by omega) (by simp [Stmt.tokens])

theorem lossless_attempt (ih : StmtReaders fuel) (c : Cursor) (hk : c.kind = .keyword .try) :
    (attempt (fuel + 1)).Lossless c (fuel + 1) 1 1 Stmt.tokens := by
  unfold attempt
  apply meets_token (Over.refl c) (next_passes hk (by simp))
  intro start d hd
  apply meets_step hd (ih.block d) (by omega)
  intro body d hd
  apply meets_token hd (expect_passes (by simp))
  intro handlerStart d hd
  apply meets_token hd handlerParameter_passes
  intro param d hd
  apply meets_step hd (ih.block d) (by omega)
  intro handler d hd
  exact hd.of_eq (by omega) (by simp [Stmt.tokens])

theorem stmtReaders (fuel : Nat) : StmtReaders fuel := by
  induction fuel with
  | zero =>
    constructor <;> intros <;> exact Nat.lt_of_lt_of_le (by omega) (Nat.le_add_left _ _)
  | succ fuel ih =>
    exact {
      statement := lossless_statement ih
      statementKind := lossless_statementKind ih
      statements := lossless_statements ih
      block := lossless_block ih
      function := lossless_function ih
      branch := lossless_branch ih
      loop := lossless_loop ih
      attempt := lossless_attempt ih
    }

/-- A script is read up to the end of the file, unless there is something to complain about. -/
theorem script_passes (fuel : Nat) (c : Cursor) :
    (script fuel c).Meets
      (fun body d => c.Over d 0 (Stmt.bodyTokens body) ∧
        (d.complaints = [] → d.kind = .endOfFile))
      c.Stuck (fuel < 16 * c.rest.length + 9) := by
  induction fuel generalizing c with
  | zero => exact Nat.lt_of_lt_of_le (by omega) (Nat.le_add_left _ _)
  | succ fuel ih =>
    unfold script
    apply meets_kind
    intro k hk
    split
    · rename_i hend
      exact ⟨Over.refl c, fun _ => hk.trans hend⟩
    · rename_i hmore
      rw [isFull_bind]
      split
      · rename_i hfull
        refine ⟨Over.refl c, fun hclean => ?_⟩
        simp [Cursor.isFull, hclean, maxErrors] at hfull
      · split
        · rename_i hbrace
          rw [here_bind]
          -- The brace is passed over without being listed, which the complaint allows.
          have hblamed := complain_ne_nil c .strayBrace c.here
          have hd : c.Over (c.complain .strayBrace c.here).advance 1 [] := by
            have hkind := (c.kind_complain .strayBrace c.here).trans (hk.trans hbrace)
            have hover := over_advance hkind (by simp)
            refine Over.of_blamed (hover.suffix.trans (suffix_complain c _ _)) ?_
              (fun hclean => hblamed (hover.clean hclean).1)
            have := hover.shorter
            rwa [rest_complain] at this
          refine (ih _).mono ?_ (fun _ => hd.stuck) ?_
          · exact fun body e he => ⟨(hd.trans he.1).of_eq (by omega) rfl, he.2⟩
          · have := hd.shorter
            omega
        · refine meets_step (Over.refl c)
            (lossless_orRecover (stmtReaders fuel) c (by rw [hk]; exact hmore)) (by omega)
            fun first d hd => ?_
          refine (ih d).bind ?_ (fun _ => hd.stuck) ?_
          · intro others e he
            exact ⟨(hd.trans he.1).of_eq (by omega) (by simp [Stmt.bodyTokens_append]), he.2⟩
          · have := hd.shorter
            omega

end Reader

end ScriptEngine
