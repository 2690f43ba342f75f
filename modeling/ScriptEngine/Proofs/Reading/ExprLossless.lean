import ScriptEngine.Proofs.Reading.Listing
import ScriptEngine.Proofs.Reading.Passage

/-!
Readers of expressions lose nothing: the expression that a reader gives is written back as exactly
the tokens that it took, none skipped and none made up. The induction is on the fuel; that enough of
it is there comes out of the same induction.
-/
namespace ScriptEngine

namespace Reader

open Cursor

variable {fuel : Nat}

/-- A reader that goes on behind an expression loses nothing either: what it took comes after the
tokens of that expression. -/
def Extends (r : Reader Expr) (c : Cursor) (fuel : Nat) (left : Expr) : Prop :=
  (r c).Meets (fun e d => ∃ passed, c.Over d 0 passed ∧ left.tokens ++ passed = e.tokens) c.Stuck
    (fuel < 16 * c.rest.length + 1)

/-- The readers of expressions with so much fuel lose nothing. -/
structure ExprReaders (fuel : Nat) : Prop where
  expression : ∀ c, (expression fuel).Lossless c fuel 6 0 Expr.tokens
  chain : ∀ least c, (chain fuel least).Lossless c fuel 5 0 Expr.tokens
  operators : ∀ least left c, (operators fuel least left).Extends c fuel left
  unary : ∀ c, (unary fuel).Lossless c fuel 4 0 Expr.tokens
  postfixed : ∀ c, (postfixed fuel).Lossless c fuel 3 0 Expr.tokens
  suffixes : ∀ target c, (suffixes fuel target).Extends c fuel target
  primary : ∀ c, (primary fuel).Lossless c fuel 2 0 Expr.tokens
  named : ∀ c, (named fuel).Lossless c fuel 1 0 Expr.tokens
  expressions : ∀ close c, (expressions fuel close).Lossless c fuel 8 0 fun items =>
    Expr.itemTokens items ++ [.symbol close]
  someExpressions : ∀ c, (someExpressions fuel c).Meets
    (fun items d => items ≠ [] ∧ c.Over d 0 (Expr.itemTokens items)) c.Stuck
    (fuel < 16 * c.rest.length + 7)
  arrayLiteral : ∀ c, c.kind = .keyword .array →
    (arrayLiteral fuel).Lossless c fuel 1 0 Expr.tokens
  structLiteral : ∀ c, c.kind = .keyword .struct →
    (structLiteral fuel).Lossless c fuel 1 0 Expr.tokens
  structFields : ∀ seen c, (structFields fuel seen).Lossless c fuel 1 0 Expr.fieldTokens

theorem lossless_expression (ih : ExprReaders fuel) (c : Cursor) :
    (expression (fuel + 1)).Lossless c (fuel + 1) 6 0 Expr.tokens := by
  unfold expression
  exact (ih.chain 1 c).mono (fun _ _ h => h) (fun _ h => h) (by omega)

theorem lossless_chain (ih : ExprReaders fuel) (least : Nat) (c : Cursor) :
    (chain (fuel + 1) least).Lossless c (fuel + 1) 5 0 Expr.tokens := by
  unfold chain
  apply meets_step (Over.refl c) (ih.unary c) (by omega)
  intro left d hd
  refine (ih.operators least left d).mono ?_ (fun _ => hd.stuck) ?_
  · intro e d' hresult
    obtain ⟨passed, hd', he⟩ := hresult
    have h := hd.trans hd'
    rw [List.nil_append, he] at h
    exact h
  · have := hd.shorter
    omega

theorem extends_operators (ih : ExprReaders fuel) (least : Nat) (left : Expr) (c : Cursor) :
    (operators (fuel + 1) least left).Extends c (fuel + 1) left := by
  unfold operators Extends
  apply meets_kind
  intro k hk
  cases hop : k.binaryOp? with
  | none => exact ⟨[], Over.refl c, List.append_nil _⟩
  | some op =>
    dsimp only
    split
    · exact ⟨[], Over.refl c, List.append_nil _⟩
    · have hk := hk.trans (BinaryOp.symbol_of_binaryOp? hop)
      apply meets_token (Over.refl c) (next_passes hk (by simp))
      intro _ d hd
      apply meets_step hd (ih.chain _ d) (by omega)
      intro right d' hd'
      refine (ih.operators least _ d').mono ?_ (fun _ => hd'.stuck) ?_
      · intro e d'' hresult
        obtain ⟨passed, hd'', he⟩ := hresult
        refine ⟨_, (hd'.trans hd'').of_eq (by omega) rfl, ?_⟩
        rw [← he]
        simp [Expr.tokens]
      · have := hd'.shorter
        omega

theorem lossless_unary (ih : ExprReaders fuel) (c : Cursor) :
    (unary (fuel + 1)).Lossless c (fuel + 1) 4 0 Expr.tokens := by
  unfold unary Lossless
  apply meets_kind
  intro k hk
  cases hop : k.unaryOp? with
  | none => exact (ih.postfixed c).mono (fun _ _ h => h) (fun _ h => h) (by omega)
  | some op =>
    have hk := hk.trans (UnaryOp.symbol_of_unaryOp? hop)
    apply meets_token (Over.refl c) (next_passes hk (by simp))
    intro start d hd
    apply meets_step hd (lossless_nested ih.unary d) (by omega)
    intro operand d' hd'
    exact hd'.of_eq (by omega) (by simp [Expr.tokens])

theorem lossless_postfixed (ih : ExprReaders fuel) (c : Cursor) :
    (postfixed (fuel + 1)).Lossless c (fuel + 1) 3 0 Expr.tokens := by
  unfold postfixed
  apply meets_step (Over.refl c) (ih.primary c) (by omega)
  intro target d hd
  refine (ih.suffixes target d).mono ?_ (fun _ => hd.stuck) ?_
  · intro e d' hresult
    obtain ⟨passed, hd', he⟩ := hresult
    exact (hd.trans hd').of_eq (by omega) (by rw [List.nil_append, he])
  · have := hd.shorter
    omega

theorem extends_suffixes (ih : ExprReaders fuel) (target : Expr) (c : Cursor) :
    (suffixes (fuel + 1) target).Extends c (fuel + 1) target := by
  unfold suffixes Extends
  apply meets_kind
  intro k hk
  split
  · apply meets_token (Over.refl c) (next_passes hk (by simp))
    intro _ d hd
    apply meets_step hd (ih.expression d) (by omega)
    intro place d hd
    apply meets_token hd (expect_passes (by simp))
    intro _ d hd
    rw [accept_bind]
    split
    · rename_i hassign
      have hd := hd.trans (over_advance hassign (by simp))
      apply meets_step hd (ih.expression _) (by omega)
      intro value d hd
      exact ⟨_, hd.of_eq (by omega) rfl, by simp [Expr.tokens]⟩
    · rw [if_neg (by simp), spanFrom_bind]
      refine (ih.suffixes _ d).mono ?_ (fun _ => hd.stuck) ?_
      · intro e d' hresult
        obtain ⟨passed, hd', he⟩ := hresult
        exact ⟨_, (hd.trans hd').of_eq (by omega) rfl, by rw [← he]; simp [Expr.tokens]⟩
      · have := hd.shorter
        omega
  · apply meets_token (Over.refl c) (next_passes hk (by simp))
    intro _ d hd
    apply meets_token hd name_passes
    intro member d hd
    rw [accept_bind]
    split
    · rename_i hassign
      have hd := hd.trans (over_advance hassign (by simp))
      apply meets_step hd (ih.expression _) (by omega)
      intro value d hd
      exact ⟨_, hd.of_eq (by omega) rfl, by simp [Expr.tokens]⟩
    · refine (ih.suffixes _ d).mono ?_ (fun _ => hd.stuck) ?_
      · intro e d' hresult
        obtain ⟨passed, hd', he⟩ := hresult
        exact ⟨_, (hd.trans hd').of_eq (by omega) rfl, by rw [← he]; simp [Expr.tokens]⟩
      · have := hd.shorter
        omega
  · exact ⟨[], Over.refl c, List.append_nil _⟩

theorem lossless_primary (ih : ExprReaders fuel) (c : Cursor) :
    (primary (fuel + 1)).Lossless c (fuel + 1) 2 0 Expr.tokens := by
  unfold primary Lossless
  apply meets_kind
  intro k hk
  split
  · exact (ih.arrayLiteral c hk).mono (fun _ _ h => h) (fun _ h => h) (by omega)
  · exact (ih.structLiteral c hk).mono (fun _ _ h => h) (fun _ h => h) (by omega)
  · apply meets_token (Over.refl c) (next_passes hk (by simp))
    intro start d hd
    apply meets_step hd (lossless_nested ih.expression d) (by omega)
    intro inner d hd
    apply meets_token hd (expect_passes (by simp))
    intro _ d hd
    exact hd.of_eq (by omega) (by simp [Expr.tokens])
  · exact (ih.named c).mono (fun _ _ h => h) (fun _ h => h) (by omega)
  · cases hvalue : k.literal? with
    | some value =>
      have hk := hk.trans (Literal.kind_of_literal? hvalue).symm
      refine meets_token (Over.refl c) (next_passes hk ?_) fun span d hd => ?_
      · rcases value with n | x | text | b | _ <;> try simp [Literal.kind]
        cases b <;> simp
      · exact hd.of_eq (by omega) (by simp [Expr.tokens])
    | none => exact fail_stuck _ (Over.refl c)

theorem lossless_named (ih : ExprReaders fuel) (c : Cursor) :
    (named (fuel + 1)).Lossless c (fuel + 1) 1 0 Expr.tokens := by
  unfold named
  apply meets_token (Over.refl c) name_passes
  intro target d hd
  apply meets_kind
  intro k hk
  split
  · apply meets_token hd (next_passes hk (by simp))
    intro _ d hd
    apply meets_step hd (ih.expression d) (by omega)
    intro value d hd
    exact hd.of_eq (by omega) (by simp [Expr.tokens])
  · apply meets_token hd (next_passes hk (by simp))
    intro _ d hd
    exact hd.of_eq (by omega) (by simp [Expr.tokens, Step.symbol])
  · apply meets_token hd (next_passes hk (by simp))
    intro _ d hd
    exact hd.of_eq (by omega) (by simp [Expr.tokens, Step.symbol])
  · apply meets_token hd (next_passes hk (by simp))
    intro _ d hd
    apply meets_step hd (ih.expressions _ d) (by omega)
    intro arguments d hd
    exact hd.of_eq (by omega) (by simp [Expr.tokens])
  · exact hd.of_eq (by omega) (by simp [Expr.tokens])

theorem lossless_expressions (ih : ExprReaders fuel) (close : Symbol) (c : Cursor) :
    (expressions (fuel + 1) close).Lossless c (fuel + 1) 8 0 fun items =>
      Expr.itemTokens items ++ [.symbol close] := by
  unfold expressions
  apply meets_kind
  intro k hk
  split
  · rename_i hclose
    subst hclose
    apply meets_token (Over.refl c) (next_passes hk (by simp))
    intro _ d hd
    exact hd.of_eq (by omega) (by simp [Expr.itemTokens])
  · refine (ih.someExpressions c).bind ?_ (fun _ h => h) (by omega)
    intro items d hresult
    obtain ⟨-, hd⟩ := hresult
    apply meets_token hd (expect_passes (by simp))
    intro _ d hd
    exact hd.of_eq (by omega) rfl

theorem someExpressions_passes (ih : ExprReaders fuel) (c : Cursor) :
    (someExpressions (fuel + 1) c).Meets
      (fun items d => items ≠ [] ∧ c.Over d 0 (Expr.itemTokens items)) c.Stuck
      (fuel + 1 < 16 * c.rest.length + 7) := by
  unfold someExpressions
  apply meets_step (Over.refl c) (ih.expression c) (by omega)
  intro item d hd
  rw [accept_bind]
  split
  · rename_i hcomma
    have hd := hd.trans (over_advance hcomma (by simp))
    refine (ih.someExpressions _).bind ?_ (fun _ => hd.stuck) ?_
    · intro items d' hresult
      obtain ⟨hne, hd'⟩ := hresult
      obtain ⟨next, rest, rfl⟩ := List.exists_cons_of_ne_nil hne
      exact ⟨by simp, (hd.trans hd').of_eq (by omega) (by simp [Expr.itemTokens])⟩
    · have := hd.shorter
      omega
  · exact ⟨by simp, hd.of_eq (by omega) (by simp [Expr.itemTokens])⟩

theorem lossless_arrayLiteral (ih : ExprReaders fuel) (c : Cursor)
    (hk : c.kind = .keyword .array) :
    (arrayLiteral (fuel + 1)).Lossless c (fuel + 1) 1 0 Expr.tokens := by
  unfold arrayLiteral
  apply meets_token (Over.refl c) (next_passes hk (by simp))
  intro start d hd
  apply meets_kind
  intro k hk
  split
  · apply meets_token hd (next_passes hk (by simp))
    intro _ d hd
    apply meets_step hd (ih.expressions _ d) (by omega)
    intro items d hd
    exact hd.of_eq (by omega) (by simp [Expr.tokens])
  · apply meets_token hd (next_passes hk (by simp))
    intro _ d hd
    apply meets_step hd (ih.expression d) (by omega)
    intro size d hd
    apply meets_token hd (expect_passes (by simp))
    intro _ d hd
    exact hd.of_eq (by omega) (by simp [Expr.tokens])
  · exact fail_stuck _ hd

theorem lossless_structLiteral (ih : ExprReaders fuel) (c : Cursor)
    (hk : c.kind = .keyword .struct) :
    (structLiteral (fuel + 1)).Lossless c (fuel + 1) 1 0 Expr.tokens := by
  unfold structLiteral
  apply meets_token (Over.refl c) (next_passes hk (by simp))
  intro start d hd
  apply meets_token hd (expect_passes (by simp))
  intro _ d hd
  apply meets_step hd (ih.structFields _ d) (by omega)
  intro fields d hd
  apply meets_token hd (expect_passes (by simp))
  intro _ d hd
  exact hd.of_eq (by omega) (by simp [Expr.tokens])

theorem lossless_structFields (ih : ExprReaders fuel) (seen : List String) (c : Cursor) :
    (structFields (fuel + 1) seen).Lossless c (fuel + 1) 1 0 Expr.fieldTokens := by
  unfold structFields
  apply meets_kind
  intro k hk
  split
  · exact Over.refl c
  · apply meets_token (Over.refl c) name_passes
    intro field d hd
    apply meets_token hd (expect_passes (by simp))
    intro _ d hd
    apply meets_step hd (ih.expression d) (by omega)
    intro value d hd
    apply meets_token hd (expect_passes (by simp))
    intro _ d hd
    apply meets_token hd (complainIf_passes _ _ _)
    intro _ d hd
    apply meets_step hd (ih.structFields _ d) (by omega)
    intro fields d hd
    exact hd.of_eq (by omega) (by simp [Expr.fieldTokens])

theorem exprReaders (fuel : Nat) : ExprReaders fuel := by
  induction fuel with
  | zero =>
    constructor <;> intros <;> exact Nat.lt_of_lt_of_le (by omega) (Nat.le_add_left _ _)
  | succ fuel ih =>
    exact {
      expression := lossless_expression ih
      chain := lossless_chain ih
      operators := extends_operators ih
      unary := lossless_unary ih
      postfixed := lossless_postfixed ih
      suffixes := extends_suffixes ih
      primary := lossless_primary ih
      named := lossless_named ih
      expressions := lossless_expressions ih
      someExpressions := someExpressions_passes ih
      arrayLiteral := lossless_arrayLiteral ih
      structLiteral := lossless_structLiteral ih
      structFields := lossless_structFields ih
    }

end Reader

end ScriptEngine
