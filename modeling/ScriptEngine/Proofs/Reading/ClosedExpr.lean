import ScriptEngine.Proofs.Reading.Ahead
import ScriptEngine.Proofs.Reading.Grammar

/-!
Readers of expressions find the expression that was written. Operands, rows of indices and members,
and chains of operators are each read for as long as they go on, so what is said about them says what
comes after: the reader that goes on behind the expression.
-/
namespace ScriptEngine

namespace Reader

open Cursor

/-- A closed expression is read by its first token. -/
def ReadsPrimary (e : Expr) : Prop :=
  (∃ k ks, e.tokens = k :: ks ∧ k.startsOperand) ∧
    ∀ fuel {c n k ks}, c.Before n (e.tokens ++ k :: ks) → n + e.nesting ≤ maxNesting →
      k.extendsName = false →
      (primary fuel).Gives c fun e' d => e'.bare = e.bare ∧ d.Before n (k :: ks)

/-- A row is read up to its end, whatever the row goes on with. -/
def ReadsRow (e : Expr) : Prop :=
  ∀ fuel {c n k ks} {Q : Expr → Cursor → Prop}, c.Before n (e.tokens ++ k :: ks) →
    n + e.nesting ≤ maxNesting → k.extendsName = false →
    (∀ fuel e' d, e'.bare = e.bare → d.Before n (k :: ks) → (suffixes fuel e').Gives d Q) →
    (unary fuel).Gives c Q

def ReadsOperand (e : Expr) : Prop :=
  ∀ fuel {c n k ks}, c.Before n (e.tokens ++ k :: ks) → n + e.nesting ≤ maxNesting →
    e.StopsAt k → (unary fuel).Gives c fun e' d => e'.bare = e.bare ∧ d.Before n (k :: ks)

/-- A chain is read up to its end, whatever the chain goes on with. -/
def ReadsChain (e : Expr) : Prop :=
  ∀ fuel {least c n k ks} {Q : Expr → Cursor → Prop}, least ≤ e.level →
    c.Before n (e.tokens ++ k :: ks) → n + e.nesting ≤ maxNesting → e.StopsAt k →
    (∀ fuel e' d, e'.bare = e.bare → d.Before n (k :: ks) →
      (operators fuel least e').Gives d Q) →
    (chain fuel least).Gives c Q

def ReadsWhole (e : Expr) : Prop :=
  ∀ fuel {c n k ks}, c.Before n (e.tokens ++ k :: ks) → n + e.nesting ≤ maxNesting →
    k.endsExpression →
    (expression fuel).Gives c fun e' d => e'.bare = e.bare ∧ d.Before n (k :: ks)

/-- The expression is read wherever its level allows it to stand. -/
structure Readable (e : Expr) : Prop where
  row : 8 ≤ e.level → e.endsInAssignment = false → ReadsRow e
  operand : 7 ≤ e.level → ReadsOperand e
  chain : ReadsChain e

/-! Where readers begin and where they stop -/

theorem statementKind_startsExpression {fuel : Nat} {c : Cursor} (hk : c.kind.startsExpression) :
    statementKind (fuel + 1) c = expressionStatement fuel c := by
  unfold statementKind
  rw [kind_bind]
  cases hkind : c.kind with
  | symbol s => cases s <;> first | rfl | exact absurd (hkind ▸ hk) (by decide)
  | keyword w => cases w <;> first | rfl | exact absurd (hkind ▸ hk) (by decide)
  | _ => rfl

variable {n : Nat} {k : TokenKind} {ks : List TokenKind} {c : Cursor}

theorem suffixes_stop {Q : Expr → Cursor → Prop} (fuel : Nat) {e : Expr} (hc : c.Before n (k :: ks))
    (hk : k.extendsRow = false) (hQ : Q e c) : (suffixes fuel e).Gives c Q := by
  cases fuel with
  | zero => trivial
  | succ fuel =>
    unfold suffixes
    refine gives_kind hc ?_
    split
    · exact absurd hk (by decide)
    · exact absurd hk (by decide)
    · exact hQ

theorem operators_stop {Q : Expr → Cursor → Prop} (fuel : Nat) {least : Nat} {e : Expr}
    (hc : c.Before n (k :: ks)) (hk : ∀ op, k.binaryOp? = some op → op.strength < least)
    (hQ : Q e c) : (operators fuel least e).Gives c Q := by
  cases fuel with
  | zero => trivial
  | succ fuel =>
    unfold operators
    refine gives_kind hc ?_
    cases hop : k.binaryOp? with
    | none => exact hQ
    | some op =>
      dsimp only
      rw [if_pos (hk op hop)]
      exact hQ

theorem unary_postfixed {Q : Expr → Cursor → Prop} (fuel : Nat) (hc : c.Before n (k :: ks))
    (hk : k.startsOperand) (h : ∀ fuel, (postfixed fuel).Gives c Q) : (unary fuel).Gives c Q := by
  cases fuel with
  | zero => trivial
  | succ fuel =>
    unfold unary
    refine gives_kind hc ?_
    rw [TokenKind.unaryOp?_of_startsOperand hk]
    exact h fuel

/-! From closed expressions to whole ones -/

theorem ReadsPrimary.row {e : Expr} (h : ReadsPrimary e) : ReadsRow e := by
  intro fuel c n k ks Q hc hroom hk hnext
  obtain ⟨⟨first, others, hfirst, hstart⟩, hprimary⟩ := h
  have hahead : c.Before n (first :: (others ++ k :: ks)) := by
    rw [← List.cons_append, ← hfirst]
    exact hc
  apply unary_postfixed fuel hahead hstart
  intro fuel
  cases fuel with
  | zero => trivial
  | succ fuel =>
    unfold postfixed
    exact (hprimary fuel hc hroom hk).bind fun e' d he => hnext fuel e' d he.1 he.2

theorem ReadsRow.operand {e : Expr} (h : ReadsRow e) : ReadsOperand e := by
  intro fuel c n k ks hc hroom hstop
  exact h fuel hc hroom hstop.name fun fuel e' d he hd => suffixes_stop fuel hd hstop.row ⟨he, hd⟩

theorem ReadsOperand.chain {e : Expr} (h : ReadsOperand e) : ReadsChain e := by
  intro fuel least c n k ks Q _ hc hroom hstop hnext
  cases fuel with
  | zero => trivial
  | succ fuel =>
    unfold Reader.chain
    exact (h fuel hc hroom hstop).bind fun e' d he => hnext fuel e' d he.1 he.2

theorem ReadsChain.whole {e : Expr} (h : ReadsChain e) : ReadsWhole e := by
  intro fuel c n k ks hc hroom hk
  cases fuel with
  | zero => trivial
  | succ fuel =>
    unfold expression
    have hstop := Expr.stopsAt_of_endsExpression (e := e) hk
    apply h fuel e.level_pos hc hroom hstop
    intro fuel e' d he hd
    refine operators_stop fuel hd (fun op hop => ?_) ⟨he, hd⟩
    simp [TokenKind.endsExpression, hop] at hk

theorem Readable.of_row {e : Expr} (h : ReadsRow e) : Readable e :=
  ⟨fun _ _ => h, fun _ => h.operand, h.operand.chain⟩

theorem Readable.of_operand {e : Expr} (hrow : 8 ≤ e.level → e.endsInAssignment)
    (h : ReadsOperand e) : Readable e := by
  refine ⟨fun hlevel he => ?_, fun _ => h, h.chain⟩
  rw [hrow hlevel] at he
  exact absurd he (by simp)

/-! Lists -/

/-- The symbol closes a list of expressions. -/
structure Closes (close : Symbol) : Prop where
  ends : (TokenKind.symbol close).endsExpression
  starts : (TokenKind.symbol close).startsExpression = false
  comma : close ≠ .comma

theorem closes_rightParen : Closes .rightParen := ⟨rfl, rfl, by decide⟩

theorem closes_rightBrace : Closes .rightBrace := ⟨rfl, rfl, by decide⟩

theorem someExpressions_gives {close : Symbol} (hclose : Closes close) (rest : List Expr) :
    ∀ (e : Expr) (fuel : Nat) {c : Cursor}, (∀ x ∈ e :: rest, ReadsWhole x) →
      c.Before n (Expr.itemTokens (e :: rest) ++ .symbol close :: ks) →
      n + Expr.itemNesting (e :: rest) ≤ maxNesting →
      (someExpressions fuel).Gives c fun items d =>
        Expr.bareItems items = Expr.bareItems (e :: rest) ∧ d.Before n (.symbol close :: ks) := by
  induction rest with
  | nil =>
    intro e fuel c hread hc hroom
    cases fuel with
    | zero => trivial
    | succ fuel =>
      have he := hread e (by simp)
      have hroom : n + e.nesting ≤ maxNesting := by
        simp only [Expr.itemNesting] at hroom
        omega
      unfold someExpressions
      refine (he fuel hc hroom hclose.ends).bind ?_
      rintro item d ⟨hitem, hd⟩
      refine gives_accept_of_ne hd (by simpa using hclose.comma) ?_
      exact ⟨by simp [Expr.bareItems, hitem], hd⟩
  | cons next rest ih =>
    intro e fuel c hread hc hroom
    cases fuel with
    | zero => trivial
    | succ fuel =>
      have he := hread e (by simp)
      have hrest : ∀ x ∈ next :: rest, ReadsWhole x := fun x hx => hread x (List.mem_cons_of_mem _ hx)
      rw [Expr.itemNesting] at hroom
      rw [Expr.itemTokens, List.append_assoc, List.cons_append] at hc
      unfold someExpressions
      refine (he fuel hc (by omega) rfl).bind ?_
      rintro item d ⟨hitem, hd⟩
      apply gives_accept hd
      intro d hd
      refine (ih next fuel hrest hd (by omega)).bind ?_
      rintro items d ⟨hitems, hd⟩
      exact ⟨by simpa [Expr.bareItems, hitem] using hitems, hd⟩

theorem expressions_gives {close : Symbol} (hclose : Closes close) {items : List Expr} (fuel : Nat)
    (hread : ∀ x ∈ items, ReadsWhole x)
    (hc : c.Before n (Expr.itemTokens items ++ .symbol close :: ks))
    (hroom : n + Expr.itemNesting items ≤ maxNesting) :
    (expressions fuel close).Gives c fun items' d =>
      Expr.bareItems items' = Expr.bareItems items ∧ d.Before n ks := by
  cases fuel with
  | zero => trivial
  | succ fuel =>
    unfold expressions
    cases items with
    | nil =>
      refine gives_kind hc ?_
      rw [if_pos rfl]
      exact gives_next hc fun _ d hd => ⟨rfl, hd⟩
    | cons e rest =>
      obtain ⟨first, others, hfirst, hstart⟩ := Expr.exists_head_items e rest
      have hahead : c.Before n (first :: (others ++ .symbol close :: ks)) := by
        rw [← List.cons_append, ← hfirst]
        exact hc
      have hne : first ≠ .symbol close := by
        rintro rfl
        rw [hclose.starts] at hstart
        exact absurd hstart (by simp)
      refine gives_kind hahead ?_
      rw [if_neg hne]
      refine (someExpressions_gives hclose rest e fuel hread hc hroom).bind ?_
      intro items' d ⟨hitems, hd⟩
      exact gives_expect hd fun _ d hd => ⟨hitems, hd⟩

theorem structFields_gives (fields : List (Name × Expr)) :
    ∀ (seen : List String) (fuel : Nat) {c : Cursor}, (∀ field ∈ fields, ReadsWhole field.2) →
      (∀ field ∈ fields, field.1.text ∉ seen) →
      (fields.map fun field => field.1.text).Nodup →
      c.Before n (Expr.fieldTokens fields ++ .symbol .rightBrace :: ks) →
      n + Expr.fieldNesting fields ≤ maxNesting →
      (structFields fuel seen).Gives c fun fields' d =>
        Expr.bareFields fields' = Expr.bareFields fields ∧
          d.Before n (.symbol .rightBrace :: ks) := by
  induction fields with
  | nil =>
    intro seen fuel c _ _ _ hc _
    cases fuel with
    | zero => trivial
    | succ fuel =>
      unfold structFields
      refine gives_kind hc ?_
      rw [if_pos (Or.inl rfl)]
      exact ⟨rfl, hc⟩
  | cons field rest ih =>
    intro seen fuel c hread hfresh hdistinct hc hroom
    obtain ⟨name, e⟩ := field
    cases fuel with
    | zero => trivial
    | succ fuel =>
      have he : ReadsWhole e := hread (name, e) (by simp)
      have hname : name.text ∉ seen := hfresh (name, e) (by simp)
      rw [List.map_cons, List.nodup_cons] at hdistinct
      obtain ⟨hnew, hdistinct⟩ := hdistinct
      rw [Expr.fieldNesting] at hroom
      simp only [Expr.fieldTokens, List.cons_append, List.append_assoc] at hc
      unfold structFields
      refine gives_kind hc ?_
      rw [if_neg (by simp)]
      apply gives_name hc
      intro span d hd
      apply gives_expect hd
      intro _ d hd
      refine (he fuel hd (by omega) rfl).bind ?_
      rintro value d ⟨hvalue, hd⟩
      apply gives_expect hd
      intro _ d hd
      refine gives_complainIf (by simpa using hname) ?_
      have hfresh' : ∀ field ∈ rest, field.1.text ∉ name.text :: seen := by
        intro field hfield
        rw [List.mem_cons, not_or]
        refine ⟨fun heq => hnew ?_, hfresh field (List.mem_cons_of_mem _ hfield)⟩
        exact List.mem_map.mpr ⟨field, hfield, heq⟩
      have hread' : ∀ field ∈ rest, ReadsWhole field.2 :=
        fun field hfield => hread field (List.mem_cons_of_mem _ hfield)
      refine (ih _ fuel hread' hfresh' hdistinct hd (by omega)).bind ?_
      rintro fields d ⟨hfields, hd⟩
      exact ⟨by simp [Expr.bareFields, Name.bare, hvalue, hfields], hd⟩

/-! Closed expressions -/

theorem readsPrimary_literal (value : Literal) (span : Span) : ReadsPrimary (.literal value span) := by
  refine ⟨⟨_, _, rfl, TokenKind.startsOperand_kind value⟩, fun fuel c n k ks hc _ _ => ?_⟩
  cases fuel with
  | zero => trivial
  | succ fuel =>
    unfold primary
    refine gives_kind hc ?_
    rcases value with i | x | text | b | _
    · exact gives_next hc fun _ d hd => ⟨rfl, hd⟩
    · exact gives_next hc fun _ d hd => ⟨rfl, hd⟩
    · exact gives_next hc fun _ d hd => ⟨rfl, hd⟩
    · cases b
      · exact gives_next hc fun _ d hd => ⟨rfl, hd⟩
      · exact gives_next hc fun _ d hd => ⟨rfl, hd⟩
    · exact gives_next hc fun _ d hd => ⟨rfl, hd⟩

/-- An expression that begins with a name is read as the name is gone on with. -/
theorem readsPrimary_of_named {e : Expr} {text : String} {after : List TokenKind}
    (htokens : e.tokens = .name text :: after)
    (h : ∀ fuel {c n k ks}, c.Before n (.name text :: (after ++ k :: ks)) →
      n + e.nesting ≤ maxNesting → k.extendsName = false →
      (named fuel).Gives c fun e' d => e'.bare = e.bare ∧ d.Before n (k :: ks)) :
    ReadsPrimary e := by
  refine ⟨⟨_, _, htokens, rfl⟩, fun fuel c n k ks hc hroom hk => ?_⟩
  rw [htokens, List.cons_append] at hc
  cases fuel with
  | zero => trivial
  | succ fuel =>
    unfold primary
    exact gives_kind hc (h fuel hc hroom hk)

theorem readsPrimary_variable (name : Name) : ReadsPrimary (.variable name) := by
  apply readsPrimary_of_named rfl
  intro fuel c n k ks hc _ hk
  cases fuel with
  | zero => trivial
  | succ fuel =>
    unfold named
    apply gives_name hc
    intro span d hd
    refine gives_kind hd ?_
    split
    · exact absurd hk (by decide)
    · exact absurd hk (by decide)
    · exact absurd hk (by decide)
    · exact absurd hk (by decide)
    · exact ⟨rfl, hd⟩

theorem readsPrimary_adjust (target : Name) (step : Step) (span : Span) :
    ReadsPrimary (.adjust target step span) := by
  apply readsPrimary_of_named rfl
  intro fuel c n k ks hc _ _
  cases fuel with
  | zero => trivial
  | succ fuel =>
    unfold named
    apply gives_name hc
    intro span d hd
    refine gives_kind hd ?_
    cases step with
    | increment => exact gives_next hd fun _ d hd => ⟨rfl, hd⟩
    | decrement => exact gives_next hd fun _ d hd => ⟨rfl, hd⟩

theorem readsPrimary_call {arguments : List Expr} (harguments : ∀ e ∈ arguments, ReadsWhole e)
    (callee : Name) (span : Span) : ReadsPrimary (.call callee arguments span) := by
  apply readsPrimary_of_named rfl
  intro fuel c n k ks hc hroom _
  rw [List.cons_append, List.append_assoc] at hc
  cases fuel with
  | zero => trivial
  | succ fuel =>
    unfold named
    apply gives_name hc
    intro span d hd
    refine gives_kind hd ?_
    apply gives_next hd
    intro _ d hd
    refine (expressions_gives closes_rightParen fuel harguments hd hroom).bind ?_
    intro items d ⟨hitems, hd⟩
    apply gives_spanFrom
    intro _
    exact ⟨by simp [Expr.bare, Name.bare, hitems], hd⟩

theorem readsPrimary_array {items : List Expr} (hitems : ∀ e ∈ items, ReadsWhole e) (span : Span) :
    ReadsPrimary (.array items span) := by
  refine ⟨⟨_, _, rfl, rfl⟩, fun fuel c n k ks hc hroom _ => ?_⟩
  simp only [Expr.tokens, List.cons_append, List.append_assoc] at hc
  cases fuel with
  | zero => trivial
  | succ fuel =>
    unfold primary
    refine gives_kind hc ?_
    cases fuel with
    | zero => trivial
    | succ fuel =>
      unfold arrayLiteral
      apply gives_next hc
      intro _ d hd
      refine gives_kind hd ?_
      apply gives_next hd
      intro _ d hd
      refine (expressions_gives closes_rightBrace fuel hitems hd hroom).bind ?_
      intro items' d ⟨hitems', hd⟩
      apply gives_spanFrom
      intro _
      exact ⟨by simp [Expr.bare, hitems'], hd⟩

theorem readsPrimary_arrayOfSize {size : Expr} (hsize : ReadsWhole size) (span : Span) :
    ReadsPrimary (.arrayOfSize size span) := by
  refine ⟨⟨_, _, rfl, rfl⟩, fun fuel c n k ks hc hroom _ => ?_⟩
  simp only [Expr.tokens, List.cons_append, List.append_assoc] at hc
  cases fuel with
  | zero => trivial
  | succ fuel =>
    unfold primary
    refine gives_kind hc ?_
    cases fuel with
    | zero => trivial
    | succ fuel =>
      unfold arrayLiteral
      apply gives_next hc
      intro _ d hd
      refine gives_kind hd ?_
      apply gives_next hd
      intro _ d hd
      refine (hsize fuel hd hroom rfl).bind ?_
      rintro size' d ⟨hsize', hd⟩
      apply gives_expect hd
      intro _ d hd
      apply gives_spanFrom
      intro _
      exact ⟨by simp [Expr.bare, hsize'], hd⟩

theorem readsPrimary_struct {fields : List (Name × Expr)}
    (hfields : ∀ field ∈ fields, ReadsWhole field.2)
    (hdistinct : (fields.map fun field => field.1.text).Nodup) (span : Span) :
    ReadsPrimary (.struct fields span) := by
  refine ⟨⟨_, _, rfl, rfl⟩, fun fuel c n k ks hc hroom _ => ?_⟩
  simp only [Expr.tokens, List.cons_append, List.append_assoc] at hc
  cases fuel with
  | zero => trivial
  | succ fuel =>
    unfold primary
    refine gives_kind hc ?_
    cases fuel with
    | zero => trivial
    | succ fuel =>
      unfold structLiteral
      apply gives_next hc
      intro _ d hd
      apply gives_expect hd
      intro _ d hd
      refine (structFields_gives fields [] fuel hfields (by simp) hdistinct hd hroom).bind ?_
      intro fields' d ⟨hfields', hd⟩
      apply gives_expect hd
      intro _ d hd
      apply gives_spanFrom
      intro _
      exact ⟨by simp [Expr.bare, hfields'], hd⟩

theorem readsPrimary_paren {inner : Expr} (hinner : ReadsWhole inner) (span : Span) :
    ReadsPrimary (.paren inner span) := by
  refine ⟨⟨_, _, rfl, rfl⟩, fun fuel c n k ks hc hroom _ => ?_⟩
  simp only [Expr.tokens, List.cons_append, List.append_assoc] at hc
  rw [Expr.nesting] at hroom
  cases fuel with
  | zero => trivial
  | succ fuel =>
    unfold primary
    refine gives_kind hc ?_
    apply gives_next hc
    intro _ d hd
    have hread : (nested (expression fuel)).Gives d fun e' d =>
        e'.bare = inner.bare ∧ d.Before n (.symbol .rightParen :: k :: ks) :=
      gives_nested hd (by omega) fun d hd => hinner fuel hd (by omega) rfl
    refine hread.bind ?_
    rintro inner' d ⟨hinner', hd⟩
    apply gives_expect hd
    intro _ d hd
    apply gives_spanFrom
    intro _
    exact ⟨by simp [Expr.bare, hinner'], hd⟩

end Reader

end ScriptEngine
