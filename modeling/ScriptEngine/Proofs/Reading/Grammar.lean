import ScriptEngine.Proofs.Reading.Listing

/-!
The trees that the grammar has in mind. Written without parentheses of its own, a tree can only come
back as it was when its operands stand where the strength of the operators allows them, when an
assignment among them comes last, since its value reaches as far as it can, and when an `if` without
`else` is not where the `else` of another `if` would be taken for its own.
-/
namespace ScriptEngine

namespace Expr

/-- How tightly the outermost construct holds together: operators on two operands by their strength,
then operators on one, then indices and members, then all that is closed in itself. -/
def level : Expr → Nat
  | binary op _ _ _ => op.strength
  | unary _ _ _ => 7
  | index _ _ _ | assignIndex _ _ _ _ | member _ _ _ | assignMember _ _ _ _ => 8
  | _ => 9

/-- The expression ends with the value of an assignment, which would take in all that can follow. -/
def endsInAssignment : Expr → Bool
  | assign _ _ _ | assignIndex _ _ _ _ | assignMember _ _ _ _ => true
  | binary _ _ right _ => right.endsInAssignment
  | unary _ operand _ => operand.endsInAssignment
  | _ => false

/-- The operands hold together at least as tightly as their places ask for. Operators of one strength
group to the left. -/
def isLeveled : Expr → Bool
  | binary op left right _ => decide (op.strength ≤ left.level ∧ op.strength < right.level)
  | unary _ operand _ => decide (7 ≤ operand.level)
  | index target _ _ | assignIndex target _ _ _ | member target _ _ | assignMember target _ _ _ =>
    decide (8 ≤ target.level)
  | _ => true

/-- No operand that something follows ends with an assignment. -/
def assignsLast : Expr → Bool
  | binary _ left _ _ => !left.endsInAssignment
  | index target _ _ | assignIndex target _ _ _ | member target _ _ | assignMember target _ _ _ =>
    !target.endsInAssignment
  | _ => true

def hasDistinctFields : Expr → Bool
  | struct fields _ => decide (fields.map fun field => field.1.text).Nodup
  | _ => true

/-- What the grammar asks of a node of an expression and its operands. -/
def fits (e : Expr) : Bool := e.isLeveled && e.assignsLast && e.hasDistinctFields

mutual

/-- Something holds of an expression and of all expressions in it. -/
def all (p : Expr → Bool) : Expr → Bool
  | literal value span => p (literal value span)
  | .variable name => p (.variable name)
  | assign target value span => p (assign target value span) && value.all p
  | adjust target step span => p (adjust target step span)
  | array items span => p (array items span) && allItems p items
  | arrayOfSize size span => p (arrayOfSize size span) && size.all p
  | struct fields span => p (struct fields span) && allFields p fields
  | index target place span => p (index target place span) && target.all p && place.all p
  | assignIndex target place value span =>
    p (assignIndex target place value span) && target.all p && place.all p && value.all p
  | member target name span => p (member target name span) && target.all p
  | assignMember target name value span =>
    p (assignMember target name value span) && target.all p && value.all p
  | binary op left right span => p (binary op left right span) && left.all p && right.all p
  | unary op operand span => p (unary op operand span) && operand.all p
  | call callee arguments span => p (call callee arguments span) && allItems p arguments
  | paren inner span => p (paren inner span) && inner.all p

def allItems (p : Expr → Bool) : List Expr → Bool
  | [] => true
  | e :: rest => e.all p && allItems p rest

def allFields (p : Expr → Bool) : List (Name × Expr) → Bool
  | [] => true
  | (_, e) :: rest => e.all p && allFields p rest

end

mutual

/-- The largest number of parentheses and unary operators around one place. -/
def nesting : Expr → Nat
  | literal _ _ => 0
  | .variable _ => 0
  | assign _ value _ => value.nesting
  | adjust _ _ _ => 0
  | array items _ => itemNesting items
  | arrayOfSize size _ => size.nesting
  | struct fields _ => fieldNesting fields
  | index target place _ => max target.nesting place.nesting
  | assignIndex target place value _ => max target.nesting (max place.nesting value.nesting)
  | member target _ _ => target.nesting
  | assignMember target _ value _ => max target.nesting value.nesting
  | binary _ left right _ => max left.nesting right.nesting
  | unary _ operand _ => operand.nesting + 1
  | call _ arguments _ => itemNesting arguments
  | paren inner _ => inner.nesting + 1

def itemNesting : List Expr → Nat
  | [] => 0
  | e :: rest => max e.nesting (itemNesting rest)

def fieldNesting : List (Name × Expr) → Nat
  | [] => 0
  | (_, e) :: rest => max e.nesting (fieldNesting rest)

end

attribute [simp] nesting itemNesting fieldNesting

end Expr

namespace Stmt

/-- The statement ends with an `if` that would take an `else` for its own. -/
def endsInOpenIf : Stmt → Bool
  | branch _ _ none _ => true
  | branch _ _ (some other) _ => other.endsInOpenIf
  | loop _ body _ => body.endsInOpenIf
  | _ => false

/-- The `else` of an `if` belongs to it. -/
def ownsElse : Stmt → Bool
  | branch _ thenBranch (some _) _ => !thenBranch.endsInOpenIf
  | _ => true

def hasDistinctParams : Stmt → Bool
  | function _ params _ _ => decide (params.map Name.text).Nodup
  | _ => true

/-- What the grammar asks of a node of a statement and the statements in it. -/
def fits (s : Stmt) : Bool := s.ownsElse && s.hasDistinctParams

mutual

/-- Something holds of all expressions in a statement, something else of it and all statements in
it. -/
def all (p : Expr → Bool) (q : Stmt → Bool) : Stmt → Bool
  | declare name init span => q (declare name init span) && init.all (Expr.all p)
  | function name params body span => q (function name params body span) && allBody p q body
  | block body span => q (block body span) && allBody p q body
  | branch condition thenBranch elseBranch span =>
    q (branch condition thenBranch elseBranch span) && condition.all p && thenBranch.all p q &&
      allElse p q elseBranch
  | loop condition body span => q (loop condition body span) && condition.all p && body.all p q
  | jump kind span => q (jump kind span)
  | transfer kind value span => q (transfer kind value span) && value.all (Expr.all p)
  | attempt body bodySpan param handler handlerSpan span =>
    q (attempt body bodySpan param handler handlerSpan span) && allBody p q body &&
      allBody p q handler
  | expression value span => q (expression value span) && value.all p
  | empty span => q (empty span)

def allBody (p : Expr → Bool) (q : Stmt → Bool) : List Stmt → Bool
  | [] => true
  | s :: rest => s.all p q && allBody p q rest

def allElse (p : Expr → Bool) (q : Stmt → Bool) : Option Stmt → Bool
  | none => true
  | some s => s.all p q

end

def optionNesting (value : Option Expr) : Nat := value.elim 0 Expr.nesting

mutual

/-- The largest number of statements, parentheses and unary operators around one place. -/
def nesting : Stmt → Nat
  | declare _ init _ => optionNesting init + 1
  | function _ _ body _ => bodyNesting body + 1
  | block body _ => bodyNesting body + 1
  | branch condition thenBranch elseBranch _ =>
    max condition.nesting (max thenBranch.nesting (elseNesting elseBranch)) + 1
  | loop condition body _ => max condition.nesting body.nesting + 1
  | jump _ _ => 1
  | transfer _ value _ => optionNesting value + 1
  | attempt body _ _ handler _ _ => max (bodyNesting body) (bodyNesting handler) + 1
  | expression value _ => value.nesting + 1
  | empty _ => 1

def bodyNesting : List Stmt → Nat
  | [] => 0
  | s :: rest => max s.nesting (bodyNesting rest)

def elseNesting : Option Stmt → Nat
  | none => 0
  | some s => s.nesting

end

end Stmt

/-- A program as the grammar has it, nested no deeper than the limit. -/
structure Program.Canonical (program : Program) : Prop where
  fits : Stmt.allBody Expr.fits Stmt.fits program.body
  nesting : Stmt.bodyNesting program.body ≤ maxNesting

/-! What a listing begins with -/

namespace TokenKind

/-- The token begins an operand that no operator stands before. -/
def startsOperand : TokenKind → Bool
  | name _ => true
  | keyword .array | keyword .struct => true
  | symbol .leftParen => true
  | other => other.literal?.isSome

def startsExpression (k : TokenKind) : Bool := k.startsOperand || k.unaryOp?.isSome

theorem startsOperand_kind (l : Literal) : l.kind.startsOperand := by
  rcases l with n | x | text | b | _
  · rfl
  · rfl
  · rfl
  · cases b <;> rfl
  · rfl

theorem unaryOp?_of_startsOperand {k : TokenKind} (h : k.startsOperand) : k.unaryOp? = none := by
  cases k with
  | symbol s => cases s <;> first | rfl | exact absurd h (by decide)
  | _ => rfl

/-- A name before the token is more than a variable. -/
def extendsName : TokenKind → Bool
  | symbol .assign | symbol .leftParen | symbol .plusPlus | symbol .minusMinus => true
  | _ => false

/-- An index or a member begins with the token. -/
def extendsRow : TokenKind → Bool
  | symbol .leftBracket | symbol .dot => true
  | _ => false

/-- No expression goes on with the token. -/
def endsExpression (k : TokenKind) : Bool :=
  !k.extendsName && !k.extendsRow && k.binaryOp?.isNone

/-- The token is not one of those that come behind a statement only. -/
def startsStatement : TokenKind → Bool
  | symbol .rightBrace | keyword .else | endOfFile => false
  | _ => true

theorem startsStatement_of_startsExpression {k : TokenKind} (h : k.startsExpression) :
    k.startsStatement := by
  cases k with
  | symbol s => cases s <;> first | rfl | exact absurd h (by decide)
  | keyword w => cases w <;> first | rfl | exact absurd h (by decide)
  | endOfFile => exact absurd h (by decide)
  | _ => rfl

end TokenKind

namespace Expr

/-- With this token behind it the expression is read as it is and no further. -/
structure StopsAt (e : Expr) (k : TokenKind) : Prop where
  name : k.extendsName = false
  row : k.extendsRow = false
  chain : ∀ op, k.binaryOp? = some op → e.endsInAssignment = false ∧ op.strength ≤ e.level

theorem level_pos (e : Expr) : 1 ≤ e.level := by
  cases e with
  | binary op _ _ _ => exact op.strength_pos
  | _ => simp [level]

theorem stopsAt_of_endsExpression {e : Expr} {k : TokenKind} (hk : k.endsExpression) :
    e.StopsAt k := by
  simp only [TokenKind.endsExpression, Bool.and_eq_true, Bool.not_eq_true',
    Option.isNone_iff_eq_none] at hk
  obtain ⟨⟨hname, hrow⟩, hop⟩ := hk
  exact ⟨hname, hrow, fun op h => absurd (hop.symm.trans h) (by simp)⟩

/-- Behind an assignment only the end of the whole expression can come. -/
theorem StopsAt.endsExpression {e : Expr} {k : TokenKind} (h : e.StopsAt k)
    (he : e.endsInAssignment) : k.endsExpression := by
  simp only [TokenKind.endsExpression, h.name, h.row, Bool.not_false, Bool.true_and,
    Option.isNone_iff_eq_none]
  cases hop : k.binaryOp? with
  | none => rfl
  | some op => exact absurd (h.chain op hop).1 (by simp [he])

theorem stopsAt_symbol {e : Expr} {op : BinaryOp} (he : e.endsInAssignment = false)
    (hop : op.strength ≤ e.level) : e.StopsAt (.symbol op.symbol) := by
  refine ⟨by cases op <;> rfl, by cases op <;> rfl, fun op' h => ?_⟩
  rw [op.binaryOp?_symbol] at h
  obtain rfl := Option.some.inj h
  exact ⟨he, hop⟩

theorem StopsAt.operand {op : UnaryOp} {e : Expr} {span : Span} {k : TokenKind}
    (h : (unary op e span).StopsAt k) (he : 7 ≤ e.level) : e.StopsAt k := by
  refine ⟨h.name, h.row, fun op' hop => ⟨(h.chain op' hop).1, ?_⟩⟩
  have := op'.strength_le
  omega

theorem StopsAt.right {op : BinaryOp} {left right : Expr} {span : Span} {k : TokenKind}
    (h : (binary op left right span).StopsAt k) (hright : op.strength < right.level) :
    right.StopsAt k := by
  refine ⟨h.name, h.row, fun op' hop => ⟨(h.chain op' hop).1, ?_⟩⟩
  have : op'.strength ≤ op.strength := (h.chain op' hop).2
  omega

private theorem exists_head_append {p : TokenKind → Bool} {left : List TokenKind}
    (h : ∃ k ks, left = k :: ks ∧ p k) (right : List TokenKind) :
    ∃ k ks, left ++ right = k :: ks ∧ p k := by
  obtain ⟨k, ks, rfl, hk⟩ := h
  exact ⟨k, ks ++ right, rfl, hk⟩

theorem exists_head (e : Expr) : ∃ k ks, e.tokens = k :: ks ∧ k.startsExpression := by
  cases e with
  | literal value _ =>
    exact ⟨_, _, rfl, by simp [TokenKind.startsExpression, TokenKind.startsOperand_kind]⟩
  | index target _ _ => exact exists_head_append target.exists_head _
  | assignIndex target _ _ _ => exact exists_head_append target.exists_head _
  | member target _ _ => exact exists_head_append target.exists_head _
  | assignMember target _ _ _ => exact exists_head_append target.exists_head _
  | binary _ left _ _ => exact exists_head_append left.exists_head _
  | unary op _ _ =>
    exact ⟨_, _, rfl, by simp [TokenKind.startsExpression, UnaryOp.unaryOp?_symbol]⟩
  | _ => exact ⟨_, _, rfl, rfl⟩

theorem exists_head_items (e : Expr) (rest : List Expr) :
    ∃ k ks, itemTokens (e :: rest) = k :: ks ∧ k.startsExpression := by
  cases rest with
  | nil => exact exists_head e
  | cons next rest => exact exists_head_append (exists_head e) _

end Expr

namespace Stmt

theorem nesting_pos (s : Stmt) : 1 ≤ s.nesting := by
  cases s <;> simp [nesting]

theorem exists_head (s : Stmt) : ∃ k ks, s.tokens = k :: ks ∧ k.startsStatement := by
  cases s with
  | expression value _ =>
    obtain ⟨k, ks, hk, hstart⟩ := value.exists_head
    refine ⟨k, ks ++ [.symbol .semicolon], ?_, TokenKind.startsStatement_of_startsExpression hstart⟩
    rw [tokens, hk, List.cons_append]
  | jump kind _ => exact ⟨_, _, rfl, by cases kind <;> rfl⟩
  | transfer kind _ _ => exact ⟨_, _, rfl, by cases kind <;> rfl⟩
  | _ => exact ⟨_, _, rfl, rfl⟩

/-- No `else` comes between statements. -/
theorem exists_head_body (body : List Stmt) {k : TokenKind} (ks : List TokenKind)
    (hk : k ≠ .keyword .else) :
    ∃ l ls, bodyTokens body ++ k :: ks = l :: ls ∧ l ≠ .keyword .else := by
  cases body with
  | nil => exact ⟨k, ks, rfl, hk⟩
  | cons s rest =>
    obtain ⟨l, ls, hl, hstart⟩ := s.exists_head
    refine ⟨l, ls ++ (bodyTokens rest ++ k :: ks), ?_, ?_⟩
    · simp [bodyTokens, hl]
    · rintro rfl
      exact absurd hstart (by decide)

end Stmt

end ScriptEngine
