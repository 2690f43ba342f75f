import ScriptEngine.Proofs.Reading.Levels
import ScriptEngine.Proofs.Reading.Tiling

/-!
The trees that can be run. What the lexer sees to, that names are names and integers are in range,
holds of the tokens of a text that nobody complains about, and so of the tree that lists them. What
the readers see to, that nothing is nested too deep or named twice, holds of what they make. A tree
that comes out of a text has both.
-/
namespace ScriptEngine

/-- The text can be written as a name: it is no keyword. -/
def isName (text : String) : Bool :=
  match text.toList with
  | [] => false
  | first :: rest =>
    Scanned.startsName first && rest.all Scanned.continuesName && (Keyword.ofText? text).isNone

/-- The token is in the range of what can be written. -/
def TokenKind.isSpelled : TokenKind → Bool
  | integer value => decide (0 ≤ value.toInt ∧ value.toInt ≤ 2147483647)
  | name text => isName text
  | _ => true

theorem NameSpelling.isName (n : NameSpelling) : isName (String.ofList (n.first :: n.rest)) := by
  have hfree : Keyword.ofText? (String.ofList (n.first :: n.rest)) = none := by
    rw [Option.eq_none_iff_forall_ne_some]
    exact fun k hk => n.free k (Keyword.text_of_ofText? hk)
  have hstarts : Scanned.startsName n.first := by simpa [Scanned.startsName] using n.starts
  have hcontinues : n.rest.all Scanned.continuesName :=
    List.all_eq_true.2 fun c hc => by simpa [Scanned.continuesName] using n.continues c hc
  unfold ScriptEngine.isName
  rw [String.toList_ofList]
  simp only [hstarts, hcontinues, hfree, Option.isNone_none, Bool.and_true]

theorem Spelling.isSpelled_kind (s : Spelling) : s.kind.isSpelled := by
  cases s with
  | name n => exact n.isName
  | integer digits inRange =>
    have htoInt : (Int32.ofNat digits.number).toInt = digits.number := by
      rw [Int32.toInt_ofNat_of_lt]
      omega
    simp only [kind, TokenKind.isSpelled, htoInt, decide_eq_true_eq]
    omega
  | _ => rfl

/-- The tokens of a text that the lexer does not complain about are spelled. -/
theorem isSpelled_of_mem_lex {source : List Char} (hclean : (lex source).complaints = [])
    {token : Token} (htoken : token ∈ (lex source).tokens) : token.kind.isSpelled := by
  obtain ⟨tiles, unread, h⟩ := Lexed.exists_cut [] 0 source
  rw [congrArg Lexed.tokens h.lex_eq] at htoken
  rcases List.mem_append.1 htoken with htoken | htoken
  · obtain ⟨left, tile, right, htiles, htile⟩ := Tile.exists_tile_of_mem_tokens htoken
    have hwrites := h.writes hclean tile (by simp [htiles])
    rw [(Tile.eq_of_token? htile).1] at hwrites
    obtain ⟨s, -, hkind⟩ := hwrites
    rw [← hkind]
    exact s.isSpelled_kind
  · rw [List.mem_singleton.1 htoken]
    rfl

namespace Expr

/-- The names of the expression itself are names, and so is a whole number in range. -/
def isSpelled : Expr → Bool
  | literal value _ => value.kind.isSpelled
  | .variable name => isName name.text
  | assign target _ _ => isName target.text
  | adjust target _ _ => isName target.text
  | member _ name _ => isName name.text
  | assignMember _ name _ _ => isName name.text
  | call callee _ _ => isName callee.text
  | struct fields _ => fields.all fun field => isName field.1.text
  | _ => true

end Expr

namespace Stmt

/-- The names of the statement itself are names. -/
def isSpelled : Stmt → Bool
  | declare name _ _ => isName name.text
  | function name params _ _ => isName name.text && params.all fun param => isName param.text
  | attempt _ _ param _ _ _ => param.all fun param => isName param.text
  | _ => true

end Stmt

/-! From the tokens to the tree -/

/-- All of the tokens are spelled. -/
def Spelled (kinds : List TokenKind) : Prop := ∀ k ∈ kinds, k.isSpelled

@[simp] theorem spelled_nil : Spelled [] := by simp [Spelled]

@[simp] theorem spelled_cons {k : TokenKind} {kinds : List TokenKind} :
    Spelled (k :: kinds) ↔ k.isSpelled ∧ Spelled kinds := by simp [Spelled]

@[simp] theorem spelled_append {left right : List TokenKind} :
    Spelled (left ++ right) ↔ Spelled left ∧ Spelled right := by
  simp [Spelled, or_imp, forall_and]

@[simp] theorem isSpelled_name (text : String) :
    (TokenKind.name text).isSpelled = isName text := rfl

@[simp] theorem isSpelled_keyword (word : Keyword) : (TokenKind.keyword word).isSpelled := rfl

@[simp] theorem isSpelled_symbol (sign : Symbol) : (TokenKind.symbol sign).isSpelled := rfl

namespace Expr

mutual

/-- A spelling is asked of every token, and every node has its own tokens. -/
theorem all_isSpelled : ∀ e : Expr, Spelled e.tokens → e.all isSpelled
  | literal value span, h => by simpa [tokens, all, isSpelled] using h
  | .variable name, h => by simpa [tokens, all, isSpelled] using h
  | assign target value span, h => by
    have := value.all_isSpelled
    simp_all [tokens, all, isSpelled]
  | adjust target step span, h => by simpa [tokens, all, isSpelled] using h
  | array items span, h => by
    have := allItems_isSpelled items
    simp_all [tokens, all, isSpelled]
  | arrayOfSize size span, h => by
    have := size.all_isSpelled
    simp_all [tokens, all, isSpelled]
  | struct fields span, h => by
    obtain ⟨hnames, hvalues⟩ := allFields_isSpelled fields (by simpa [tokens] using h)
    simp only [all, isSpelled, hnames, hvalues, Bool.and_self]
  | index target place span, h => by
    have := target.all_isSpelled
    have := place.all_isSpelled
    simp_all [tokens, all, isSpelled]
  | assignIndex target place value span, h => by
    have := target.all_isSpelled
    have := place.all_isSpelled
    have := value.all_isSpelled
    simp_all [tokens, all, isSpelled]
  | member target name span, h => by
    have := target.all_isSpelled
    simp_all [tokens, all, isSpelled]
  | assignMember target name value span, h => by
    have := target.all_isSpelled
    have := value.all_isSpelled
    simp_all [tokens, all, isSpelled]
  | binary op left right span, h => by
    have := left.all_isSpelled
    have := right.all_isSpelled
    simp_all [tokens, all, isSpelled]
  | unary op operand span, h => by
    have := operand.all_isSpelled
    simp_all [tokens, all, isSpelled]
  | call callee arguments span, h => by
    have := allItems_isSpelled arguments
    simp_all [tokens, all, isSpelled]
  | paren inner span, h => by
    have := inner.all_isSpelled
    simp_all [tokens, all, isSpelled]

theorem allItems_isSpelled : ∀ items : List Expr, Spelled (itemTokens items) →
    allItems isSpelled items
  | [], _ => rfl
  | [e], h => by
    have := e.all_isSpelled
    simp_all [itemTokens, allItems]
  | e :: next :: rest, h => by
    have := e.all_isSpelled
    have := allItems_isSpelled (next :: rest)
    simp_all [itemTokens, allItems]

theorem allFields_isSpelled : ∀ fields : List (Name × Expr), Spelled (fieldTokens fields) →
    (fields.all fun field => isName field.1.text) ∧ allFields isSpelled fields
  | [], _ => ⟨rfl, rfl⟩
  | (name, e) :: rest, h => by
    obtain ⟨hname, he, hrest⟩ : isName name.text ∧ Spelled e.tokens ∧
        Spelled (fieldTokens rest) := by simpa [fieldTokens] using h
    obtain ⟨hnames, hvalues⟩ := allFields_isSpelled rest hrest
    exact ⟨by simp only [List.all_cons, hname, hnames, Bool.and_self],
      by simp only [allFields, e.all_isSpelled he, hvalues, Bool.and_self]⟩

end

end Expr

namespace Stmt

theorem all_isName : ∀ names : List Name, Spelled (nameTokens names) →
    names.all fun name => isName name.text
  | [], _ => rfl
  | [name], h => by simpa [nameTokens] using h
  | name :: next :: rest, h => by
    have := all_isName (next :: rest)
    simp_all [nameTokens]

theorem option_all_isSpelled : ∀ value : Option Expr, Spelled (valueTokens value) →
    value.all (Expr.all Expr.isSpelled)
  | none, _ => rfl
  | some e, h => e.all_isSpelled h

mutual

theorem all_isSpelled : ∀ s : Stmt, Spelled s.tokens → s.all Expr.isSpelled isSpelled
  | declare name init span, h => by
    have := option_all_isSpelled init
    cases init <;> simp_all [tokens, initTokens, valueTokens, all, isSpelled]
  | function name params body span, h => by
    have := all_isName params
    have := allBody_isSpelled body
    simp_all [tokens, braced, all, isSpelled]
  | block body span, h => by
    have := allBody_isSpelled body
    simp_all [tokens, braced, all, isSpelled]
  | branch condition thenBranch elseBranch span, h => by
    have := condition.all_isSpelled
    have := thenBranch.all_isSpelled
    have := allElse_isSpelled elseBranch
    simp_all [tokens, all, isSpelled]
  | loop condition body span, h => by
    have := condition.all_isSpelled
    have := body.all_isSpelled
    simp_all [tokens, all, isSpelled]
  | jump kind span, h => rfl
  | transfer kind value span, h => by
    have := option_all_isSpelled value
    simp_all [tokens, all, isSpelled]
  | attempt body bodySpan param handler handlerSpan span, h => by
    have := allBody_isSpelled body
    have := allBody_isSpelled handler
    cases param <;> simp_all [tokens, braced, handlerTokens, all, isSpelled]
  | expression value span, h => by
    have := value.all_isSpelled
    simp_all [tokens, all, isSpelled]
  | empty span, h => rfl

theorem allBody_isSpelled : ∀ body : List Stmt, Spelled (bodyTokens body) →
    allBody Expr.isSpelled isSpelled body
  | [], _ => rfl
  | s :: rest, h => by
    have := s.all_isSpelled
    have := allBody_isSpelled rest
    simp_all [bodyTokens, allBody]

theorem allElse_isSpelled : ∀ other : Option Stmt, Spelled (elseTokens other) →
    allElse Expr.isSpelled isSpelled other
  | none, _ => rfl
  | some s, h => by
    have := s.all_isSpelled
    simp_all [elseTokens, allElse]

end

end Stmt

/-! Programs -/

/-- What may be taken for granted about a program when it runs. -/
structure Program.WellFormed (program : Program) : Prop where
  /-- No function has two parameters of one name, and no struct two such fields. -/
  distinct : Stmt.allBody Expr.hasDistinctFields Stmt.hasDistinctParams program.body
  /-- Names are names and no keywords, and integers are between zero and the largest. -/
  spelled : Stmt.allBody Expr.isSpelled Stmt.isSpelled program.body
  /-- No place is inside more statements, parentheses and unary operators than the limit. -/
  nesting : Stmt.bodyNesting program.body ≤ maxNesting

/-- A program comes from a reading of its tokens that left no complaint behind. -/
theorem exists_reading_of_program {source : List Char} {program : Program}
    (h : (parse source).program = some program) :
    (lex source).complaints = [] ∧
      ∃ c, Reader.script (readingFuel (lex source).tokens) (Cursor.start (lex source).tokens) =
          .done program.body c ∧ c.complaints = [] := by
  unfold parse Program.ofTokens at h
  dsimp only at h
  split at h
  · refine ⟨List.isEmpty_iff.1 ‹_›, ?_⟩
    split at h
    · rename_i body c hread
      split at h
      · obtain rfl := Option.some.inj h
        exact ⟨c, hread, List.isEmpty_iff.1 ‹_›⟩
      · cases h
    · cases h
    · cases h
  · cases h

theorem wellFormed_of_program {source : List Char} {program : Program}
    (h : (parse source).program = some program) : program.WellFormed := by
  obtain ⟨hlexed, c, hread, hclean⟩ := exists_reading_of_program h
  have hmakes := Reader.makes_script (readingFuel (lex source).tokens)
    (Cursor.start (lex source).tokens)
  unfold Reader.Makes at hmakes
  rw [hread] at hmakes
  obtain ⟨-, hnesting, hdistinct⟩ := hmakes.clean hclean
  obtain ⟨program', hprogram', hkinds⟩ :=
    exists_program_of_clean (complaints_eq_nil_of_program h)
  obtain rfl : program = program' := Option.some.inj (h.symm.trans hprogram')
  refine ⟨hdistinct, Stmt.allBody_isSpelled _ fun k hk => ?_, hnesting⟩
  have hmem : k ∈ (lex source).tokens.map Token.kind := by
    rw [hkinds]
    exact List.mem_append_left _ hk
  obtain ⟨token, htoken, rfl⟩ := List.mem_map.1 hmem
  exact isSpelled_of_mem_lex hlexed htoken

/-- The reader comes back to the depth at which it began, whether it succeeds or fails. -/
def Reader.KeepsDepth {α : Type} (r : Reader α) : Prop :=
  ∀ c, (r c).Meets (fun _ d => d.depth = c.depth) (fun d => d.depth = c.depth) True

theorem Reader.KeepsDepth.of_makes {α : Type} {r : Reader α} {good : Nat → α → Prop}
    (h : ∀ c, r.Makes good c) : r.KeepsDepth :=
  fun c => Reading.Meets.mono (h c) (fun _ _ hd => hd.depth) (fun _ hd => hd.depth) (fun h => h)

/-- Whatever comes out of a text is well formed, and the depth that the limit of nesting is about
does not drift: the readers of statements, expressions and operands come back to the depth at which
they began, also where they fail, and recovery changes nothing about it. No reading of a text runs
out of fuel on the way. -/
theorem parse_wellFormed (source : List Char) :
    (∀ program, (parse source).program = some program → program.WellFormed) ∧
    (∀ fuel, (Reader.statement fuel).KeepsDepth ∧ (Reader.unary fuel).KeepsDepth ∧
      (Reader.expression fuel).KeepsDepth ∧
      (Reader.orRecover (Reader.statement fuel)).KeepsDepth) ∧
    Reader.script (readingFuel (lex source).tokens) (Cursor.start (lex source).tokens) ≠
      .exhausted := by
  refine ⟨fun _ => wellFormed_of_program, fun fuel => ?_, script_ne_exhausted _⟩
  have hexprs := Reader.makesExprs fuel
  have hstmts := Reader.makesStmts fuel
  exact ⟨.of_makes hstmts.statement, .of_makes hexprs.unary, .of_makes hexprs.expression,
    .of_makes fun c => Reader.makes_orRecover (hstmts.statement c)⟩

theorem parse_wellFormed_function :
    ∃ program, (parse ("function f(a, b) \x7b return struct \x7b " ++
        "x = -(a + 2147483647); y = b; \x7d; \x7d").toList).program = some program ∧
      program.WellFormed := by
  have hprogram : (parse ("function f(a, b) \x7b return struct \x7b " ++
      "x = -(a + 2147483647); y = b; \x7d; \x7d").toList).program.isSome := by
    decide +kernel
  obtain ⟨program, hprogram⟩ := Option.isSome_iff_exists.1 hprogram
  exact ⟨program, hprogram, (parse_wellFormed _).1 program hprogram⟩

end ScriptEngine
