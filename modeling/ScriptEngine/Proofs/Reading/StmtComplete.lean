import ScriptEngine.Proofs.Reading.ExprComplete

/-!
Every statement of the grammar is found. What follows a statement matters only when the statement
ends with an `if` that has no `else`.
-/
namespace ScriptEngine

namespace Reader

open Cursor

variable {n : Nat} {k : TokenKind} {ks : List TokenKind} {c : Cursor}

/-- The statement is read, unless an `else` behind it would be taken in. -/
def ReadsStmt (s : Stmt) : Prop :=
  ∀ fuel {c n k ks}, c.Before n (s.tokens ++ k :: ks) → n + s.nesting ≤ maxNesting →
    (s.endsInOpenIf → k ≠ .keyword .else) →
    (statement fuel).Gives c fun s' d => s'.bare = s.bare ∧ d.Before n (k :: ks)

/-- The statement is read where the level that it opens is open. -/
def ReadsKind (s : Stmt) : Prop :=
  ∀ fuel {c n k ks}, c.Before n (s.tokens ++ k :: ks) → n + s.nesting ≤ maxNesting + 1 →
    (s.endsInOpenIf → k ≠ .keyword .else) →
    (statementKind fuel).Gives c fun s' d => s'.bare = s.bare ∧ d.Before n (k :: ks)

theorem ReadsKind.stmt {s : Stmt} (h : ReadsKind s) : ReadsStmt s := by
  intro fuel c n k ks hc hroom helse
  cases fuel with
  | zero => trivial
  | succ fuel =>
    unfold statement
    have hpos := s.nesting_pos
    exact gives_nested hc (by omega) fun d hd => h fuel hd (by omega) helse

theorem gives_isFull {β : Type} {Q : β → Cursor → Prop} {f : Bool → Reader β} (hc : c.Before n ks)
    (hf : (f false).Gives c Q) : (isFull >>= f).Gives c Q := by
  rw [← hc.isFull] at hf
  exact hf

theorem gives_orRecover {r : Reader Stmt} {p : Stmt → Prop}
    (h : r.Gives c fun s d => p s ∧ d.Before n ks) :
    (orRecover r).Gives c fun a d => (∃ s, a = some s ∧ p s) ∧ d.Before n ks := by
  unfold Gives at h ⊢
  unfold orRecover
  cases hr : r c with
  | done s d =>
    rw [hr] at h
    exact ⟨⟨s, rfl, h.1⟩, h.2⟩
  | failed d =>
    rw [hr] at h
    exact h.elim
  | exhausted => trivial

/-! Lists of statements -/

theorem before_head {s : Stmt} {rest : List TokenKind} (hc : c.Before n (s.tokens ++ rest)) :
    ∃ first others, c.Before n (first :: others) ∧ first.startsStatement := by
  obtain ⟨first, others, hfirst, hstart⟩ := s.exists_head
  refine ⟨first, others ++ rest, ?_, hstart⟩
  rw [← List.cons_append, ← hfirst]
  exact hc

/-- The first of several statements is read without a look at the others. -/
theorem first_gives {s : Stmt} (hs : ReadsStmt s) (rest : List Stmt) (fuel : Nat)
    (hk : k ≠ .keyword .else) (hc : c.Before n (s.tokens ++ (Stmt.bodyTokens rest ++ k :: ks)))
    (hroom : n + s.nesting ≤ maxNesting) :
    (orRecover (statement fuel)).Gives c fun a d =>
      (∃ s', a = some s' ∧ s'.bare = s.bare) ∧ d.Before n (Stmt.bodyTokens rest ++ k :: ks) := by
  obtain ⟨l, ls, hl, helse⟩ := Stmt.exists_head_body rest ks hk
  rw [hl] at hc ⊢
  exact gives_orRecover (hs fuel hc hroom fun _ => helse)

theorem statements_gives (body : List Stmt) :
    ∀ (fuel : Nat) {c : Cursor}, (∀ s ∈ body, ReadsStmt s) →
      c.Before n (Stmt.bodyTokens body ++ .symbol .rightBrace :: ks) →
      n + Stmt.bodyNesting body ≤ maxNesting →
      (statements fuel).Gives c fun body' d =>
        Stmt.bareBody body' = Stmt.bareBody body ∧ d.Before n (.symbol .rightBrace :: ks) := by
  induction body with
  | nil =>
    intro fuel c _ hc _
    cases fuel with
    | zero => trivial
    | succ fuel =>
      unfold statements
      refine gives_kind hc ?_
      rw [if_pos (Or.inl rfl)]
      exact ⟨rfl, hc⟩
  | cons s rest ih =>
    intro fuel c hread hc hroom
    cases fuel with
    | zero => trivial
    | succ fuel =>
      have hs : ReadsStmt s := hread s (by simp)
      have hrest : ∀ x ∈ rest, ReadsStmt x := fun x hx => hread x (List.mem_cons_of_mem _ hx)
      rw [Stmt.bodyNesting] at hroom
      rw [Stmt.bodyTokens, List.append_assoc] at hc
      obtain ⟨first, others, hahead, hstart⟩ := before_head hc
      unfold statements
      refine gives_kind hahead ?_
      rw [if_neg (by rintro (rfl | rfl) <;> exact absurd hstart (by decide))]
      refine gives_isFull hahead ?_
      rw [if_neg (by simp)]
      refine (first_gives hs rest fuel (by simp) hc (by omega)).bind ?_
      intro _ d hresult
      obtain ⟨⟨s', rfl, hs'⟩, hd⟩ := hresult
      refine (ih fuel hrest hd (by omega)).bind ?_
      rintro others d ⟨hothers, hd⟩
      exact ⟨by simp [Stmt.bareBody, hs', hothers], hd⟩

theorem block_gives {body : List Stmt} (hbody : ∀ s ∈ body, ReadsStmt s) (fuel : Nat)
    (hc : c.Before n (Stmt.braced (Stmt.bodyTokens body) ++ k :: ks))
    (hroom : n + Stmt.bodyNesting body ≤ maxNesting) :
    (block fuel).Gives c fun b d =>
      Stmt.bareBody b.1 = Stmt.bareBody body ∧ d.Before n (k :: ks) := by
  simp only [Stmt.braced, List.cons_append, List.append_assoc] at hc
  cases fuel with
  | zero => trivial
  | succ fuel =>
    unfold block
    apply gives_expect hc
    intro start d hd
    refine (statements_gives body fuel hbody hd hroom).bind ?_
    rintro body' d ⟨hbody', hd⟩
    apply gives_expect hd
    intro _ d hd
    exact gives_spanFrom fun _ => ⟨hbody', hd⟩

/-- The statements of a whole script are found, up to the end of the file. -/
theorem script_gives (body : List Stmt) :
    ∀ (fuel : Nat) {c : Cursor}, (∀ s ∈ body, ReadsStmt s) →
      c.Before n (Stmt.bodyTokens body ++ [.endOfFile]) →
      n + Stmt.bodyNesting body ≤ maxNesting →
      (script fuel).Gives c fun body' d =>
        Stmt.bareBody body' = Stmt.bareBody body ∧ d.Before n [.endOfFile] := by
  induction body with
  | nil =>
    intro fuel c _ hc _
    cases fuel with
    | zero => trivial
    | succ fuel =>
      unfold script
      refine gives_kind hc ?_
      rw [if_pos rfl]
      exact ⟨rfl, hc⟩
  | cons s rest ih =>
    intro fuel c hread hc hroom
    cases fuel with
    | zero => trivial
    | succ fuel =>
      have hs : ReadsStmt s := hread s (by simp)
      have hrest : ∀ x ∈ rest, ReadsStmt x := fun x hx => hread x (List.mem_cons_of_mem _ hx)
      rw [Stmt.bodyNesting] at hroom
      rw [Stmt.bodyTokens, List.append_assoc] at hc
      obtain ⟨first, others, hahead, hstart⟩ := before_head hc
      unfold script
      refine gives_kind hahead ?_
      rw [if_neg (by rintro rfl; exact absurd hstart (by decide))]
      refine gives_isFull hahead ?_
      rw [if_neg (by simp), if_neg (by rintro rfl; exact absurd hstart (by decide))]
      refine (first_gives hs rest fuel (by simp) hc (by omega)).bind ?_
      intro _ d hresult
      obtain ⟨⟨s', rfl, hs'⟩, hd⟩ := hresult
      refine (ih fuel hrest hd (by omega)).bind ?_
      rintro others d ⟨hothers, hd⟩
      exact ⟨by simp [Stmt.bareBody, hs', hothers], hd⟩

/-! Parts of statements -/

theorem condition_gives {e : Expr} (he : ReadsWhole e) (fuel : Nat)
    (hc : c.Before n (.symbol .leftParen :: (e.tokens ++ .symbol .rightParen :: ks)))
    (hroom : n + e.nesting ≤ maxNesting) :
    (condition fuel).Gives c fun e' d => e'.bare = e.bare ∧ d.Before n ks := by
  unfold condition
  apply gives_expect hc
  intro _ d hd
  refine (he fuel hd hroom rfl).bind ?_
  rintro e' d ⟨he', hd⟩
  exact gives_expect hd fun _ d hd => ⟨he', hd⟩

theorem parameters_gives (rest : List Name) :
    ∀ (param : Name) (seen : List String) (fuel : Nat) {c : Cursor},
      ((param :: rest).map Name.text).Nodup → (∀ p ∈ param :: rest, p.text ∉ seen) →
      c.Before n (Stmt.nameTokens (param :: rest) ++ .symbol .rightParen :: ks) →
      (parameters fuel seen).Gives c fun params d =>
        params.map Name.bare = (param :: rest).map Name.bare ∧
          d.Before n (.symbol .rightParen :: ks) := by
  induction rest with
  | nil =>
    intro param seen fuel c _ hfresh hc
    cases fuel with
    | zero => trivial
    | succ fuel =>
      have hparam : param.text ∉ seen := hfresh param (by simp)
      unfold parameters
      apply gives_name hc
      intro span d hd
      refine gives_complainIf (by simpa using hparam) ?_
      refine gives_accept_of_ne hd (by simp) ?_
      exact ⟨rfl, hd⟩
  | cons next rest ih =>
    intro param seen fuel c hdistinct hfresh hc
    cases fuel with
    | zero => trivial
    | succ fuel =>
      have hparam : param.text ∉ seen := hfresh param (by simp)
      rw [List.map_cons, List.nodup_cons] at hdistinct
      obtain ⟨hnew, hdistinct⟩ := hdistinct
      have hfresh' : ∀ p ∈ next :: rest, p.text ∉ param.text :: seen := by
        intro p hp
        rw [List.mem_cons, not_or]
        refine ⟨fun heq => hnew ?_, hfresh p (List.mem_cons_of_mem _ hp)⟩
        exact List.mem_map.mpr ⟨p, hp, heq⟩
      unfold parameters
      apply gives_name hc
      intro span d hd
      refine gives_complainIf (by simpa using hparam) ?_
      apply gives_accept hd
      intro d hd
      refine (ih next _ fuel hdistinct hfresh' hd).bind ?_
      rintro params d ⟨hparams, hd⟩
      exact ⟨by rw [List.map_cons, hparams]; rfl, hd⟩

theorem parameterList_gives {params : List Name} (hdistinct : (params.map Name.text).Nodup)
    (fuel : Nat)
    (hc : c.Before n (.symbol .leftParen :: (Stmt.nameTokens params ++ .symbol .rightParen :: ks))) :
    (parameterList fuel).Gives c fun params' d =>
      params'.map Name.bare = params.map Name.bare ∧ d.Before n ks := by
  unfold parameterList
  apply gives_expect hc
  intro _ d hd
  cases params with
  | nil =>
    refine (gives_unlessAhead_stop hd).bind ?_
    intro _ d hresult
    obtain ⟨rfl, hd⟩ := hresult
    exact gives_expect hd fun _ d hd => ⟨rfl, hd⟩
  | cons param rest =>
    have hread := parameters_gives rest param [] fuel hdistinct (by simp) hd
    obtain ⟨others, hahead⟩ : ∃ others, d.Before n (.name param.text :: others) := by
      cases rest <;> exact ⟨_, hd⟩
    refine (gives_unlessAhead hahead (by simp) hread).bind ?_
    intro _ d hresult
    obtain ⟨⟨params', rfl, hparams'⟩, hd⟩ := hresult
    exact gives_expect hd fun _ d hd => ⟨hparams', hd⟩

theorem handlerParameter_gives (param : Option Name)
    (hc : c.Before n (Stmt.handlerTokens param ++ .symbol .leftBrace :: ks)) :
    handlerParameter.Gives c fun param' d =>
      param'.map Name.bare = param.map Name.bare ∧ d.Before n (.symbol .leftBrace :: ks) := by
  unfold handlerParameter
  cases param with
  | none =>
    refine (gives_after_of_ne hc (by simp)).mono ?_
    intro _ d hresult
    obtain ⟨rfl, hd⟩ := hresult
    exact ⟨rfl, hd⟩
  | some name =>
    refine Gives.mono (P := fun param' d => (∃ b, param' = some b ∧ b.bare = name.bare) ∧
      d.Before n (.symbol .leftBrace :: ks)) ?_ ?_
    · apply gives_after hc
      intro d hd
      apply gives_name hd
      intro span d hd
      exact gives_expect hd fun _ d hd => ⟨rfl, hd⟩
    · intro _ d hresult
      obtain ⟨⟨param', rfl, hparam'⟩, hd⟩ := hresult
      exact ⟨congrArg some hparam', hd⟩

/-! One kind of statement after another -/

theorem readsKind_declare {init : Option Expr} (hinit : ∀ e ∈ init, ReadsWhole e) (name : Name)
    (span : Span) : ReadsKind (.declare name init span) := by
  intro fuel c n k ks hc hroom _
  simp only [Stmt.tokens, List.cons_append, List.append_assoc] at hc
  rw [Stmt.nesting] at hroom
  cases fuel with
  | zero => trivial
  | succ fuel =>
    unfold statementKind
    refine gives_kind hc ?_
    dsimp only
    unfold declaration
    apply gives_next hc
    intro start d hd
    apply gives_name hd
    intro span d hd
    cases init with
    | none =>
      refine (gives_after_of_ne hd (by simp)).bind ?_
      intro _ d hresult
      obtain ⟨rfl, hd⟩ := hresult
      apply gives_expect hd
      intro _ d hd
      exact gives_spanFrom fun _ => ⟨rfl, hd⟩
    | some e =>
      have he : ReadsWhole e := hinit e rfl
      simp only [Stmt.initTokens, Option.elim_some, List.cons_append] at hd
      simp only [Stmt.optionNesting, Option.elim_some] at hroom
      have hread := gives_after hd fun d hd => he fuel hd (by omega) rfl
      refine hread.bind ?_
      intro _ d hresult
      obtain ⟨⟨e', rfl, he'⟩, hd⟩ := hresult
      apply gives_expect hd
      intro _ d hd
      exact gives_spanFrom fun _ => ⟨by simp [Stmt.bare, Name.bare, he'], hd⟩

theorem readsKind_jump (kind : LoopJump) (span : Span) : ReadsKind (.jump kind span) := by
  intro fuel c n k ks hc _ _
  cases fuel with
  | zero => trivial
  | succ fuel =>
    have hread : (loopJump kind).Gives c fun s' d =>
        s'.bare = (Stmt.jump kind span).bare ∧ d.Before n (k :: ks) := by
      unfold loopJump
      apply gives_next hc
      intro start d hd
      apply gives_expect hd
      intro _ d hd
      exact gives_spanFrom fun _ => ⟨rfl, hd⟩
    unfold statementKind
    refine gives_kind hc ?_
    cases kind with
    | «break» => exact hread
    | «continue» => exact hread

theorem readsKind_transfer {value : Option Expr} (hvalue : ∀ e ∈ value, ReadsWhole e)
    (kind : Transfer) (span : Span) : ReadsKind (.transfer kind value span) := by
  intro fuel c n k ks hc hroom _
  simp only [Stmt.tokens, List.cons_append, List.append_assoc] at hc
  rw [Stmt.nesting] at hroom
  cases fuel with
  | zero => trivial
  | succ fuel =>
    have hread : (transfer fuel kind).Gives c fun s' d =>
        s'.bare = (Stmt.transfer kind value span).bare ∧ d.Before n (k :: ks) := by
      unfold transfer
      apply gives_next hc
      intro start d hd
      cases value with
      | none =>
        refine (gives_unlessAhead_stop hd).bind ?_
        intro _ d hresult
        obtain ⟨rfl, hd⟩ := hresult
        apply gives_expect hd
        intro _ d hd
        exact gives_spanFrom fun _ => ⟨rfl, hd⟩
      | some e =>
        have he : ReadsWhole e := hvalue e rfl
        simp only [Stmt.valueTokens, Option.elim_some] at hd
        simp only [Stmt.optionNesting, Option.elim_some] at hroom
        obtain ⟨first, others, hfirst, hstart⟩ := e.exists_head
        have hahead : d.Before n (first :: (others ++ .symbol .semicolon :: k :: ks)) := by
          rw [← List.cons_append, ← hfirst]
          exact hd
        have hne : first ≠ .symbol .semicolon := by
          rintro rfl
          exact absurd hstart (by decide)
        refine (gives_unlessAhead hahead hne (he fuel hd (by omega) rfl)).bind ?_
        intro _ d hresult
        obtain ⟨⟨e', rfl, he'⟩, hd⟩ := hresult
        apply gives_expect hd
        intro _ d hd
        exact gives_spanFrom fun _ => ⟨by simp [Stmt.bare, he'], hd⟩
    unfold statementKind
    refine gives_kind hc ?_
    cases kind with
    | «return» => exact hread
    | exit => exact hread
    | throw => exact hread

theorem statementKind_expression {Q : Stmt → Cursor → Prop} {fuel : Nat} (hc : c.Before n (k :: ks))
    (hk : k.startsExpression) (h : (expressionStatement fuel).Gives c Q) :
    (statementKind (fuel + 1)).Gives c Q := by
  rw [← hc.kind] at hk
  unfold Gives
  rw [statementKind_startsExpression hk]
  exact h

theorem readsKind_expression {value : Expr} (hvalue : ReadsWhole value) (span : Span) :
    ReadsKind (.expression value span) := by
  intro fuel c n k ks hc hroom _
  rw [Stmt.tokens, List.append_assoc] at hc
  rw [Stmt.nesting] at hroom
  obtain ⟨first, others, hfirst, hstart⟩ := value.exists_head
  cases fuel with
  | zero => trivial
  | succ fuel =>
    have hahead : c.Before n (first :: (others ++ .symbol .semicolon :: k :: ks)) := by
      rw [← List.cons_append, ← hfirst]
      exact hc
    refine statementKind_expression hahead hstart ?_
    unfold expressionStatement
    refine (hvalue fuel hc (by omega) rfl).bind ?_
    rintro value' d ⟨hvalue', hd⟩
    apply gives_expect hd
    intro _ d hd
    exact gives_spanFrom fun _ => ⟨by simp [Stmt.bare, hvalue'], hd⟩

theorem readsKind_empty (span : Span) : ReadsKind (.empty span) := by
  intro fuel c n k ks hc _ _
  cases fuel with
  | zero => trivial
  | succ fuel =>
    unfold statementKind
    refine gives_kind hc ?_
    dsimp only
    rw [map_apply]
    exact gives_next hc fun _ d hd => ⟨rfl, hd⟩

theorem readsKind_block {body : List Stmt} (hbody : ∀ s ∈ body, ReadsStmt s) (span : Span) :
    ReadsKind (.block body span) := by
  intro fuel c n k ks hc hroom _
  rw [Stmt.nesting] at hroom
  cases fuel with
  | zero => trivial
  | succ fuel =>
    unfold statementKind
    refine gives_kind hc ?_
    refine (block_gives hbody fuel hc (by omega)).bind ?_
    rintro b d ⟨hb, hd⟩
    exact ⟨by simp [Stmt.bare, hb], hd⟩

theorem readsKind_function {params : List Name} {body : List Stmt}
    (hparams : (params.map Name.text).Nodup) (hbody : ∀ s ∈ body, ReadsStmt s) (name : Name)
    (span : Span) : ReadsKind (.function name params body span) := by
  intro fuel c n k ks hc hroom _
  simp only [Stmt.tokens, List.cons_append, List.append_assoc] at hc
  rw [Stmt.nesting] at hroom
  cases fuel with
  | zero => trivial
  | succ fuel =>
    unfold statementKind
    refine gives_kind hc ?_
    cases fuel with
    | zero => trivial
    | succ fuel =>
      dsimp only
      unfold function
      apply gives_next hc
      intro start d hd
      apply gives_name hd
      intro span d hd
      refine (parameterList_gives hparams fuel hd).bind ?_
      rintro params' d ⟨hparams', hd⟩
      refine (block_gives hbody fuel hd (by omega)).bind ?_
      rintro b d ⟨hb, hd⟩
      exact gives_spanFrom fun _ => ⟨by simp [Stmt.bare, Name.bare, hparams', hb], hd⟩

theorem readsKind_loop {test : Expr} {body : Stmt} (htest : ReadsWhole test)
    (hbody : ReadsStmt body) (span : Span) : ReadsKind (.loop test body span) := by
  intro fuel c n k ks hc hroom helse
  simp only [Stmt.tokens, List.cons_append, List.append_assoc] at hc
  rw [Stmt.nesting] at hroom
  cases fuel with
  | zero => trivial
  | succ fuel =>
    unfold statementKind
    refine gives_kind hc ?_
    cases fuel with
    | zero => trivial
    | succ fuel =>
      dsimp only
      unfold loop
      apply gives_next hc
      intro start d hd
      refine (condition_gives htest fuel hd (by omega)).bind ?_
      rintro test' d ⟨htest', hd⟩
      refine (hbody fuel hd (by omega) helse).bind ?_
      rintro body' d ⟨hbody', hd⟩
      exact gives_spanFrom fun _ => ⟨by simp [Stmt.bare, htest', hbody'], hd⟩

/-- Without `else`, what follows the `if` follows its branch too, and is no `else`. -/
theorem readsKind_branch {test : Expr} {thenBranch : Stmt} (htest : ReadsWhole test)
    (hthen : ReadsStmt thenBranch) (span : Span) :
    ReadsKind (.branch test thenBranch none span) := by
  intro fuel c n k ks hc hroom helse
  have hk : k ≠ .keyword .else := helse rfl
  simp only [Stmt.tokens, Stmt.elseTokens, List.append_nil, List.cons_append,
    List.append_assoc] at hc
  rw [Stmt.nesting, Stmt.elseNesting] at hroom
  cases fuel with
  | zero => trivial
  | succ fuel =>
    unfold statementKind
    refine gives_kind hc ?_
    cases fuel with
    | zero => trivial
    | succ fuel =>
      dsimp only
      unfold branch
      apply gives_next hc
      intro start d hd
      refine (condition_gives htest fuel hd (by omega)).bind ?_
      rintro test' d ⟨htest', hd⟩
      refine (hthen fuel hd (by omega) fun _ => hk).bind ?_
      rintro then' d ⟨hthen', hd⟩
      refine (gives_after_of_ne hd hk).bind ?_
      intro _ d hresult
      obtain ⟨rfl, hd⟩ := hresult
      exact gives_spanFrom fun _ => ⟨by simp [Stmt.bare, Stmt.bareElse, htest', hthen'], hd⟩

/-- The `else` is taken by the nearest `if` that is open, which is this one. -/
theorem readsKind_branch_else {test : Expr} {thenBranch other : Stmt} (htest : ReadsWhole test)
    (hthen : ReadsStmt thenBranch) (hother : ReadsStmt other)
    (hclosed : thenBranch.endsInOpenIf = false) (span : Span) :
    ReadsKind (.branch test thenBranch (some other) span) := by
  intro fuel c n k ks hc hroom helse
  simp only [Stmt.tokens, Stmt.elseTokens, List.cons_append, List.append_assoc] at hc
  rw [Stmt.nesting, Stmt.elseNesting] at hroom
  cases fuel with
  | zero => trivial
  | succ fuel =>
    unfold statementKind
    refine gives_kind hc ?_
    cases fuel with
    | zero => trivial
    | succ fuel =>
      dsimp only
      unfold branch
      apply gives_next hc
      intro start d hd
      refine (condition_gives htest fuel hd (by omega)).bind ?_
      rintro test' d ⟨htest', hd⟩
      have hthen := hthen fuel hd (by omega) (by rw [hclosed]; simp)
      refine hthen.bind ?_
      rintro then' d ⟨hthen', hd⟩
      refine (gives_after hd fun d hd => hother fuel hd (by omega) helse).bind ?_
      intro _ d hresult
      obtain ⟨⟨other', rfl, hother'⟩, hd⟩ := hresult
      apply gives_spanFrom
      intro _
      exact ⟨by simp [Stmt.bare, Stmt.bareElse, htest', hthen', hother'], hd⟩

theorem readsKind_attempt {body handler : List Stmt} (hbody : ∀ s ∈ body, ReadsStmt s)
    (hhandler : ∀ s ∈ handler, ReadsStmt s) (param : Option Name)
    (bodySpan handlerSpan span : Span) :
    ReadsKind (.attempt body bodySpan param handler handlerSpan span) := by
  intro fuel c n k ks hc hroom _
  simp only [Stmt.tokens, List.cons_append, List.append_assoc] at hc
  rw [Stmt.nesting] at hroom
  cases fuel with
  | zero => trivial
  | succ fuel =>
    unfold statementKind
    refine gives_kind hc ?_
    cases fuel with
    | zero => trivial
    | succ fuel =>
      dsimp only
      unfold attempt
      apply gives_next hc
      intro start d hd
      refine (block_gives hbody fuel hd (by omega)).bind ?_
      rintro b d ⟨hb, hd⟩
      apply gives_expect hd
      intro handlerStart d hd
      refine (handlerParameter_gives param hd).bind ?_
      rintro param' d ⟨hparam', hd⟩
      refine (block_gives hhandler fuel hd (by omega)).bind ?_
      rintro b' d ⟨hb', hd⟩
      refine gives_spanFrom fun _ => gives_spanFrom fun _ => ?_
      exact ⟨by simp [Stmt.bare, hb, hparam', hb'], hd⟩

/-! All statements -/

theorem readsWhole_option {value : Option Expr} (h : value.all (Expr.all Expr.fits)) :
    ∀ e ∈ value, ReadsWhole e := by
  rintro e rfl
  exact expression_gives h

mutual

theorem readsKind : ∀ s : Stmt, s.all Expr.fits Stmt.fits → ReadsKind s
  | .declare name init span, h => by
    rw [Stmt.all, Bool.and_eq_true] at h
    exact readsKind_declare (readsWhole_option h.2) name span
  | .function name params body span, h => by
    rw [Stmt.all, Bool.and_eq_true] at h
    have hparams : (params.map Name.text).Nodup := by
      simpa [Stmt.fits, Stmt.ownsElse, Stmt.hasDistinctParams] using h.1
    exact readsKind_function hparams (readsStmt_body body h.2) name span
  | .block body span, h => by
    rw [Stmt.all, Bool.and_eq_true] at h
    exact readsKind_block (readsStmt_body body h.2) span
  | .branch test thenBranch none span, h => by
    simp only [Stmt.all, Bool.and_eq_true] at h
    obtain ⟨⟨⟨-, htest⟩, hthen⟩, -⟩ := h
    exact readsKind_branch (expression_gives htest) (readsKind thenBranch hthen).stmt span
  | .branch test thenBranch (some other) span, h => by
    simp only [Stmt.all, Stmt.allElse, Bool.and_eq_true] at h
    obtain ⟨⟨⟨hfits, htest⟩, hthen⟩, hother⟩ := h
    have hclosed : thenBranch.endsInOpenIf = false := by
      simpa [Stmt.fits, Stmt.ownsElse, Stmt.hasDistinctParams] using hfits
    exact readsKind_branch_else (expression_gives htest) (readsKind thenBranch hthen).stmt
      (readsKind other hother).stmt hclosed span
  | .loop test body span, h => by
    simp only [Stmt.all, Bool.and_eq_true] at h
    exact readsKind_loop (expression_gives h.1.2) (readsKind body h.2).stmt span
  | .jump kind span, _ => readsKind_jump kind span
  | .transfer kind value span, h => by
    rw [Stmt.all, Bool.and_eq_true] at h
    exact readsKind_transfer (readsWhole_option h.2) kind span
  | .attempt body bodySpan param handler handlerSpan span, h => by
    simp only [Stmt.all, Bool.and_eq_true] at h
    obtain ⟨⟨-, hbody⟩, hhandler⟩ := h
    exact readsKind_attempt (readsStmt_body body hbody) (readsStmt_body handler hhandler) param
      bodySpan handlerSpan span
  | .expression value span, h => by
    rw [Stmt.all, Bool.and_eq_true] at h
    exact readsKind_expression (expression_gives h.2) span
  | .empty span, _ => readsKind_empty span

theorem readsStmt_body : ∀ body : List Stmt, Stmt.allBody Expr.fits Stmt.fits body →
    ∀ s ∈ body, ReadsStmt s
  | [], _ => by simp
  | s :: rest, h => by
    rw [Stmt.allBody, Bool.and_eq_true] at h
    have hs := (readsKind s h.1).stmt
    intro x hx
    rcases List.mem_cons.mp hx with rfl | hx
    · exact hs
    · exact readsStmt_body rest h.2 x hx

end

end Reader

end ScriptEngine
