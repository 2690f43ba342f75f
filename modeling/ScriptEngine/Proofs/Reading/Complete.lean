import ScriptEngine.Proofs.Reading.Lossless
import ScriptEngine.Proofs.Reading.StmtComplete

/-!
Every program of the grammar is found where it was written. The readers give it unless they run out
of fuel, and that they never do.
-/
namespace ScriptEngine

theorem Cursor.before_start {tokens : List Token} {kinds : List TokenKind}
    (h : tokens.map Token.kind = kinds) : (Cursor.start tokens).Before 0 kinds :=
  ⟨h, rfl, rfl⟩

theorem Program.exists_ofTokens {program : Program} (h : program.Canonical) {tokens : List Token}
    (htokens : tokens.map Token.kind = program.tokens ++ [.endOfFile]) :
    ∃ read, Program.ofTokens tokens = ⟨some read, []⟩ ∧ read.bare = program.bare := by
  have hbody := Reader.readsStmt_body program.body h.fits
  have hroom : 0 + Stmt.bodyNesting program.body ≤ maxNesting := by
    have := h.nesting
    omega
  have hstart := Cursor.before_start htokens
  have hscript := Reader.script_gives program.body (readingFuel tokens) hbody hstart hroom
  have hfuel := script_ne_exhausted tokens
  unfold Reader.Gives at hscript
  unfold Program.ofTokens
  cases hread : Reader.script (readingFuel tokens) (Cursor.start tokens) with
  | done body d =>
    rw [hread] at hscript
    obtain ⟨hbare, hd⟩ := hscript
    simp only [hread, hd.clean]
    exact ⟨_, rfl, by simp only [Program.bare, hbare]⟩
  | failed d =>
    rw [hread] at hscript
    exact hscript.elim
  | exhausted => exact absurd hread hfuel

/-- From the listing of a program of the grammar the readers get this program back, up to the places
of its parts, and complain about nothing. So no other program of the grammar has this listing. -/
theorem ofTokens_complete (program : Program) (h : program.Canonical) (tokens : List Token)
    (htokens : tokens.map Token.kind = program.tokens ++ [.endOfFile]) :
    (∃ read, Program.ofTokens tokens = ⟨some read, []⟩ ∧ read.bare = program.bare) ∧
      ∀ other : Program, other.Canonical → other.tokens = program.tokens →
        other.bare = program.bare := by
  obtain ⟨read, hread, hbare⟩ := Program.exists_ofTokens h htokens
  refine ⟨⟨read, hread, hbare⟩, fun other hother hsame => ?_⟩
  obtain ⟨read', hread', hbare'⟩ := Program.exists_ofTokens hother (hsame ▸ htokens)
  rw [hread] at hread'
  obtain rfl : read = read' := by
    injection hread' with hread'
    exact Option.some.inj hread'
  rw [← hbare', hbare]

/-- An assignment below a loop below an `if` that has an `else`, behind which another `if` stands. -/
def closedBranch : Program :=
  let x : Name := ⟨"x", default⟩
  let one : Expr := .literal (.integer 1) default
  let difference : Expr := .binary .sub (.binary .sub one one default) (.unary .negate one default) default
  ⟨[.branch (.variable x) (.loop one (.expression (.assign x difference default) default) default)
    (some (.branch one (.empty default) none default)) default, .empty default], default⟩

theorem ofTokens_complete_closedBranch :
    closedBranch.Canonical ∧
      ∃ read, Program.ofTokens
          ((closedBranch.tokens ++ [TokenKind.endOfFile]).map fun kind => ⟨kind, default⟩) =
        ⟨some read, []⟩ ∧ read.bare = closedBranch.bare := by
  have hcanonical : closedBranch.Canonical := ⟨by decide, by decide⟩
  refine ⟨hcanonical, ?_⟩
  exact (ofTokens_complete closedBranch hcanonical _ (by decide)).1

end ScriptEngine
