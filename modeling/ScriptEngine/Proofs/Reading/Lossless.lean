import ScriptEngine.Proofs.Reading.StmtLossless
import ScriptEngine.Tree.Program

/-!
Parsing loses nothing. The tokens of a text end with the only end of file among them, and a script
that is read without complaint takes all of them but that one. So the tree that comes out is written
back as the tokens of the text, and no two token sequences have the same tree.
-/
namespace ScriptEngine

namespace Scanned

theorem word_ne_endOfFile (text : String) : word text ≠ .endOfFile := by
  unfold word
  split <;> simp

/-- No piece of a text is the end of file. -/
theorem first_ne_endOfFile (p : Position) (c : Char) (rest : List Char) :
    (first p c rest).piece ≠ .token .endOfFile := by
  unfold first
  split
  · simp
  · split
    · simp
    · split
      · unfold number
        dsimp only
        split
        · split <;> simp
        · simp
      · split
        · simpa using word_ne_endOfFile _
        · split
          · rename_i scanned hcomment
            unfold comment? at hcomment
            split at hcomment
            · obtain rfl := Option.some.inj hcomment
              simp
            · split at hcomment <;> obtain rfl := Option.some.inj hcomment <;> simp
            · simp at hcomment
          · split <;> simp

end Scanned

namespace Lexed

theorem exists_tokens_readFrom (p : Position) (count : Nat) (text : List Char) (skip : Nat) :
    ∃ tokens last, (readFrom p count text skip).tokens = tokens ++ [last] ∧
      (∀ t ∈ tokens, t.kind ≠ .endOfFile) ∧ last.kind = .endOfFile := by
  fun_induction readFrom p count text skip with
  | case1 => exact ⟨[], _, rfl, by simp, rfl⟩
  | case2 p count c rest skip ih => exact ih
  | case3 p count c rest scanned next hpiece ih => exact ih
  | case4 p count c rest scanned next kind hpiece hfull => exact ⟨[], _, rfl, by simp, rfl⟩
  | case5 p count c rest scanned next kind hpiece hmore ih =>
    obtain ⟨tokens, last, htokens, hinside, hlast⟩ := ih
    refine ⟨_ :: tokens, last, congrArg (List.cons _) htokens, ?_, hlast⟩
    intro t ht
    rcases List.mem_cons.1 ht with rfl | ht
    · intro hend
      exact Scanned.first_ne_endOfFile p c rest (by rw [← hend]; exact hpiece)
    · exact hinside t ht
  | case6 p count c rest scanned next hpiece hfull => exact ⟨[], _, rfl, by simp, rfl⟩
  | case7 p count c rest scanned next hpiece hmore ih => exact ih

end Lexed

/-- A list is split only once at the first place of an element. -/
private theorem eq_of_append_singleton {α : Type} {x : α} {l m n : List α} (hl : x ∉ l) (hm : x ∉ m)
    (hn : n.headD x = x) (h : l ++ [x] = m ++ n) : l = m := by
  induction l generalizing m with
  | nil =>
    cases m with
    | nil => rfl
    | cons y m =>
      have hy : x = y := (List.cons.inj h).1
      exact absurd (hy ▸ List.mem_cons_self) hm
  | cons z l ih =>
    cases m with
    | nil =>
      cases n with
      | nil => simp at h
      | cons y n =>
        have hy : y = x := hn
        have hz : z = y := (List.cons.inj h).1
        exact absurd ((hz.trans hy) ▸ List.mem_cons_self) hl
    | cons y m =>
      obtain ⟨rfl, htail⟩ := List.cons.inj h
      simp only [List.mem_cons, not_or] at hl hm
      rw [ih hl.2 hm.2 htail]

/-- A reading with the fuel that a program gets never runs out of it. -/
theorem script_ne_exhausted (tokens : List Token) :
    Reader.script (readingFuel tokens) (Cursor.start tokens) ≠ .exhausted := by
  intro h
  have hscript := Reader.script_passes (readingFuel tokens) (Cursor.start tokens)
  rw [h] at hscript
  have hlack : readingFuel tokens < 16 * tokens.length + 9 := hscript
  unfold readingFuel at hlack
  omega

/-- A file without complaints is read to its end into a program that lists its tokens. -/
theorem ofTokens_lossless {tokens : List Token} {last : Token}
    (hinside : ∀ t ∈ tokens, t.kind ≠ .endOfFile) (hlast : last.kind = .endOfFile)
    (hclean : (Program.ofTokens (tokens ++ [last])).complaints = []) :
    ∃ program, (Program.ofTokens (tokens ++ [last])).program = some program ∧
      tokens.map Token.kind = program.tokens := by
  have hscript := Reader.script_passes (readingFuel (tokens ++ [last]))
    (Cursor.start (tokens ++ [last]))
  have hfuel := script_ne_exhausted (tokens ++ [last])
  unfold Program.ofTokens at hclean ⊢
  dsimp only at hclean ⊢
  cases hread : Reader.script (readingFuel (tokens ++ [last])) (Cursor.start (tokens ++ [last])) with
  | done body d =>
    rw [hread] at hscript hclean
    dsimp only at hclean ⊢
    obtain ⟨hover, hend⟩ := hscript
    rw [hclean]
    refine ⟨_, rfl, ?_⟩
    have hkinds : tokens.map Token.kind ++ [.endOfFile] = Stmt.bodyTokens body ++ d.kinds := by
      rw [← (hover.clean hclean).2]
      simp [Cursor.kinds, Cursor.start, hlast]
    refine eq_of_append_singleton ?_ hover.inside ?_ hkinds
    · intro hmem
      obtain ⟨t, ht, htend⟩ := List.mem_map.1 hmem
      exact hinside t ht htend
    · rw [← Cursor.kind_eq]
      exact hend hclean
  | failed d =>
    rw [hread] at hscript hclean
    exact absurd hclean hscript.blamed
  | exhausted => exact absurd hread hfuel

theorem parse_eq_ofTokens {source : List Char} (hclean : (parse source).complaints = []) :
    parse source = Program.ofTokens (lex source).tokens := by
  unfold parse at hclean ⊢
  dsimp only at hclean ⊢
  split
  · rfl
  · rename_i hlexed
    rw [if_neg hlexed] at hclean
    have hlength := congrArg List.length hclean
    simp only [List.length_take, List.length_mergeSort, List.length_append, List.length_nil,
      maxErrors] at hlength
    have hnil : (lex source).complaints = [] := List.length_eq_zero_iff.1 (by omega)
    exact absurd (List.isEmpty_iff.2 hnil) hlexed

theorem complaints_eq_nil_of_program {source : List Char} {program : Program}
    (h : (parse source).program = some program) : (parse source).complaints = [] := by
  unfold parse Program.ofTokens at *
  dsimp only at *
  split at h
  · rename_i hlexed
    rw [if_pos hlexed]
    split at h
    · split at h
      · exact List.isEmpty_iff.1 ‹_›
      · simp at h
    · simp at h
    · simp at h
  · simp at h

theorem exists_program_of_clean {source : List Char} (hclean : (parse source).complaints = []) :
    ∃ program, (parse source).program = some program ∧
      (lex source).tokens.map Token.kind = program.tokens ++ [.endOfFile] := by
  obtain ⟨tokens, last, htokens, hinside, hlast⟩ :=
    Lexed.exists_tokens_readFrom ⟨1, 1⟩ 0 source 0
  have hlex : (lex source).tokens = tokens ++ [last] := htokens
  have hparse := parse_eq_ofTokens hclean
  rw [hparse, hlex] at hclean
  obtain ⟨program, hprogram, hkinds⟩ := ofTokens_lossless hinside hlast hclean
  refine ⟨program, by rw [hparse, hlex, hprogram], ?_⟩
  rw [hlex, List.map_append, hkinds, List.map_singleton, hlast]

/-- A text that is parsed without complaint gives a program, and the tokens of the text are those of
the program and the end of file. A text whose program differs at most in the places of its parts has
the same tokens. -/
theorem parse_lossless (source : List Char) (hclean : (parse source).complaints = []) :
    ∃ program, (parse source).program = some program ∧
      (lex source).tokens.map Token.kind = program.tokens ++ [.endOfFile] ∧
      ∀ other program', (parse other).program = some program' → program'.bare = program.bare →
        (lex other).tokens.map Token.kind = (lex source).tokens.map Token.kind := by
  obtain ⟨program, hprogram, hkinds⟩ := exists_program_of_clean hclean
  refine ⟨program, hprogram, hkinds, ?_⟩
  intro other program' hprogram' hbare
  obtain ⟨program'', hprogram'', hkinds'⟩ :=
    exists_program_of_clean (complaints_eq_nil_of_program hprogram')
  obtain rfl : program' = program'' := by
    rw [hprogram'] at hprogram''
    exact Option.some.inj hprogram''
  rw [hkinds', hkinds, ← program'.tokens_bare, hbare, program.tokens_bare]

theorem parse_lossless_branch :
    (parse "if (x) y.z = -1; else \x7b f(2, array[3]); \x7d".toList).complaints = [] ∧
      ∃ program,
        (parse "if (x) y.z = -1; else \x7b f(2, array[3]); \x7d".toList).program = some program ∧
          (lex "if (x) y.z = -1; else \x7b f(2, array[3]); \x7d".toList).tokens.map Token.kind
            = program.tokens ++ [.endOfFile] := by
  have hclean : (parse "if (x) y.z = -1; else \x7b f(2, array[3]); \x7d".toList).complaints = [] := by
    decide +kernel
  obtain ⟨program, hprogram, hkinds, _⟩ := parse_lossless _ hclean
  exact ⟨hclean, program, hprogram, hkinds⟩

end ScriptEngine
