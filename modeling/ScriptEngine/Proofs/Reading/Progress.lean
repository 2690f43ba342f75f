import ScriptEngine.Proofs.Reading.Composition
import ScriptEngine.Proofs.Reading.Fuel
import ScriptEngine.Proofs.Reading.SourceOrder

/-!
Reading comes to an end. The loops over statements are repetitions of one pass, and a pass that does
not leave its loop takes at least one token, whatever became of its statement. No reader goes back,
and none goes beyond the end of the file. So every list of tokens is read, with a program exactly
when there is nothing to complain about.
-/
namespace ScriptEngine

namespace Cursor

/-- The last token ahead is the end of the file. -/
def Bounded (c : Cursor) : Prop := ∃ before last, c.rest = before ++ [last] ∧ last.kind = .endOfFile

/-- From one cursor to the other reading did not go back, nor beyond the end of the file, and took a
token if it is said to have taken one. -/
structure Onward (taken : Prop) (c d : Cursor) : Prop where
  suffix : d.rest <:+ c.rest
  bounded : c.Bounded → d.Bounded
  shorter : taken → d.rest.length < c.rest.length

variable {p q : Prop} {c d e : Cursor}

/-- As long as a token is ahead, the last one is. -/
theorem exists_concat_of_suffix {rest before : List Token} {last : Token}
    (h : rest <:+ before ++ [last]) (hne : rest ≠ []) : ∃ before', rest = before' ++ [last] := by
  obtain ⟨skipped, hskipped⟩ := h
  rw [← List.dropLast_concat_getLast hne, ← List.append_assoc] at hskipped
  obtain ⟨-, hlast⟩ := List.append_inj' hskipped rfl
  exact ⟨rest.dropLast, by rw [← hlast, List.dropLast_concat_getLast hne]⟩

theorem Bounded.of_suffix (h : c.Bounded) (hsuffix : d.rest <:+ c.rest) (hne : d.rest ≠ []) :
    d.Bounded := by
  obtain ⟨before, last, hrest, hlast⟩ := h
  obtain ⟨before', hrest'⟩ := exists_concat_of_suffix (hrest ▸ hsuffix) hne
  exact ⟨before', last, hrest', hlast⟩

theorem Onward.refl (hp : ¬ p) (c : Cursor) : Onward p c c :=
  ⟨List.suffix_refl _, fun h => h, fun h => absurd h hp⟩

theorem Onward.trans (h : Onward p c d) (h' : Onward q d e) : Onward (p ∨ q) c e := by
  refine ⟨h'.suffix.trans h.suffix, fun hc => h'.bounded (h.bounded hc), fun htaken => ?_⟩
  have hle := h.suffix.length_le
  have hle' := h'.suffix.length_le
  rcases htaken with hp | hq
  · have := h.shorter hp
    omega
  · have := h'.shorter hq
    omega

theorem Onward.of_imp (h : Onward p c d) (hqp : q → p) : Onward q c d :=
  ⟨h.suffix, h.bounded, fun hq => h.shorter (hqp hq)⟩

theorem onward_advance {k : TokenKind} (hk : c.kind = k) (hne : k ≠ .endOfFile) :
    Onward p c c.advance := by
  obtain ⟨t, rest, hrest, ht⟩ := exists_rest hk hne
  have hnext : c.advance.rest = rest := by rw [Cursor.advance, hrest]
  have hsuffix : c.advance.rest <:+ c.rest := by
    rw [hnext, hrest]
    exact List.suffix_cons t rest
  refine ⟨hsuffix, fun hc => hc.of_suffix hsuffix fun hnil => ?_, fun _ => ?_⟩
  · -- The token was not the last one, which is the end of the file.
    obtain ⟨before, last, hlast, hend⟩ := hc
    obtain rfl : rest = [] := hnext.symm.trans hnil
    obtain rfl : t = last := by
      rw [hrest, ← List.nil_append [t]] at hlast
      exact List.singleton_inj.1 (List.append_inj' hlast rfl).2
    exact hne (ht.symm.trans hend)
  · simp [hnext, hrest]

theorem onward_complain (hp : ¬ p) (c : Cursor) (fault : SourceFault) (span : Span) :
    Onward p c (c.complain fault span) := by
  refine ⟨suffix_complain c fault span, ?_, fun h => absurd h hp⟩
  unfold Bounded
  rw [rest_complain]
  exact fun h => h

/-- Recovery stops at the end of the file at the latest. -/
theorem Onward.recover (h : Onward False c d) (hp : ¬ p) (before : Cursor) :
    Onward p c (before.recover d) := by
  have hsuffix := suffix_recover before d
  have hd : Onward False d (before.recover d) := by
    refine ⟨hsuffix, fun hd => hd.of_suffix hsuffix ?_, False.elim⟩
    obtain ⟨front, last, hrest, hlast⟩ := hd
    exact List.ne_nil_of_mem (mem_skipFrom (by simp [hrest]) hlast)
  exact (h.trans hd).of_imp fun h => absurd h hp

/-- The depth has nothing to do with it. -/
theorem Onward.nested (h : Onward p { c with depth := c.depth + 1 } d) :
    Onward p c { d with depth := d.depth - 1 } :=
  ⟨h.suffix, h.bounded, h.shorter⟩

theorem onward_way : Reader.Way (fun parts => Onward (parts ≠ [])) (Onward False) where
  refl := .refl (by simp)
  trans := fun {parts _ _ _ _} h h' => (h.trans h').of_imp fun hne => by
    by_cases hparts : parts = []
    · exact .inr (by simpa [hparts] using hne)
    · exact .inl hparts
  advance := onward_advance
  close := fun h hne _ _ => h.of_imp fun _ => hne
  nested := fun _ h => h.nested
  fail := fun h h' => (h.trans h').of_imp False.elim
  fail_nested := fun _ h => h.nested
  complain := fun c _ _ => onward_complain (fun h => h) c _ _

theorem onward_composed : Reader.Composed (fun parts => Onward (parts ≠ []))
    (fun parts => Onward (parts ≠ [])) (Onward False) where
  expr := onward_way
  stmt := onward_way
  widen := fun h => h
  opened := fun h => h.of_imp fun _ => by simp
  field := fun {_ _ c d} hk h => by
    have hname : Onward True c c.advance := onward_advance hk (by simp)
    exact ((hname.trans h).trans (onward_complain (fun h => h) d _ _)).of_imp fun _ => by simp
  parameter := fun {_ c} hk => by
    have hname : Onward True c c.advance := onward_advance hk (by simp)
    exact (hname.trans (onward_complain (fun h => h) c.advance _ _)).of_imp fun _ => by simp
  stray := fun {c} hk =>
    ((onward_complain (fun h => h) c _ _).trans
      (onward_advance (p := False) ((kind_complain c _ _).trans hk) (by simp))).of_imp fun h =>
        absurd rfl h
  recover := fun _ h => h.recover (by simp) _

end Cursor

namespace Reader

open Cursor

variable {fuel : Nat} {c : Cursor} {pass : Nat → Reader (Option (Option Stmt))}

/-! The loops over statements -/

/-- Passes, one after the other, until one of them leaves the loop. A pass that does not may have
read a statement or not. -/
def repeated (pass : Nat → Reader (Option (Option Stmt))) : Nat → Reader (List Stmt)
  | 0 => exhausted
  | fuel + 1 => do
    match ← pass fuel with
    | none => pure []
    | some first =>
      let others ← repeated pass fuel
      pure (first.toList ++ others)

/-- One pass of the loop over the statements up to a closing brace. -/
def blockPass (fuel : Nat) : Reader (Option (Option Stmt)) := do
  let ahead ← kind
  if ahead = .symbol .rightBrace ∨ ahead = .endOfFile then pure none
  else if ← isFull then pure none
  else some <$> orRecover (statement fuel)

/-- One pass of the loop over the statements of a whole script. -/
def scriptPass (fuel : Nat) : Reader (Option (Option Stmt)) := do
  let ahead ← kind
  if ahead = .endOfFile then pure none
  else if ← isFull then pure none
  else if ahead = .symbol .rightBrace then
    complain .strayBrace (← here)
    let _ ← next
    pure (some none)
  else some <$> orRecover (statement fuel)

section Laws

variable {α β : Type}

private theorem pure_bind_eq (a : α) (f : α → Reader β) : pure a >>= f = f a := rfl

private theorem bind_pure_eq (r : Reader α) : (r >>= fun a => pure a) = r := bind_pure r

private theorem ite_bind (p : Prop) [Decidable p] (r s : Reader α) (f : α → Reader β) :
    (if p then r else s) >>= f = if p then r >>= f else s >>= f := by
  split <;> rfl

end Laws

theorem statements_eq_repeated (fuel : Nat) : statements fuel = repeated blockPass fuel := by
  induction fuel with
  | zero => rfl
  | succ fuel ih =>
    simp only [statements, repeated, blockPass, bind_assoc, ite_bind, pure_bind_eq, pure_bind,
      map_eq_pure_bind, ih]

theorem script_eq_repeated (fuel : Nat) : script fuel = repeated scriptPass fuel := by
  induction fuel with
  | zero => rfl
  | succ fuel ih =>
    simp only [script, repeated, scriptPass, bind_assoc, ite_bind, pure_bind_eq, pure_bind,
      map_eq_pure_bind, ih, Option.toList_none, List.nil_append, bind_pure_eq]

/-- The pass does not fail, and takes at least one token unless it leaves the loop. -/
def Advances (pass : Nat → Reader (Option (Option Stmt))) : Prop :=
  ∀ fuel c, (pass fuel c).Meets (fun first d => Onward first.isSome c d) (fun _ => False) True

/-- Whether the statement is read or not, what was read or skipped has at least one token. -/
theorem orRecover_onward (hc : c.kind ≠ .endOfFile) :
    (orRecover (statement fuel) c).Meets (fun _ d => Onward True c d) (fun _ => False) True := by
  have hlossless := lossless_orRecover (stmtReaders fuel) c hc
  have honward := onward_composed.takes_orRecover ((onward_composed.stmts fuel).statement c) hc
  unfold Lossless orRecover at hlossless
  unfold Takes orRecover at honward
  unfold orRecover
  cases hread : statement fuel c with
  | done s d =>
    rw [hread] at hlossless honward
    exact ⟨honward.suffix, honward.bounded, fun _ => hlossless.shorter⟩
  | failed d =>
    rw [hread] at hlossless honward
    exact ⟨honward.suffix, honward.bounded, fun _ => hlossless.shorter⟩
  | exhausted => trivial

/-- The last step of both passes. -/
theorem some_orRecover_onward (hc : c.kind ≠ .endOfFile) :
    ((some <$> orRecover (statement fuel)) c).Meets (fun first d => Onward first.isSome c d)
      (fun _ => False) True := by
  rw [map_apply]
  exact (orRecover_onward hc).bind (fun _ _ h => h.of_imp fun _ => trivial) (fun _ h => h)
    (fun h => h)

theorem blockPass_advances : Advances blockPass := by
  intro fuel c
  unfold blockPass
  apply meets_kind
  intro k hk
  split
  · exact .refl (by simp) c
  · rename_i hmore
    rw [isFull_bind]
    split
    · exact .refl (by simp) c
    · exact some_orRecover_onward fun hend => hmore (.inr (hk.symm.trans hend))

theorem scriptPass_advances : Advances scriptPass := by
  intro fuel c
  unfold scriptPass
  apply meets_kind
  intro k hk
  split
  · exact .refl (by simp) c
  · rename_i hmore
    rw [isFull_bind]
    split
    · exact .refl (by simp) c
    · split
      · rename_i hbrace
        have hkind := (kind_complain c .strayBrace c.here).trans (hk.trans hbrace)
        have hcomplain := onward_complain (p := False) (fun h => h) c .strayBrace c.here
        have hnext := onward_advance (p := True) hkind (by simp)
        rw [here_bind, complain_bind]
        exact (hcomplain.trans hnext).of_imp fun _ => .inr trivial
      · exact some_orRecover_onward (by rwa [hk])

/-- A loop whose passes do not fail does not fail. -/
theorem repeated_ne_failed (h : Advances pass) (fuel : Nat) (c d : Cursor) :
    repeated pass fuel c ≠ .failed d := by
  induction fuel generalizing c d with
  | zero => simp [repeated, exhausted]
  | succ fuel ih =>
    have hpass := h fuel c
    rw [repeated, bind_apply]
    cases hread : pass fuel c with
    | done first e =>
      cases first with
      | none => simp [pure]
      | some first =>
        dsimp only
        rw [bind_apply]
        cases hothers : repeated pass fuel e with
        | done others f => simp [pure]
        | failed f => exact absurd hothers (ih e f)
        | exhausted => simp
    | failed e =>
      rw [hread] at hpass
      exact hpass.elim
    | exhausted => simp

/-- A script is read with the fuel that it gets, and with any fuel beyond that in the same way. -/
theorem script_done (tokens : List Token) :
    ∃ body c, (∀ fuel, readingFuel tokens ≤ fuel →
        script fuel (Cursor.start tokens) = .done body c) ∧
      Onward False (Cursor.start tokens) c := by
  have honward := onward_composed.takes_script (readingFuel tokens) (Cursor.start tokens)
  unfold Takes at honward
  cases hread : script (readingFuel tokens) (Cursor.start tokens) with
  | done body c =>
    rw [hread] at honward
    exact ⟨body, c, fun fuel hfuel => (script_eq_of_readingFuel_le hfuel).trans hread,
      honward.of_imp False.elim⟩
  | failed c =>
    rw [script_eq_repeated] at hread
    exact absurd hread (repeated_ne_failed scriptPass_advances _ _ _)
  | exhausted => exact absurd hread (script_ne_exhausted tokens)

end Reader

/-- A list of tokens gives a program exactly when nothing in it is complained about. -/
theorem ofTokens_isSome_iff (tokens : List Token) :
    (Program.ofTokens tokens).program.isSome ↔ (Program.ofTokens tokens).complaints = [] := by
  obtain ⟨body, c, hread, -⟩ := Reader.script_done tokens
  unfold Program.ofTokens
  dsimp only
  rw [hread _ (Nat.le_refl _)]
  dsimp only
  split <;> simp_all

theorem parse_isSome_iff (source : List Char) :
    (parse source).program.isSome ↔ (parse source).complaints = [] := by
  constructor
  · intro h
    obtain ⟨program, hprogram⟩ := Option.isSome_iff_exists.1 h
    exact complaints_eq_nil_of_program hprogram
  · intro h
    obtain ⟨program, hprogram, -⟩ := exists_program_of_clean h
    simp [hprogram]

/-- Reading cannot stall. Both loops over statements repeat one pass, which does not fail and takes
a token unless it leaves the loop. No reader goes back or beyond the end of the file, and what is
read as an expression or a statement has at least one token. So tokens that end with the end of the
file are read to an end, the same with any fuel from some amount on, and without going beyond the
last of them; and there is a program exactly when there is nothing to complain about. -/
theorem reading_advances {tokens : List Token} {last : Token} (hlast : last.kind = .endOfFile) :
    (∀ fuel, Reader.script fuel = Reader.repeated Reader.scriptPass fuel ∧
      Reader.statements fuel = Reader.repeated Reader.blockPass fuel) ∧
    (∀ fuel c,
      (Reader.scriptPass fuel c).Meets (fun first d => Cursor.Onward first.isSome c d)
        (fun _ => False) True ∧
      (Reader.blockPass fuel c).Meets (fun first d => Cursor.Onward first.isSome c d)
        (fun _ => False) True ∧
      (Reader.expression fuel c).Meets (fun _ d => Cursor.Onward True c d) (Cursor.Onward False c)
        True) ∧
    (∀ fuel,
      Reader.Composed.Exprs (fun parts => Cursor.Onward (parts ≠ [])) (Cursor.Onward False) fuel ∧
      Reader.Composed.Stmts (fun parts => Cursor.Onward (parts ≠ [])) (Cursor.Onward False) fuel) ∧
    (∃ body c, (∀ fuel, readingFuel (tokens ++ [last]) ≤ fuel →
        Reader.script fuel (Cursor.start (tokens ++ [last])) = .done body c) ∧
      ∃ before, c.rest = before ++ [last]) ∧
    ((Program.ofTokens (tokens ++ [last])).program.isSome ↔
      (Program.ofTokens (tokens ++ [last])).complaints = []) ∧
    ∀ source, (parse source).program.isSome ↔ (parse source).complaints = [] := by
  refine ⟨fun fuel => ⟨Reader.script_eq_repeated fuel, Reader.statements_eq_repeated fuel⟩,
    fun fuel c => ⟨Reader.scriptPass_advances fuel c, Reader.blockPass_advances fuel c, ?_⟩,
    fun fuel => ⟨Cursor.onward_composed.exprs fuel, Cursor.onward_composed.stmts fuel⟩, ?_,
    ofTokens_isSome_iff _, parse_isSome_iff⟩
  · exact Reading.Meets.mono ((Cursor.onward_composed.exprs fuel).expression c)
      (fun _ _ h => h.of_imp fun _ => by simp) (fun _ h => h) (fun h => h)
  · obtain ⟨body, c, hread, honward⟩ := Reader.script_done (tokens ++ [last])
    obtain ⟨before, t, hrest, -⟩ := honward.bounded ⟨tokens, last, rfl, hlast⟩
    exact ⟨body, c, hread, Cursor.exists_concat_of_suffix honward.suffix (by simp [hrest])⟩

/-- Tokens that no statement is made of. -/
def strayTokens : List Token :=
  [TokenKind.symbol .rightBrace, .keyword .if, .symbol .leftParen, .symbol .plusPlus,
    .keyword .else].map fun kind => ⟨kind, default⟩

theorem reading_advances_strayTokens :
    (Token.mk .endOfFile default).kind = .endOfFile ∧
      (∃ body c, (∀ fuel, readingFuel (strayTokens ++ [⟨.endOfFile, default⟩]) ≤ fuel →
        Reader.script fuel (Cursor.start (strayTokens ++ [⟨.endOfFile, default⟩])) =
          .done body c) ∧
        ∃ before, c.rest = before ++ [⟨.endOfFile, default⟩]) ∧
      (Program.ofTokens (strayTokens ++ [⟨.endOfFile, default⟩])).program = none := by
  obtain ⟨-, -, -, hread, hprogram, -⟩ :=
    @reading_advances strayTokens ⟨.endOfFile, default⟩ rfl
  refine ⟨rfl, hread, ?_⟩
  have hblamed : (Program.ofTokens (strayTokens ++ [⟨.endOfFile, default⟩])).complaints ≠ [] := by
    decide +kernel
  exact Option.not_isSome_iff_eq_none.1 fun h => hblamed (hprogram.1 h)

end ScriptEngine
