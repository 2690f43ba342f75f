import ScriptEngine.Proofs.Reading.Composition
import ScriptEngine.Proofs.Reading.Lossless

/-!
The spans of a tree. What was read without a complaint is outlined by the tokens that were taken: a
node is closed with the span from its first token, or from the node that it begins with, to the
token read last, or to the node that it ends with, and either way this covers its tokens. A
statement that cannot be read leaves a complaint behind, so that nothing is missing from a tree
without complaints.
-/
namespace ScriptEngine

namespace Cursor

/-- The span of the token read last, after these tokens. -/
def behind (previous : Span) (tokens : List Token) : Span :=
  tokens.foldl (fun _ t => t.span) previous

theorem behind_concat (previous : Span) (before : List Token) (t : Token) :
    behind previous (before ++ [t]) = t.span := by
  simp [behind]

/-- Reading went from `c` to `d` over tokens that such an outline fits, as long as nothing was
complained about. -/
structure Past (c d : Cursor) (parts : List Outline) : Prop where
  clean : d.complaints = [] → c.complaints = []
  passed : d.complaints = [] → ∃ tokens, c.rest = tokens ++ d.rest ∧
    (∀ t ∈ tokens, t.kind ≠ .endOfFile) ∧ d.previous = behind c.previous tokens ∧
    (Token.Apart tokens → Outline.AllFit parts tokens)

variable {c d e : Cursor} {parts parts' : List Outline}

theorem Past.refl (c : Cursor) : c.Past c [] :=
  ⟨fun h => h, fun _ => ⟨[], rfl, by simp, rfl, fun _ => rfl⟩⟩

theorem Past.trans (h : c.Past d parts) (h' : d.Past e parts') : c.Past e (parts ++ parts') := by
  refine ⟨fun hclean => h.clean (h'.clean hclean), fun hclean => ?_⟩
  obtain ⟨right, hright, hinside', hprevious', hfit'⟩ := h'.passed hclean
  obtain ⟨left, hleft, hinside, hprevious, hfit⟩ := h.passed (h'.clean hclean)
  refine ⟨left ++ right, ?_, fun t ht => ?_, ?_, fun happart => ?_⟩
  · rw [hleft, hright, List.append_assoc]
  · exact (List.mem_append.1 ht).elim (hinside t) (hinside' t)
  · rw [hprevious', hprevious]
    exact (List.foldl_append).symm
  · exact (hfit (happart.of_sublist (List.sublist_append_left _ _))).append
      (hfit' (happart.of_sublist (List.sublist_append_right _ _)))

/-- After a complaint nothing is said about the tokens. -/
theorem Past.of_blamed (h : d.complaints ≠ []) : c.Past d parts :=
  ⟨fun hclean => absurd hclean h, fun hclean => absurd hclean h⟩

/-- One level deeper and back, the tokens are the same. -/
theorem Past.nested (h : Past { c with depth := c.depth + 1 } d parts) :
    c.Past { d with depth := d.depth - 1 } parts :=
  ⟨h.clean, h.passed⟩

theorem past_advance {k : TokenKind} (hk : c.kind = k) (hne : k ≠ .endOfFile) :
    c.Past c.advance [.token k] := by
  obtain ⟨t, rest, hrest, ht⟩ := exists_rest hk hne
  refine ⟨?_, fun _ => ⟨[t], ?_, ?_, ?_, fun _ => ?_⟩⟩
  · rw [advance, hrest]
    exact fun h => h
  · rw [advance, hrest]
    rfl
  · intro u hu
    rw [List.mem_singleton.1 hu, ht]
    exact hne
  · rw [advance, hrest]
    rfl
  · exact Outline.allFit_singleton ⟨t, rfl, ht⟩

theorem Past.close (h : c.Past d parts) (hne : parts ≠ []) {a b : Span} (ha : c.Opens a parts)
    (hb : d.Closes b parts) : c.Past d [.node (a.merge b) parts] := by
  refine ⟨h.clean, fun hclean => ?_⟩
  obtain ⟨tokens, hrest, hinside, hprevious, hfit⟩ := h.passed hclean
  refine ⟨tokens, hrest, hinside, hprevious, fun happart => ?_⟩
  have hfit := hfit happart
  -- Where the node begins and ends depends on its first and its last piece only.
  have hfirst : ∃ left, left <+: tokens ∧ a.Covers left := by
    rcases ha with rfl | ⟨inner, rest, rfl⟩
    · obtain ⟨t, rest, rfl⟩ := List.exists_cons_of_ne_nil (hfit.ne_nil hne)
      refine ⟨[t], ⟨rest, rfl⟩, ?_⟩
      rw [here, hrest]
      exact .singleton t
    · obtain ⟨left, right, rfl, hnode, -⟩ := hfit
      exact ⟨left, List.prefix_append _ _, hnode.1⟩
  have hlast : ∃ right, right <:+ tokens ∧ b.Covers right := by
    rcases hb with rfl | ⟨before, inner, rfl⟩
    · obtain ⟨before, t, rfl⟩ : ∃ before t, tokens = before ++ [t] :=
        ⟨_, _, (List.dropLast_concat_getLast (hfit.ne_nil hne)).symm⟩
      refine ⟨[t], List.suffix_append _ _, ?_⟩
      rw [hprevious, behind_concat]
      exact .singleton t
    · obtain ⟨left, right, rfl, -, hnode⟩ := hfit.exists_append
      obtain ⟨right, rest, rfl, hnode, rfl⟩ := hnode
      refine ⟨right, ?_, hnode.1⟩
      rw [List.append_nil]
      exact List.suffix_append _ _
  obtain ⟨left, hleft, hcovers⟩ := hfirst
  obtain ⟨right, hright, hcovers'⟩ := hlast
  exact Outline.allFit_singleton ⟨hcovers.merge hcovers' hleft hright happart, hfit⟩

theorem Past.opened {span : Span} (h : c.Past d [.node span parts]) : c.Past d parts := by
  refine ⟨h.clean, fun hclean => ?_⟩
  obtain ⟨tokens, hrest, hinside, hprevious, hfit⟩ := h.passed hclean
  refine ⟨tokens, hrest, hinside, hprevious, fun happart => ?_⟩
  obtain ⟨left, right, rfl, hnode, rfl⟩ := hfit happart
  rw [List.append_nil]
  exact hnode.2

theorem past_way :
    Reader.Way (fun parts c d => c.Past d parts) (fun _ d => d.complaints ≠ []) where
  refl := Past.refl
  trans := Past.trans
  advance := past_advance
  close := fun h hne ha hb => h.close hne ha hb
  nested := fun _ h => h.nested
  fail := fun _ h => h
  fail_nested := fun _ h => h
  complain := fun c fault _ => complain_ne_nil c fault _

theorem past_composed : Reader.Composed (fun parts c d => c.Past d parts)
    (fun parts c d => c.Past d parts) (fun _ d => d.complaints ≠ []) where
  expr := past_way
  stmt := past_way
  widen := fun h => h
  opened := Past.opened
  field := fun _ _ => .of_blamed (complain_ne_nil _ _ _)
  parameter := fun _ => .of_blamed (complain_ne_nil _ _ _)
  stray := fun {c} hk => by
    refine .of_blamed fun hclean => complain_ne_nil c .strayBrace c.here ?_
    exact (past_advance ((kind_complain c _ _).trans hk) (by simp)).clean hclean
  recover := fun _ h => .of_blamed h

/-- Tokens before the end of the file are all the tokens before it. -/
theorem eq_of_kind_endOfFile {c : Cursor} {tokens before : List Token} {last : Token}
    (h : tokens ++ [last] = before ++ c.rest) (htokens : ∀ t ∈ tokens, t.kind ≠ .endOfFile)
    (hlast : last.kind = .endOfFile) (hbefore : ∀ t ∈ before, t.kind ≠ .endOfFile)
    (hend : c.kind = .endOfFile) : tokens = before := by
  rcases List.append_eq_append_iff.1 h with ⟨middle, rfl, hmiddle⟩ | ⟨middle, rfl, hmiddle⟩
  · cases middle with
    | nil => exact (List.append_nil _).symm
    | cons t middle =>
      obtain ⟨rfl, -⟩ := List.cons.inj hmiddle
      exact absurd hlast (hbefore last (by simp))
  · cases middle with
    | nil => exact List.append_nil _
    | cons t middle =>
      rw [kind, hmiddle] at hend
      exact absurd hend (htokens t (by simp))

end Cursor

/-- A tree is outlined by the tokens of its text, all but the end of the file: every node has a
stretch of them for itself, and its span reaches from the first of these tokens to the last. So the
nodes that a node is made of lie inside its span, each of them behind the one before. A program that
has statements is such a node itself. -/
theorem parse_spans {source : List Char} {program : Program}
    (h : (parse source).program = some program) :
    ∃ tokens last, (lex source).tokens = tokens ++ [last] ∧ last.kind = .endOfFile ∧
      Outline.AllFit (Stmt.bodyParts program.body) tokens ∧
      (program.body ≠ [] → program.outline.Fits tokens ∧ program.outline.Nested) := by
  have hclean := complaints_eq_nil_of_program h
  obtain ⟨tokens, last, hlex, htokens, hlast⟩ := Lexed.exists_tokens_readFrom ⟨1, 1⟩ 0 source 0
  have hlex : (lex source).tokens = tokens ++ [last] := hlex
  have happart : Token.Apart tokens :=
    (hlex ▸ lex_tokens_apart source).of_sublist (List.sublist_append_left _ _)
  refine ⟨tokens, last, hlex, hlast, ?_⟩
  rw [parse_eq_ofTokens hclean, hlex] at h hclean
  let start := Cursor.start (tokens ++ [last])
  have hpast := Cursor.past_composed.takes_script (readingFuel (tokens ++ [last])) start
  have hend := Reader.script_passes (readingFuel (tokens ++ [last])) start
  unfold Reader.Takes at hpast
  unfold Program.ofTokens at h hclean
  dsimp only at h hclean
  cases hread : Reader.script (readingFuel (tokens ++ [last])) start with
  | done body d =>
    rw [hread] at h hclean hpast hend
    have hclean : d.complaints = [] := hclean
    have hprogram : (⟨body, start.here.merge d.previous⟩ : Program) = program := by
      simpa [hclean] using h
    -- Reading has come to the end of the file, so that it has taken all tokens before it.
    have hfits : ∀ parts, start.Past d parts → Outline.AllFit parts tokens := by
      intro parts hparts
      obtain ⟨before, hrest, hbefore, -, hfit⟩ := hparts.passed hclean
      obtain rfl := d.eq_of_kind_endOfFile hrest htokens hlast hbefore (hend.2 hclean)
      exact hfit happart
    rw [← hprogram]
    refine ⟨hfits _ hpast, fun hbody => ?_⟩
    have hparts : Stmt.bodyParts body ≠ [] := by
      obtain ⟨s, rest, rfl⟩ := List.exists_cons_of_ne_nil hbody
      simp [Stmt.bodyParts]
    obtain ⟨left, right, rfl, hnode, rfl⟩ :=
      hfits _ (Cursor.Past.close hpast hparts (.inl rfl) (.inl rfl))
    rw [List.append_nil] at happart ⊢
    exact ⟨hnode, hnode.nested happart⟩
  | failed d =>
    rw [hread] at h
    cases h
  | exhausted =>
    rw [hread] at h
    cases h

theorem parse_spans_attempt :
    ∃ program, (parse "try \x7b f(x)[1] = -y;\n\x7d catch (e) \x7b \x7d".toList).program = some program ∧
      ∃ tokens last,
        (lex "try \x7b f(x)[1] = -y;\n\x7d catch (e) \x7b \x7d".toList).tokens = tokens ++ [last] ∧
          program.outline.Fits tokens ∧ program.outline.Nested := by
  have hbody : (parse "try \x7b f(x)[1] = -y;\n\x7d catch (e) \x7b \x7d".toList).program.map
      (fun program => program.body.length) = some 1 := by
    decide +kernel
  obtain ⟨program, hprogram, hlength⟩ := Option.map_eq_some_iff.1 hbody
  obtain ⟨tokens, last, htokens, -, -, hfits⟩ := parse_spans hprogram
  refine ⟨program, hprogram, tokens, last, htokens, hfits ?_⟩
  intro hnil
  rw [hnil] at hlength
  cases hlength

end ScriptEngine
