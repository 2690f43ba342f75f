import ScriptEngine.Proofs.Reading.Composition
import ScriptEngine.Proofs.Reading.Tiling

/-!
The order in which errors are reported. A reader complains about the token ahead, or about a name
that it has just taken, so that complaints come in the order of the tokens. Only whether a field is
there twice is asked behind its value, and its value may contain such fields as well. When
characters are wrong already, everything is put in order at the end.
-/
namespace ScriptEngine

namespace Complaint

def isDuplicateField (x : Complaint) : Bool :=
  match x.fault with
  | .duplicateField _ => true
  | _ => false

/-- One complaint may be made before the other. -/
def Before (x y : Complaint) : Prop :=
  x.span.start ≤ y.span.start ∨ x.isDuplicateField ∧ y.isDuplicateField

end Complaint

namespace Cursor

/-- The tokens lie side by side, and the end of the file is among them. -/
structure Sound (tokens : List Token) : Prop where
  apart : Token.Apart tokens
  ends : ∃ t ∈ tokens, t.kind = .endOfFile

theorem Sound.of_suffix {tokens rest : List Token} (h : Sound tokens) (hrest : rest <:+ tokens)
    (hends : ∃ t ∈ rest, t.kind = .endOfFile) : Sound rest where
  apart := h.apart.of_sublist hrest.sublist
  ends := hends

theorem Sound.exists_rest {c : Cursor} (h : Sound c.rest) :
    ∃ t rest, c.rest = t :: rest ∧ c.here = t.span := by
  obtain ⟨t, ht, -⟩ := h.ends
  obtain ⟨first, rest, hrest⟩ := List.exists_cons_of_ne_nil (List.ne_nil_of_mem ht)
  exact ⟨first, rest, hrest, by rw [here, hrest]⟩

/-- On the way from one cursor to another such complaints are made, each about a token that was
ahead and not about one behind those that still are. -/
structure Along (only : Complaint → Prop) (c d : Cursor) : Prop where
  suffix : d.rest <:+ c.rest
  ends : ∃ t ∈ d.rest, t.kind = .endOfFile
  room : c.complaints.length ≤ maxErrors → d.complaints.length ≤ maxErrors
  made : ∃ made, d.complaints = c.complaints ++ made ∧ made.Pairwise Complaint.Before ∧
    ∀ x ∈ made, only x ∧ (∃ t ∈ c.rest, x.span = t.span) ∧
      ∀ u ∈ d.rest, x.span.start ≤ u.span.start

variable {only : Complaint → Prop} {c d e : Cursor}

/-- Nothing is complained about on the way. -/
theorem Along.of_silent (hsuffix : d.rest <:+ c.rest) (hends : ∃ t ∈ d.rest, t.kind = .endOfFile)
    (hsame : d.complaints = c.complaints) : Along only c d where
  suffix := hsuffix
  ends := hends
  room := by rw [hsame]; exact fun h => h
  made := ⟨[], by rw [hsame, List.append_nil], .nil, by simp⟩

theorem Along.refl (h : Sound c.rest) : Along only c c :=
  .of_silent (List.suffix_refl _) h.ends rfl

theorem Along.trans (h : Along only c d) (h' : Along only d e) : Along only c e := by
  obtain ⟨made, hmade, horder, hplaces⟩ := h.made
  obtain ⟨made', hmade', horder', hplaces'⟩ := h'.made
  refine ⟨h'.suffix.trans h.suffix, h'.ends, fun hroom => h'.room (h.room hroom), made ++ made',
    ?_, ?_, fun x hx => ?_⟩
  · rw [hmade', hmade, List.append_assoc]
  · -- What is complained about later was still ahead when the first way ended.
    refine List.pairwise_append.2 ⟨horder, horder', fun x hx y hy => Or.inl ?_⟩
    obtain ⟨-, ⟨t, ht, hy⟩, -⟩ := hplaces' y hy
    rw [hy]
    exact (hplaces x hx).2.2 t ht
  · rcases List.mem_append.1 hx with hx | hx
    · obtain ⟨honly, htoken, hahead⟩ := hplaces x hx
      exact ⟨honly, htoken, fun u hu => hahead u (h'.suffix.subset hu)⟩
    · obtain ⟨honly, ⟨t, ht, hx⟩, hahead⟩ := hplaces' x hx
      exact ⟨honly, ⟨t, h.suffix.subset ht, hx⟩, hahead⟩

theorem Along.advance (h : Sound c.rest) (hk : c.kind ≠ .endOfFile) : Along only c c.advance := by
  obtain ⟨t, rest, hrest, ht⟩ := Cursor.exists_rest rfl hk
  obtain ⟨last, hlast, hend⟩ := h.ends
  have hnext : c.advance.rest = rest := by rw [Cursor.advance, hrest]
  refine .of_silent ?_ ⟨last, ?_, hend⟩ (by rw [Cursor.advance, hrest])
  · rw [hnext, hrest]
    exact List.suffix_cons t rest
  · rw [hrest] at hlast
    rw [hnext]
    refine (List.mem_cons.1 hlast).resolve_left fun hlast => hk ?_
    rw [← ht, ← hlast, hend]

/-- A complaint about a token that was ahead, and behind which those are that still are, may follow
the complaints that it may be made after. -/
theorem Along.complain {only' : Complaint → Prop} (h : Along only c d) {fault : SourceFault}
    {t : Token} (ht : t ∈ c.rest) (hahead : ∀ u ∈ d.rest, t.span.start ≤ u.span.start)
    (honly : only' ⟨fault, t.span⟩)
    (hbefore : ∀ x, only x → only' x ∧ x.Before ⟨fault, t.span⟩) :
    Along only' c (d.complain fault t.span) := by
  obtain ⟨made, hmade, horder, hplaces⟩ := h.made
  have hplaces' : ∀ x ∈ made, only' x ∧ (∃ t ∈ c.rest, x.span = t.span) ∧
      ∀ u ∈ d.rest, x.span.start ≤ u.span.start :=
    fun x hx => ⟨(hbefore x (hplaces x hx).1).1, (hplaces x hx).2⟩
  unfold Cursor.complain isFull
  split
  · exact ⟨h.suffix, h.ends, h.room, made, hmade, horder, hplaces'⟩
  · rename_i hfull
    refine ⟨h.suffix, h.ends, fun _ => ?_, made ++ [⟨fault, t.span⟩], ?_, ?_, fun x hx => ?_⟩
    · simp only [decide_eq_true_eq, Nat.not_le] at hfull
      simp only [List.length_append, List.length_singleton]
      omega
    · simp [hmade]
    · refine List.pairwise_append.2 ⟨horder, List.pairwise_singleton _ _, fun x hx y hy => ?_⟩
      rw [List.mem_singleton.1 hy]
      exact (hbefore x (hplaces x hx).1).2
    · rcases List.mem_append.1 hx with hx | hx
      · exact hplaces' x hx
      · rw [List.mem_singleton.1 hx]
        exact ⟨honly, ⟨t, ht, rfl⟩, hahead⟩

/-- Recovery does not skip the end of the file. -/
theorem mem_skipFrom {moved : Bool} {previous : Span} {tokens : List Token} {t : Token}
    (ht : t ∈ tokens) (hend : t.kind = .endOfFile) : t ∈ (skipFrom moved previous tokens).1 := by
  fun_induction skipFrom moved previous tokens with
  | case1 => exact ht
  | case2 => exact ht
  | case3 moved previous u rest _ hsemicolon =>
    refine (List.mem_cons.1 ht).resolve_left ?_
    rintro rfl
    simp [hend] at hsemicolon
  | case4 => exact ht
  | case5 moved previous u rest hmore _ _ ih =>
    refine ih ((List.mem_cons.1 ht).resolve_left ?_)
    rintro rfl
    exact hmore hend

theorem Along.recover (h : Along only c d) (before : Cursor) : Along only c (before.recover d) := by
  obtain ⟨last, hlast, hend⟩ := h.ends
  exact h.trans (.of_silent (suffix_recover before d) ⟨last, mem_skipFrom hlast hend, hend⟩ rfl)

/-- Over tokens that are sound, the way is such a one. -/
def Leads (only : Complaint → Prop) (c d : Cursor) : Prop := Sound c.rest → Along only c d

theorem Leads.trans (h : Leads only c d) (h' : Leads only d e) : Leads only c e := fun hc =>
  (h hc).trans (h' (hc.of_suffix (h hc).suffix (h hc).ends))

/-- The depth has nothing to do with the order of complaints. -/
theorem Leads.nested (h : Leads only { c with depth := c.depth + 1 } d) :
    Leads only c { d with depth := d.depth - 1 } := fun hc =>
  have hd := h hc
  ⟨hd.suffix, hd.ends, hd.room, hd.made⟩

theorem leads_complain (c : Cursor) (fault : SourceFault) :
    Leads (fun _ => True) c (c.complain fault c.here) := fun hc => by
  obtain ⟨t, rest, hrest, hhere⟩ := hc.exists_rest
  have hrefl : Along (fun _ => False) c c := .refl hc
  rw [hhere]
  refine hrefl.complain (by simp [hrest]) ?_ trivial fun _ => False.elim
  rw [hrest] at hc ⊢
  exact hc.apart.start_le

theorem leads_parameter {name : String} (hk : c.kind = .name name) :
    Leads (fun _ => True) c (c.advance.complain (.duplicateParameter name) c.here) := fun hc => by
  obtain ⟨t, rest, hrest, hhere⟩ := hc.exists_rest
  have hadvance : Along (fun _ => False) c c.advance := .advance hc (by simp [hk])
  rw [hhere]
  refine hadvance.complain (by simp [hrest]) (fun u hu => ?_) trivial fun _ => False.elim
  have hu := hadvance.suffix.subset hu
  rw [hrest] at hc hu
  exact hc.apart.start_le u hu

/-- Behind the value of a field there are only complaints about such fields, so that another may
follow, although its name stands before all of them. -/
theorem leads_field {name : String} (hk : c.kind = .name name)
    (h : Leads (·.isDuplicateField) c.advance d) :
    Leads (·.isDuplicateField) c (d.complain (.duplicateField name) c.here) := fun hc => by
  obtain ⟨t, rest, hrest, hhere⟩ := hc.exists_rest
  have hadvance : Leads (fun x => x.isDuplicateField = true) c c.advance :=
    fun hc => .advance hc (by simp [hk])
  have hd := hadvance.trans h hc
  rw [hhere]
  refine hd.complain (by simp [hrest]) (fun u hu => ?_) rfl fun x hx => ⟨hx, Or.inr ⟨hx, rfl⟩⟩
  have hu := hd.suffix.subset hu
  rw [hrest] at hc hu
  exact hc.apart.start_le u hu

theorem Leads.widen (h : Leads only c d) : Leads (fun _ => True) c d := fun hc => by
  obtain ⟨hsuffix, hends, hroom, made, hmade, horder, hplaces⟩ := h hc
  exact ⟨hsuffix, hends, hroom, made, hmade, horder, fun x hx => ⟨trivial, (hplaces x hx).2⟩⟩

/-- The order of complaints does not depend on what is read. -/
theorem leads_way (only : Complaint → Prop) :
    Reader.Way (fun _ => Leads only) (Leads fun _ => True) where
  refl := fun _ hc => .refl hc
  trans := Leads.trans
  advance := fun hk hne hc => .advance hc (by rwa [hk])
  close := fun h _ _ _ => h
  nested := fun _ h => h.nested
  fail := fun h h' => h.widen.trans h'
  fail_nested := fun _ h => h.nested
  complain := fun c fault _ => leads_complain c fault

theorem leads_composed : Reader.Composed (fun _ => Leads (·.isDuplicateField))
    (fun _ => Leads fun _ => True) (Leads fun _ => True) where
  expr := leads_way _
  stmt := leads_way _
  widen := Leads.widen
  opened := fun h => h
  field := leads_field
  parameter := leads_parameter
  stray := fun {c} hk => by
    refine (leads_complain c _).trans fun hc => .advance hc ?_
    rw [kind_complain, hk]
    simp
  recover := fun _ h hc => (h hc).recover _

end Cursor

namespace Program

/-- What is complained about in the tokens of a script is in order. -/
theorem complaints_ofTokens {tokens : List Token} (h : Cursor.Sound tokens) :
    (ofTokens tokens).complaints.length ≤ maxErrors ∧
      (ofTokens tokens).complaints.Pairwise Complaint.Before := by
  have hscript := Cursor.leads_composed.takes_script (readingFuel tokens) (Cursor.start tokens)
  have hmade : ∀ c, Cursor.Leads (fun _ => True) (Cursor.start tokens) c →
      c.complaints.length ≤ maxErrors ∧ c.complaints.Pairwise Complaint.Before := by
    intro c hc
    obtain ⟨made, hmade, horder, -⟩ := (hc h).made
    refine ⟨(hc h).room (Nat.zero_le _), ?_⟩
    rw [hmade]
    exact horder
  unfold Reader.Takes at hscript
  unfold ofTokens
  dsimp only
  cases hread : Reader.script (readingFuel tokens) (Cursor.start tokens) with
  | done body c =>
    rw [hread] at hscript
    exact hmade c hscript
  | failed c =>
    rw [hread] at hscript
    exact hmade c hscript
  | exhausted => exact ⟨Nat.zero_le _, .nil⟩

end Program

theorem sound_lex (source : List Char) : Cursor.Sound (lex source).tokens := by
  obtain ⟨tokens, last, htokens, -, hlast⟩ := Lexed.exists_tokens_readFrom ⟨1, 1⟩ 0 source 0
  have htokens : (lex source).tokens = tokens ++ [last] := htokens
  exact ⟨lex_tokens_apart source, last, by simp [htokens], hlast⟩

/-- One error may be reported before the other: it does not stand behind it, or no character is
wrong and both are about fields that are there twice. -/
def Complaint.Ordered (source : List Char) (x y : Complaint) : Prop :=
  x.span.start ≤ y.span.start ∨
    (lex source).complaints = [] ∧ x.isDuplicateField ∧ y.isDuplicateField

theorem Complaint.pairwise_sorted (complaints : List Complaint) :
    (complaints.mergeSort fun x y => decide (x.span.start ≤ y.span.start)).Pairwise
      fun x y => x.span.start ≤ y.span.start := by
  refine (List.pairwise_mergeSort ?_ ?_ complaints).imp fun h => of_decide_eq_true h
  · intro x y z hxy hyz
    simp only [decide_eq_true_eq] at hxy hyz ⊢
    exact Position.le_trans hxy hyz
  · intro x y
    simp only [Bool.or_eq_true, decide_eq_true_eq]
    exact Position.le_total _ _

theorem ordered_complaints (source : List Char) :
    (parse source).complaints.length ≤ maxErrors ∧
      (parse source).complaints.Pairwise (Complaint.Ordered source) := by
  unfold parse
  dsimp only
  split
  · rename_i hclean
    obtain ⟨hroom, horder⟩ := Program.complaints_ofTokens (sound_lex source)
    -- The complaints stay in the order in which they were made.
    refine ⟨hroom, horder.imp fun h => h.imp_right fun h => ⟨List.isEmpty_iff.1 hclean, h⟩⟩
  · refine ⟨List.length_take_le _ _, ?_⟩
    have hsorted := Complaint.pairwise_sorted
      ((lex source).complaints ++ (Program.ofTokens (lex source).tokens).complaints)
    exact (hsorted.sublist (List.take_sublist _ _)).imp Or.inl

/-- There are never more errors than the limit, and they come in the order of their places; only
when no character is wrong may two errors about fields that are there twice come the other way
round. The error that a program is refused with is the first of them. -/
theorem parse_ordered (source : List Char) :
    (parse source).complaints.length ≤ maxErrors ∧
      (parse source).complaints.Pairwise (Complaint.Ordered source) ∧
      ∀ error, Program.ofSource source = .error error →
        ∃ first ∈ (parse source).complaints, error = first.toError source ∧
          ∀ other ∈ (parse source).complaints, first.Ordered source other := by
  obtain ⟨hroom, horder⟩ := ordered_complaints source
  refine ⟨hroom, horder, fun error herror => ?_⟩
  unfold Program.ofSource at herror
  dsimp only at herror
  split at herror
  · rename_i first rest hcomplaints
    rw [hcomplaints] at horder ⊢
    refine ⟨first, List.mem_cons_self, (Except.error.inj herror).symm, fun other hother => ?_⟩
    rcases List.mem_cons.1 hother with rfl | hother
    · exact Or.inl (Position.le_refl _)
    · exact (List.pairwise_cons.1 horder).1 other hother
  · cases herror
  · cases herror

/-- A field that is there twice, and in its value another one. -/
def twiceInside : String := "var a = struct \x7b x = 1; x = struct \x7b y = 1; y = 2; \x7d; \x7d;"

theorem not_parse_sorted : ¬ (parse twiceInside.toList).complaints.Pairwise
    fun x y => x.span.start ≤ y.span.start := by
  decide +kernel

end ScriptEngine
