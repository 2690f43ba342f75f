import ScriptEngine.Proofs.Reading.Alongside
import ScriptEngine.Proofs.Reading.Progress
import ScriptEngine.Proofs.Reading.WellFormed

/-!
Recovery, statement by statement. A chunk that cannot be read is skipped to its own semicolon, with
one complaint about one of its tokens. That complaint is the same whatever comes behind the chunk
and whatever was wrong before it, so that a script of chunks is complained about as its chunks are,
one after the other, up to the limit.
-/
namespace ScriptEngine

namespace Reader

open Fork

variable {w : Fork} {fuel : Nat}

/-! A statement of one chunk -/

theorem alongside_declaration :
    Alongside w (w.InsideAt (.keyword .var)) w.Behind (declaration fuel) (declaration fuel) := by
  unfold declaration
  refine (alongside_next (by simp)).bind fun _ _ => alongside_name.bind fun _ _ => ?_
  refine ((exprsAlongside w fuel).expression.after (by simp)).bind fun _ _ => ?_
  refine alongside_expect_semicolon.bind fun _ _ => ?_
  exact (alongside_spanFrom _ _).bind fun _ _ => alongside_pure _ _

theorem alongside_loopJump (jump : LoopJump) (word : Keyword) :
    Alongside w (w.InsideAt (.keyword word)) w.Behind (loopJump jump) (loopJump jump) := by
  unfold loopJump
  refine (alongside_next (by simp)).bind fun _ _ => alongside_expect_semicolon.bind fun _ _ => ?_
  exact (alongside_spanFrom _ _).bind fun _ _ => alongside_pure _ _

theorem alongside_transfer (kind : Transfer) (word : Keyword) :
    Alongside w (w.InsideAt (.keyword word)) w.Behind (transfer fuel kind)
      (transfer fuel kind) := by
  unfold transfer
  refine (alongside_next (by simp)).bind fun _ _ => ?_
  refine ((exprsAlongside w fuel).expression.unlessAhead _).bind fun _ _ => ?_
  refine alongside_expect_semicolon.bind fun _ _ => ?_
  exact (alongside_spanFrom _ _).bind fun _ _ => alongside_pure _ _

theorem alongside_expressionStatement :
    Alongside w w.Inside w.Behind (expressionStatement fuel) (expressionStatement fuel) := by
  unfold expressionStatement
  refine (exprsAlongside w fuel).expression.bind fun _ _ => ?_
  refine alongside_expect_semicolon.bind fun _ _ => ?_
  exact (alongside_spanFrom _ _).bind fun _ _ => alongside_pure _ _

theorem alongside_statementKind :
    Alongside w w.Inside w.Behind (statementKind fuel) (statementKind fuel) := by
  cases fuel with
  | zero => exact alongside_exhausted
  | succ fuel =>
    unfold statementKind
    refine alongside_kind fun k => ?_
    split
    · exact alongside_barred _ _ (by simp [Chunk.barred])
    · exact alongside_semicolon.map _ _
    · exact alongside_declaration
    · exact alongside_barred _ _ (by simp [Chunk.barred])
    · exact alongside_barred _ _ (by simp [Chunk.barred])
    · exact alongside_barred _ _ (by simp [Chunk.barred])
    · exact alongside_barred _ _ (by simp [Chunk.barred])
    · rename_i word _ _ _ _ _
      cases word.loopJump? with
      | some jump => exact alongside_loopJump jump word
      | none =>
        cases word.transfer? with
        | some kind => exact alongside_transfer kind word
        | none => exact alongside_expressionStatement.at _
    · exact alongside_expressionStatement.at _

theorem alongside_statement :
    Alongside w w.Inside w.Behind (statement fuel) (statement fuel) := by
  cases fuel with
  | zero => exact alongside_exhausted
  | succ fuel =>
    unfold statement
    exact alongside_statementKind.nested fun d d' hd =>
      ⟨hd.rest, hd.rest', congrArg (· - 1) hd.depth, hd.silent, hd.silent'⟩

end Reader

namespace Chunk

/-! Recovery -/

/-- What is skipped ends at the semicolon, unless it gets to a boundary before. -/
theorem skipFrom_append {moved : Bool} {front behind : List Token} {semicolon : Token}
    (hends : semicolon.kind = .symbol .semicolon)
    (hinside : ∀ t ∈ front, t.kind ≠ .symbol .semicolon ∧ t.kind ≠ .endOfFile)
    (hmoved : moved → ∀ t ∈ front, Cursor.isBoundary t.kind = false)
    (hlater : ∀ t ∈ front.tail, Cursor.isBoundary t.kind = false) (previous : Span) :
    (Cursor.skipFrom moved previous (front ++ semicolon :: behind)).1 = behind := by
  induction front generalizing moved previous with
  | nil => simp [Cursor.skipFrom, hends]
  | cons t front ih =>
    obtain ⟨⟨hsemicolon, hend⟩, hinside⟩ := List.forall_mem_cons.1 hinside
    have hgo : (moved && Cursor.isBoundary t.kind) = false := by
      cases moved with
      | false => rfl
      | true => exact hmoved rfl t List.mem_cons_self
    rw [List.cons_append, Cursor.skipFrom, if_neg hend, if_neg hsemicolon, hgo]
    exact ih hinside (fun _ => hlater) (fun u hu => hlater u (List.mem_of_mem_tail hu)) t.span

theorem isBoundary_later (u : Chunk) {t : Token} (ht : t ∈ u.tokens.tail) :
    Cursor.isBoundary t.kind = false := by
  have hbrace := (u.inside t (List.mem_of_mem_tail ht)).2.2.1
  unfold Cursor.isBoundary
  split
  · exact absurd ‹_› hbrace
  · exact u.later t ht _ ‹_›
  · rfl

/-- A statement that fails inside a chunk is skipped up to the semicolon of the chunk. -/
theorem rest_recover (u : Chunk) {front behind : List Token} {c d : Cursor}
    (hc : c.rest = u.tokens ++ u.semicolon :: behind) (hfront : front <:+ u.tokens)
    (hd : d.rest = front ++ u.semicolon :: behind) : (c.recover d).rest = behind := by
  have hinside : ∀ t ∈ front, t.kind ≠ .symbol .semicolon ∧ t.kind ≠ .endOfFile := by
    intro t ht
    obtain ⟨hsemicolon, -, -, hend⟩ := u.inside t (hfront.subset ht)
    exact ⟨hsemicolon, hend⟩
  have hcases : front = u.tokens ∨ front <:+ u.tokens.tail := by
    cases htokens : u.tokens with
    | nil => exact .inl (by simpa [htokens] using hfront)
    | cons t tokens => exact List.suffix_cons_iff.1 (htokens ▸ hfront)
  have hmoved : decide (d.rest.length < c.rest.length) → ∀ t ∈ front,
      Cursor.isBoundary t.kind = false := by
    intro hmoved t ht
    have hshorter : front.length < u.tokens.length := by simpa [hc, hd] using hmoved
    rcases hcases with rfl | htail
    · exact absurd hshorter (Nat.lt_irrefl _)
    · exact u.isBoundary_later (htail.subset ht)
  have hlater : ∀ t ∈ front.tail, Cursor.isBoundary t.kind = false := by
    intro t ht
    rcases hcases with rfl | htail
    · exact u.isBoundary_later ht
    · exact u.isBoundary_later (htail.subset (List.mem_of_mem_tail ht))
  unfold Cursor.recover
  dsimp only
  rw [hd] at hmoved ⊢
  exact skipFrom_append u.ends hinside hmoved hlater d.previous

/-- There is nothing to say about the chunk, or one thing about one of its tokens. -/
def Blames (u : Chunk) (verdict : List Complaint) : Prop :=
  verdict = [] ∨ ∃ fault, ∃ t ∈ u.all, verdict = [⟨fault, t.span⟩]

end Chunk

namespace Fork

/-- Both readings are behind the chunk and have the same to say about it. -/
structure Judged (w : Fork) (verdict : List Complaint) (c c' : Cursor) : Prop where
  rest : c.rest = w.behind
  rest' : c'.rest = w.behind'
  blames : w.chunk.Blames verdict
  made : c.complaints = w.made ++ verdict
  made' : c'.complaints = w.made' ++ verdict

end Fork

namespace Reader

variable {w : Fork} {fuel : Nat} {c c' : Cursor}

/-- Whether a chunk is read or skipped, both readings come behind it with the same verdict. -/
theorem orRecover_alike (hc : c.rest = w.chunk.tokens ++ w.chunk.semicolon :: w.behind)
    (hc' : c'.rest = w.chunk.tokens ++ w.chunk.semicolon :: w.behind') (hdepth : c'.depth = c.depth)
    (hmade : c.complaints = w.made) (hmade' : c'.complaints = w.made') :
    (orRecover (statement fuel) c).Alike (fun d d' => ∃ verdict, w.Judged verdict d d')
      (fun _ _ => False) (orRecover (statement fuel) c') := by
  have hstart : w.Inside c c' :=
    ⟨⟨w.chunk.tokens, List.suffix_refl _, hc, hc', hdepth⟩, hmade, hmade'⟩
  have hread : (statement fuel c).Alike w.Behind w.Stuck (statement fuel c') :=
    alongside_statement c c' hstart
  unfold orRecover
  cases hr : statement fuel c <;> cases hr' : statement fuel c' <;> rw [hr, hr'] at hread
  case done.done s d s' d' =>
    exact ⟨[], hread.rest, hread.rest', .inl rfl, by simp [hread.silent], by simp [hread.silent']⟩
  case failed.failed d d' =>
    obtain ⟨⟨front, hfront⟩, fault, t, ht, hblamed, hblamed'⟩ := hread
    exact ⟨[⟨fault, t.span⟩], w.chunk.rest_recover hc hfront.suffix hfront.rest,
      w.chunk.rest_recover hc' hfront.suffix hfront.rest', .inr ⟨fault, t, ht, rfl⟩, hblamed,
      hblamed'⟩
  case exhausted.exhausted => trivial
  all_goals exact hread.elim

/-! Scripts of chunks -/

theorem script_full (hfull : c.isFull) : script (fuel + 1) c = .done [] c := by
  rw [script, bind_apply, kind]
  dsimp only
  split
  · rfl
  · rw [isFull_bind, if_pos hfull]
    rfl

theorem script_ended (hend : c.kind = .endOfFile) : script (fuel + 1) c = .done [] c := by
  rw [script, bind_apply, kind]
  dsimp only
  rw [if_pos hend]
  rfl

/-- Before a chunk a script has a statement to read. -/
theorem script_chunk (u : Chunk) {behind : List Token}
    (hc : c.rest = u.tokens ++ u.semicolon :: behind) (hroom : c.isFull = false) :
    script (fuel + 1) c = (do
      let first ← orRecover (statement fuel)
      let others ← script fuel
      pure (first.toList ++ others) : Reader (List Stmt)) c := by
  have hkind : c.kind ∉ Chunk.barred := by
    have hhead : ∃ t ∈ u.all, c.kind = t.kind := by
      unfold Cursor.kind
      rw [hc]
      cases htokens : u.tokens with
      | nil => exact ⟨u.semicolon, by simp [Chunk.all], rfl⟩
      | cons t tokens => exact ⟨t, by simp [Chunk.all, htokens], rfl⟩
    obtain ⟨t, ht, hk⟩ := hhead
    rw [hk]
    exact u.kind_not_barred ht
  have hend : c.kind ≠ .endOfFile := fun h => hkind (by simp [h, Chunk.barred])
  have hbrace : c.kind ≠ .symbol .rightBrace := fun h => hkind (by simp [h, Chunk.barred])
  rw [script, bind_apply, kind]
  dsimp only
  rw [if_neg hend, isFull_bind, if_neg (by simp [hroom]), if_neg hbrace]

end Reader

namespace Chunk

/-- The chunk as a script of its own. -/
def alone (u : Chunk) (stop : Span) : Parsed := Program.ofTokens (u.all ++ [⟨.endOfFile, stop⟩])

variable {fuel : Nat}

theorem all_append (u : Chunk) (behind : List Token) :
    u.all ++ behind = u.tokens ++ u.semicolon :: behind := by
  simp [all]

/-- A chunk as a script of its own is one statement that is read or skipped. -/
theorem exists_alone (u : Chunk) (stop : Span)
    (hfuel : readingFuel (u.all ++ [⟨.endOfFile, stop⟩]) ≤ fuel + 1) :
    ∃ s d, Reader.orRecover (Reader.statement fuel) (.start (u.all ++ [⟨.endOfFile, stop⟩])) =
        .done s d ∧
      (d.rest = [⟨.endOfFile, stop⟩] → (u.alone stop).complaints = d.complaints) := by
  obtain ⟨body, e, hread, -⟩ := Reader.script_done (u.all ++ [⟨.endOfFile, stop⟩])
  have hfirst := hread _ hfuel
  rw [Reader.script_chunk u (all_append u _) rfl, Reader.bind_apply] at hfirst
  cases hstatement : Reader.orRecover (Reader.statement fuel)
      (.start (u.all ++ [⟨.endOfFile, stop⟩])) with
  | done s d =>
    refine ⟨s, d, rfl, fun hrest => ?_⟩
    have hend : d.kind = .endOfFile := by rw [Cursor.kind, hrest]
    rw [hstatement] at hfirst
    cases fuel with
    | zero =>
      unfold readingFuel at hfuel
      omega
    | succ fuel =>
      dsimp only at hfirst
      rw [Reader.bind_apply, Reader.script_ended hend] at hfirst
      obtain ⟨-, rfl⟩ := Reading.done.inj hfirst
      unfold alone Program.ofTokens
      dsimp only
      rw [hread _ (Nat.le_refl _)]
  | failed d =>
    rw [hstatement] at hfirst
    cases hfirst
  | exhausted =>
    rw [hstatement] at hfirst
    cases hfirst

/-- Among other tokens a chunk is read or skipped with the complaints that it has as a script of its
own. -/
theorem exists_among (u : Chunk) (stop : Span) {behind : List Token} {c : Cursor}
    (hc : c.rest = u.all ++ behind) (hroom : c.complaints.length < maxErrors)
    (hdepth : c.depth = 0) (hfuel : readingFuel (u.all ++ [⟨.endOfFile, stop⟩]) ≤ fuel + 1) :
    u.Blames (u.alone stop).complaints ∧
      ∃ s d, Reader.orRecover (Reader.statement fuel) c = .done s d ∧ d.rest = behind ∧
        d.depth = 0 ∧ d.complaints = c.complaints ++ (u.alone stop).complaints := by
  let w : Fork := ⟨u, behind, [⟨.endOfFile, stop⟩], c.complaints, [], hroom, by decide⟩
  obtain ⟨s', d', halone, hcomplaints⟩ := u.exists_alone stop hfuel
  have halike : (Reader.orRecover (Reader.statement fuel) c).Alike
      (fun d d' => ∃ verdict, w.Judged verdict d d') (fun _ _ => False)
      (Reader.orRecover (Reader.statement fuel) (.start (u.all ++ [⟨.endOfFile, stop⟩]))) :=
    Reader.orRecover_alike (hc.trans (u.all_append behind)) (u.all_append [⟨.endOfFile, stop⟩])
      hdepth.symm rfl rfl
  have hkeeps := Reader.KeepsDepth.of_makes
    (fun c => Reader.makes_orRecover ((Reader.makesStmts fuel).statement c)) c
  rw [halone] at halike
  cases hread : Reader.orRecover (Reader.statement fuel) c with
  | done s d =>
    rw [hread] at halike hkeeps
    obtain ⟨verdict, hjudged⟩ := halike
    have hverdict : (u.alone stop).complaints = verdict :=
      (hcomplaints hjudged.rest').trans hjudged.made'
    exact ⟨hverdict ▸ hjudged.blames, s, d, rfl, hjudged.rest, hkeeps.trans hdepth,
      hverdict ▸ hjudged.made⟩
  | failed d =>
    rw [hread] at halike
    exact halike.elim
  | exhausted =>
    rw [hread] at halike
    exact halike.elim

/-- The induction is on the chunks. It stops where no more complaints are taken, and so does the
script. -/
theorem exists_script (stop stop' : Span) (chunks : List Chunk) {fuel : Nat} {c : Cursor}
    (hc : c.rest = chunks.flatMap all ++ [⟨.endOfFile, stop⟩]) (hfuel : readingFuel c.rest ≤ fuel)
    (hroom : c.complaints.length ≤ maxErrors) (hdepth : c.depth = 0) :
    ∃ body d, Reader.script fuel c = .done body d ∧
      d.complaints = (c.complaints ++
        chunks.flatMap fun u => (u.alone stop').complaints).take maxErrors := by
  induction chunks generalizing fuel c with
  | nil =>
    cases fuel with
    | zero => exact absurd hfuel (by simp [readingFuel])
    | succ fuel =>
      have hend : c.kind = .endOfFile := by rw [Cursor.kind, hc]; rfl
      exact ⟨[], c, Reader.script_ended hend, by simp [List.take_of_length_le hroom]⟩
  | cons u chunks ih =>
    cases fuel with
    | zero => exact absurd hfuel (by simp [readingFuel])
    | succ fuel =>
      by_cases hfull : c.isFull
      · have hlength : c.complaints.length = maxErrors :=
          Nat.le_antisymm hroom (of_decide_eq_true hfull)
        exact ⟨[], c, Reader.script_full hfull, by rw [← hlength, List.take_left]⟩
      · have hroom : c.complaints.length < maxErrors := by simpa [Cursor.isFull] using hfull
        rw [List.flatMap_cons, List.append_assoc] at hc
        have hlength : c.rest.length = u.tokens.length + 1 +
            (chunks.flatMap all ++ [Token.mk .endOfFile stop]).length := by
          rw [hc, List.length_append, all, List.length_append, List.length_singleton]
        have hmore : 0 < (chunks.flatMap all ++ [Token.mk .endOfFile stop]).length := by simp
        unfold readingFuel at hfuel
        have hbound : readingFuel (u.all ++ [⟨.endOfFile, stop'⟩]) ≤ fuel + 1 := by
          simp only [readingFuel, all, List.length_append, List.length_singleton]
          omega
        obtain ⟨hblames, s, d, hread, hrest, hd, hcomplaints⟩ :=
          u.exists_among stop' hc hroom hdepth hbound
        have hverdict : (u.alone stop').complaints.length ≤ 1 := by
          rcases hblames with hnil | ⟨fault, t, -, hone⟩
          · simp [hnil]
          · simp [hone]
        have hfuel' : readingFuel d.rest ≤ fuel := by
          rw [readingFuel, hrest]
          omega
        have hroom' : d.complaints.length ≤ maxErrors := by
          rw [hcomplaints, List.length_append]
          omega
        obtain ⟨body, e, hscript, he⟩ := ih hrest hfuel' hroom' hd
        refine ⟨s.toList ++ body, e, ?_, ?_⟩
        · rw [Reader.script_chunk u (hc.trans (u.all_append _)) (by simpa using hfull),
            Reader.bind_apply, hread]
          dsimp only
          rw [Reader.bind_apply, hscript]
          rfl
        · rw [he, hcomplaints, List.append_assoc, List.flatMap_cons]

end Chunk

/-- Recovery is compositional. A chunk as a script of its own is accepted, or rejected with one
complaint about one of its tokens. A script of chunks is complained about for the chunks that are
rejected, with the complaints that they have on their own and in their order, up to the limit, and
for nothing else. -/
theorem recovery_compositional (stop stop' : Span) :
    (∀ u : Chunk, (u.alone stop').program.isSome ∧ (u.alone stop').complaints = [] ∨
      (u.alone stop').program = none ∧
        ∃ fault, ∃ t ∈ u.all, (u.alone stop').complaints = [⟨fault, t.span⟩]) ∧
    ∀ chunks : List Chunk,
      (Program.ofTokens (chunks.flatMap Chunk.all ++ [⟨.endOfFile, stop⟩])).complaints =
        (chunks.flatMap fun u => (u.alone stop').complaints).take maxErrors := by
  refine ⟨fun u => ?_, fun chunks => ?_⟩
  · have hprogram := ofTokens_isSome_iff (u.all ++ [⟨.endOfFile, stop'⟩])
    have hstart : (Cursor.start u.all).rest = u.all ++ [] := (List.append_nil _).symm
    obtain ⟨hblames, -⟩ :=
      u.exists_among stop' hstart (show 0 < maxErrors by decide) rfl (Nat.le_succ _)
    rcases hblames with hnil | ⟨fault, t, ht, hone⟩
    · exact .inl ⟨hprogram.2 hnil, hnil⟩
    · refine .inr ⟨Option.not_isSome_iff_eq_none.1 fun h => ?_, fault, t, ht, hone⟩
      exact absurd (hprogram.1 h) (by rw [← Chunk.alone, hone]; simp)
  · let tokens := chunks.flatMap Chunk.all ++ [⟨.endOfFile, stop⟩]
    obtain ⟨body, d, hread, hcomplaints⟩ := Chunk.exists_script stop stop' chunks
      (c := .start tokens) rfl (Nat.le_refl (readingFuel tokens)) (Nat.zero_le _) rfl
    unfold Program.ofTokens
    dsimp only
    rw [hread]
    exact hcomplaints

/-- The declaration in `var ;`, which has no name, from this column on. -/
def Chunk.unnamed (column : Nat) : Chunk where
  tokens := [⟨.keyword .var, ⟨⟨1, column⟩, ⟨1, column + 2⟩⟩⟩]
  semicolon := ⟨.symbol .semicolon, .point ⟨1, column + 4⟩⟩
  ends := rfl
  inside := by simp
  later := by simp
  first := by simp

/-- The statement in `break;`, from this column on. -/
def Chunk.breaking (column : Nat) : Chunk where
  tokens := [⟨.keyword .break, ⟨⟨1, column⟩, ⟨1, column + 4⟩⟩⟩]
  semicolon := ⟨.symbol .semicolon, .point ⟨1, column + 5⟩⟩
  ends := rfl
  inside := by simp
  later := by simp
  first := by simp

/-- In `var ; break; var ;` both declarations are complained about, at their semicolons. -/
theorem recovery_compositional_unnamed :
    ((Chunk.breaking 7).alone default).complaints = [] ∧
    ((Chunk.unnamed 1).alone default).complaints =
      [⟨.expectedName (.symbol .semicolon), .point ⟨1, 5⟩⟩] ∧
    (Program.ofTokens ([Chunk.unnamed 1, .breaking 7, .unnamed 14].flatMap Chunk.all ++
        [⟨.endOfFile, .point ⟨1, 19⟩⟩])).complaints =
      [⟨.expectedName (.symbol .semicolon), .point ⟨1, 5⟩⟩,
        ⟨.expectedName (.symbol .semicolon), .point ⟨1, 18⟩⟩] := by
  refine ⟨rfl, rfl, ?_⟩
  rw [(recovery_compositional (.point ⟨1, 19⟩) default).2]
  rfl

end ScriptEngine
