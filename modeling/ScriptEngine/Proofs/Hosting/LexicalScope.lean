import ScriptEngine.Proofs.Hosting.History

/-!
Lexical scope across runs. The functions that a set has from earlier runs on it lie in the set, and in
the programs of those runs they are outside of all bodies. So in every run on the set the frames mirror
the text, whether the code is the program's own, in a function from an earlier run, or in one that the
run has declared.
-/
namespace ScriptEngine

namespace Session

variable {s : Session} {on : FrameId} {limit : Nat} {history : List Ran}

/-- One of the runs declared the function, on the set, and this was its program. -/
def Declared (history : List Ran) (on : FrameId) (f : Closure) (source : Program) : Prop :=
  ∃ r ∈ history, r.on = on ∧ r.Declares f ∧ r.program = source

/-- A run of the program on the set, with the functions that the runs before it have declared there. -/
def account (s : Session) (history : List Ran) (on : FrameId) (program : Program) : Account :=
  ⟨s.limit, s.machine, ⟨on, s.globals⟩, program, Declared history on⟩

theorem hasFunction_of_harbours {f : Closure} (h : s.store.Harbours on (.function f)) :
    s.store.HasFunction f := by
  obtain ⟨⟨name, v⟩, hentry, hway⟩ := h
  cases hway with
  | refl => exact Or.inl ⟨on, name, hentry⟩
  | tail _ hlast =>
    obtain ⟨cell, content, -, hcontent, hf⟩ := hlast
    exact Or.inr ⟨cell, content, hcontent, hf⟩

/-- What the history of a session tells of the functions of a set is right, when it has them all. -/
theorem Came.faithful (h : Came limit history s) (hon : s.Holds on)
    (hfunctions : ∀ f, s.store.Harbours on (.function f) → ∃ source, Declared history on f source)
    (hglobals : ∀ id, s.globals = some id → id ≠ on → ∀ f, ¬ s.store.Harbours id (.function f))
    (console : Console) (files : Files) (program : Program) :
    ((s.equipped console files).account history on program).Faithful := by
  obtain ⟨known, hsound, -⟩ := exists_sound h.follows
  refine ⟨hsound.lt_size hon, ?_, fun frame f hframe hf => ?_⟩
  · rintro f source ⟨r, hr, -, hdeclares, -⟩
    exact Nat.lt_of_lt_of_le hdeclares.2 (h.next_le r hr)
  · by_cases hsame : frame = on
    · subst hsame
      have hthere := hasFunction_of_harbours hf
      obtain ⟨source, hsource⟩ := hfunctions f hf
      refine ⟨?_, ⟨source, hsource⟩, ?_⟩
      · obtain ⟨r, hr, hron, hdeclares, -⟩ := hsource
        exact (h.outermost hr hdeclares hthere).1.trans hron
      · rintro source ⟨r, hr, -, hdeclares, rfl⟩
        exact (h.outermost hr hdeclares hthere).2
    · exact absurd hf (hglobals frame (hframe.resolve_left hsame) hsame f)

/-- What the history tells of code in a run is its program, or the program of an earlier run on the set. -/
theorem eq_or_mem_of_writtenIn {program source : Program} {M : Moment}
    (h : (s.account history on program).WrittenIn M source) :
    source = program ∨ ∃ r ∈ history, r.on = on ∧ r.program = source := by
  induction h with
  | own => exact Or.inl rfl
  | found _ _ hf =>
    obtain ⟨r, hr, hron, -, hprogram⟩ := hf
    exact Or.inr ⟨r, hr, hron, hprogram⟩
  | declared _ _ _ _ _ _ ih => exact ih

/-- Scoping is lexical. A session has a history, and in every run on a set whose functions were declared
in runs of this history on the set, with globals that have no functions, the frames mirror the text.
Whatever the run comes to was written somewhere: in its program, or in that of the earlier run on the set
which declared the function that it is in, or in which such a function was declared. Where it was
written there is, on the way up from its scope to the set, one frame for each block, try body, handler
and function body around it. The frame of a call is below the frame that the function was declared in,
whoever calls it. -/
theorem run_mirrors_text (hs : (fresh limit).Follows s) :
    (∃ history, Came limit history s) ∧
    ∀ (history : List Ran) (on : FrameId), Came limit history s → s.Holds on →
      (∀ f, s.store.Harbours on (.function f) → ∃ source, Declared history on f source) →
      (∀ id, s.globals = some id → id ≠ on → ∀ f, ¬ s.store.Harbours id (.function f)) →
      ∀ (console : Console) (files : Files) (program : Program) (M : Moment),
        ((s.equipped console files).outset on program).Reaches s.limit M →
        (∃ source, ((s.equipped console files).account history on program).WrittenIn M source) ∧
        (∀ source, ((s.equipped console files).account history on program).WrittenIn M source →
          (source = program ∨ ∃ r ∈ history, r.on = on ∧ r.program = source) ∧
            ∀ scope c, M.task.place? = some (scope, c) →
              ∃ depth, source.Encloses depth c ∧ M.machine.store.Nested on depth scope) ∧
        ∀ f arguments place N, M.task = .call f arguments place → Enters s.limit M N →
          ∃ frame, N.task = .stmts frame f.definition.body ∧
            N.machine.store.parent? frame = some f.home := by
  refine ⟨exists_came hs, ?_⟩
  intro history on hcame hon hfunctions hglobals console files program M hM
  have hfaithful := hcame.faithful hon hfunctions hglobals console files program
  refine ⟨hfaithful.exists_source hM, fun source hsource => ?_, ?_⟩
  · exact ⟨eq_or_mem_of_writtenIn hsource, hfaithful.mirrors hsource⟩
  · intro f arguments place N hcall hN
    exact parent?_of_activation hcall hN

/-- A function with a block in it. -/
def blockFunction : Closure :=
  ⟨7, ⟨⟨"f", default⟩, [], [.block [.empty default] default], default⟩, 0⟩

def blockProgram : Program := ⟨[blockFunction.definition.declaration], default⟩

/-- A session in which a program has declared the function. -/
def workshop : Session := ((((fresh 1).set "a").2.equipped .silent []).run 0 blockProgram).2

/-- The one run that the session has had. The standard functions have the first numbers. -/
def workshopRan : Ran := ⟨0, blockProgram, 0, 8⟩

def workshopCall : Program := ⟨[.expression (.call ⟨"f", default⟩ [] default) default], default⟩

theorem came_workshop : Came 1 [workshopRan] workshop :=
  (Came.fresh.other (.mention "a") rfl).run blockProgram .silent [] (Or.inl ⟨"a", rfl⟩)

theorem workshop_declared {f : Closure} (hf : workshop.store.Harbours 0 (.function f)) :
    ∃ source, Declared [workshopRan] 0 f source := by
  obtain ⟨entry, hentry, hway⟩ := hf
  have hbindings : workshop.store.bindings 0 = [("f", .function blockFunction)] := rfl
  rw [hbindings] at hentry
  obtain rfl := List.mem_singleton.mp hentry
  rcases Relation.ReflTransGen.cases_head hway with heq | ⟨v, ⟨cell, _, hcell, -, -⟩, -⟩
  · obtain rfl := Value.function.inj heq
    exact ⟨blockProgram, workshopRan, List.mem_singleton_self _, rfl,
      ⟨by decide, by decide⟩, rfl⟩
  · exact absurd hcell (by simp [Value.cell?])

/-- The block runs in a frame under that of the call, which lies under the set. The call is in another
program, but the code is in the one that declared the function, inside its body and the block. -/
theorem run_mirrors_text_workshop :
    Came 1 [workshopRan] workshop ∧ workshop.Holds 0 ∧ workshop.globals = none ∧
      ∃ frame inner M,
        (workshop.outset 0 workshopCall).Reaches 1 M ∧
        M.task = .stmts inner [.empty default] ∧
        M.machine.store.parent? inner = some frame ∧
        M.machine.store.parent? frame = some 0 ∧
        (workshop.account [workshopRan] 0 workshopCall).WrittenIn M blockProgram ∧
        blockProgram.Encloses 2 (.stmts [.empty default]) := by
  have hholds : workshop.Holds 0 := Or.inl ⟨"a", rfl⟩
  have hcall : (workshop.outset 0 workshopCall).Reaches 1
      ⟨.call blockFunction [] default, (workshop.outset 0 workshopCall).machine⟩ :=
    .tail (.tail (.single .first) (.part rfl)) (.call 1 rfl rfl rfl)
  have hbody : Enters 1 ⟨.call blockFunction [] default, (workshop.outset 0 workshopCall).machine⟩ _ :=
    .activation rfl rfl
  have hinner := ((hcall.tail hbody).tail .first).tail .block
  have hwritten : (workshop.account [workshopRan] 0 workshopCall).WrittenIn _ blockProgram :=
    .found hcall ⟨[], default, _, rfl, hbody, .tail (.tail .refl rfl .first) rfl .block⟩
      ⟨workshopRan, List.mem_singleton_self _, rfl, ⟨by decide, by decide⟩, rfl⟩
  have hglobals : ∀ id, workshop.globals = some id → id ≠ 0 →
      ∀ f, ¬ workshop.store.Harbours id (.function f) :=
    fun id hid => absurd hid (by simp [show workshop.globals = none from rfl])
  obtain ⟨-, hruns⟩ := run_mirrors_text came_workshop.follows
  obtain ⟨-, hsources, -⟩ := hruns [workshopRan] 0 came_workshop hholds (fun _ => workshop_declared)
    hglobals workshop.machine.console workshop.machine.files workshopCall _ hinner
  obtain ⟨depth, hencloses, hnested⟩ := (hsources _ hwritten).2 _ _ rfl
  obtain rfl := hnested.unique (.up (by decide) rfl (.up (by decide) rfl .base))
  exact ⟨came_workshop, hholds, rfl, _, _, _, hinner, rfl, rfl, rfl, hwritten, hencloses⟩

end Session

end ScriptEngine
