import ScriptEngine.Proofs.Running.FailedCalls
import ScriptEngine.Proofs.Running.Layers
import ScriptEngine.Proofs.Running.Placement
import ScriptEngine.Proofs.Running.Supply

/-!
No signal gets where it does not belong. When the jumps and returns of a program are well placed, and
those of all functions that it may come to, then no run of the program fails for an illegal signal.
-/
namespace ScriptEngine

namespace Layers

variable {layers : Layers} {before : Store}

/-- The frame is one that a run may come to, or one that the run makes. -/
def Visits (layers : Layers) (before : Store) (id : FrameId) : Prop :=
  before.frames.size ≤ id ∨ layers.Finds before (.frame id)

def VisitsCell (layers : Layers) (before : Store) (cell : CellId) : Prop :=
  before.cells.size ≤ cell ∨ ∃ v, layers.Finds before (.value v) ∧ v.cell? = some cell

/-- A function that a run may call: its jumps and returns are well placed. -/
def VisitsFunction (layers : Layers) (before : Store) (f : Closure) : Prop :=
  layers.Visits before f.home ∧ f.definition.wellPlaced

/-- What a run comes to when everything in it is well placed. -/
def disciplined (layers : Layers) (before : Store) : Realm where
  frames := layers.Visits before
  scopes := layers.Visits before
  cells := layers.VisitsCell before
  data := Value.HoldsOnly (layers.VisitsCell before) (layers.VisitsFunction before)
  bound := fun _ _ => Value.HoldsOnly (layers.VisitsCell before) (layers.VisitsFunction before)
  code := fun scope c => layers.Visits before scope ∧ ∃ around, c.wellPlaced around
  callable := layers.VisitsFunction before
  firstFrame := before.frames.size
  firstCell := before.cells.size
  firstIdentity := 0
  scope_of_new := fun _ h => Or.inl h
  frame_of_scope := fun _ h => h
  cell_of_new := fun _ h => Or.inl h
  data_scalar := fun _ hv => Value.holdsOnly_of_isScalar hv
  data_array := fun _ => Value.holdsOnly_array
  data_struct := fun _ => Value.holdsOnly_struct
  bound_of_new := fun _ _ _ _ hv => hv
  bound_again := fun _ _ _ _ _ hv => hv
  data_of_bound := fun _ _ _ hv _ => hv
  callable_of_bound := fun _ _ f _ hf => hf.2 f rfl
  scope_of_callable := fun _ h => h.1
  code_of_callable := fun _ _ h hnew => ⟨Or.inl hnew, .ofFunction, h.2⟩
  scope_of_code := fun _ _ h => h.1
  code_of_part := fun _ _ _ h hpart => ⟨h.1, hpart.wellPlaced h.2.choose_spec⟩
  code_of_opens := fun _ _ _ _ h hopens hnew => ⟨Or.inl hnew, hopens.wellPlaced h.2.choose_spec⟩
  bound_of_declare := fun _ _ _ _ _ _ hv => hv
  bound_of_function := by
    rintro scope name params body span identity ⟨hscope, around, hbody⟩ -
    exact Value.holdsOnly_function.mpr ⟨hscope, hbody⟩

theorem visitsValue_of_finds
    (hfunctions : ∀ f, layers.Finds before (.value (.function f)) → f.definition.wellPlaced)
    {v : Value} (hv : layers.Finds before (.value v)) :
    v.HoldsOnly (layers.VisitsCell before) (layers.VisitsFunction before) := by
  refine ⟨fun cell hcell => Or.inr ⟨v, hv, hcell⟩, ?_⟩
  rintro f rfl
  exact ⟨Or.inr (hv.tail .home), hfunctions f hv⟩

end Layers

namespace Machine

variable {m : Machine} {layers : Layers}

theorem visits_parent_begin {id parent : FrameId} (hid : layers.Visits m.store id)
    (hparent : (m.begin layers).2.store.parent? id = some parent) :
    layers.Visits m.store parent := by
  rcases parent?_begin hparent with rfl | hupper | ⟨-, -, hparent⟩
  · exact Or.inl (Nat.le_refl _)
  · exact Or.inr ⟨parent, Or.inr (Layers.globals_of_upper? hupper), .refl⟩
  · rcases hid with hid | hid
    · rw [Store.parent?, Store.frame?_eq_none hid] at hparent
      exact absurd hparent (by simp)
    · exact Or.inr (hid.tail (.above hparent))

theorem disciplined_holds_begin
    (hfunctions : ∀ f, layers.Finds m.store (.value (.function f)) → f.definition.wellPlaced) :
    (layers.disciplined m.store).Holds (m.begin layers).2.store := by
  refine ⟨?_, fun id parent hid hparent => visits_parent_begin hid hparent, ?_, ?_, ?_,
    Nat.zero_le _⟩
  · intro id hid entry hentry
    rcases mem_bindings_begin hentry with hentry | ⟨f, hf⟩
    · rcases hid with hid | hid
      · rw [Store.bindings_eq_nil hid] at hentry
        exact absurd hentry (by simp)
      · exact Layers.visitsValue_of_finds hfunctions (hid.tail (.binding hentry))
    · rw [hf]
      exact Value.holdsOnly_native f
  · intro cell content hcell hcontent v hv
    rw [cells_begin] at hcontent
    rcases hcell with hcell | ⟨u, hu, hucell⟩
    · rw [Array.getElem?_eq_none hcell] at hcontent
      exact absurd hcontent (by simp)
    · refine Layers.visitsValue_of_finds hfunctions (hu.tail (.content ?_))
      exact ⟨cell, content, hucell, hcontent, hv⟩
  · show m.store.frames.size ≤ _
    rw [size_begin]
    omega
  · exact Nat.le_of_eq (congrArg Array.size (cells_begin layers m)).symm

end Machine

/-- When the body of the function that is called is well placed the call does not fail for an illegal
signal. -/
theorem Moment.FailsAt.not_misplaced {limit : Nat} {keyword : String} {place : Span} {M : Moment}
    (h : M.FailsAt limit (.misplaced keyword) place)
    (hplaced : ∀ f arguments place, M.task = .call f arguments place → f.definition.wellPlaced) :
    False := by
  cases h with
  | refused hcheck =>
    unfold Eval.checkCall at hcheck
    split at hcheck
    · exact absurd (Outcome.failed.inj hcheck).1 (by simp)
    · split at hcheck
      · exact absurd hcheck (by simp)
      · exact absurd (Outcome.failed.inj hcheck).1 (by simp)
  | left fuel hcheck hbind hbody hfault =>
    have hfits := (Eval.discipline limit fuel).stmts _ _ (hplaced _ _ _ rfl) _ _ _ hbody
    exact absurd hfits (by simp [Signal.Fits, Surroundings.ofFunction])

theorem script_ne_misplaced {limit fuel : Nat} {layers : Layers} {program : Program} {m : Machine}
    (hprogram : program.wellPlaced)
    (hfunctions : ∀ f, layers.Finds m.store (.value (.function f)) → f.definition.wellPlaced)
    {keyword : String} {place : Span} {m' : Machine} :
    Eval.script limit fuel layers.bindings .null program.body (m.begin layers).2 ≠
      .failed (.misplaced keyword) place m' := by
  intro hfail
  obtain ⟨N, hN, hfails⟩ := Eval.blames_script limit fuel _ _ _ _ _ _ _ hfail rfl
  have hcode : (layers.disciplined m.store).code layers.bindings (.stmts program.body) :=
    ⟨Or.inr ⟨layers.bindings, Or.inl rfl, .refl⟩, .outermost, hprogram⟩
  obtain ⟨-, hin⟩ := reaches_keeps (R := layers.disciplined m.store) hN
    (Machine.disciplined_holds_begin hfunctions) hcode
  refine hfails.not_misplaced fun f arguments place htask => ?_
  rw [htask] at hin
  exact hin.1.2

/-- Signals keep their discipline. A program in which each jump is in the body of a loop of the same
function body, and each return in the body of a function, never fails for an illegal signal when the
same is so of every function that it may come to: those that are bound in the layers, those in arrays
and structs, and those that such a function finds from where it was declared. Whatever the code is,
only throws and exits come out of an expression. -/
theorem run_ne_illegalSignal (limit : Nat) :
    (∀ (layers : Layers) (program : Program) (m : Machine), program.wellPlaced →
      (∀ f, layers.Finds m.store (.value (.function f)) → f.definition.wellPlaced) →
      ∀ fuel e, (m.run limit fuel layers program).1 = .error e → e.kind ≠ .illegalSignal) ∧
    ∀ fuel scope e m s m', Eval.expr limit fuel scope e m = .signalled s m' →
      ∃ kind v place, s = .transfer kind v place ∧ (kind = .throw ∨ kind = .exit) := by
  constructor
  · intro layers program m hprogram hfunctions fuel e he
    have he : (Machine.conclude (Eval.script limit fuel layers.bindings .null program.body
      (m.begin layers).2)).1 = .error e := he
    cases hout : Eval.script limit fuel layers.bindings .null program.body (m.begin layers).2 with
    | done v m' =>
      rw [hout] at he
      exact absurd he (by simp [Machine.conclude])
    | signalled s m' =>
      have hfits := Eval.signals_script limit fuel _ _ hprogram _ _ s m' hout
      rw [hout] at he
      cases s with
      | jump j place => exact absurd hfits (by simp [Signal.Fits, Surroundings.outermost])
      | transfer kind v place =>
        cases kind with
        | «return» => exact absurd hfits (by simp [Signal.Fits, Surroundings.outermost])
        | exit => exact absurd he (by simp [Machine.conclude])
        | throw =>
          obtain rfl := Ending.error.inj he
          simp [RuntimeFault.toError, RuntimeFault.kind, ScriptError.located]
    | failed fault place m' =>
      rw [hout] at he
      obtain rfl := Ending.error.inj he
      cases fault with
      | misplaced keyword => exact absurd hout (script_ne_misplaced hprogram hfunctions)
      | _ => simp [RuntimeFault.toError, RuntimeFault.kind, ScriptError.located]
    | exhausted m' =>
      rw [hout] at he
      exact absurd he (by simp [Machine.conclude])
  · intro fuel scope e m s m' hs
    have hsignals : (Eval.expr limit fuel scope e).Signals .outermost :=
      (Eval.discipline limit fuel).expr scope e
    have hfits := hsignals m s m' hs
    cases s with
    | jump j place => exact absurd hfits (by simp [Signal.Fits, Surroundings.outermost])
    | transfer kind v place =>
      refine ⟨kind, v, place, rfl, ?_⟩
      cases kind with
      | «return» => exact absurd hfits (by simp [Signal.Fits, Surroundings.outermost])
      | exit => exact Or.inr rfl
      | throw => exact Or.inl rfl

/-- A set with a function that returns out of a loop. -/
def searchFunction : Closure :=
  ⟨0, ⟨⟨"f", default⟩, [], [.loop (.literal (.boolean true) default)
    (.block [.transfer .return none default] default) default], default⟩, 0⟩

def searchMachine : Machine :=
  { Machine.start with store := ⟨#[some ⟨[("f", .function searchFunction)], none, 1⟩], #[], 1⟩ }

/-- It calls the function in a loop, leaves the loop and throws. -/
def searchProgram : Program :=
  ⟨[.loop (.literal (.boolean true) default)
      (.block [.expression (.call ⟨"f", default⟩ [] default) default, .jump .break default] default)
      default,
    .transfer .throw (some (.literal (.integer 1) default)) default], default⟩

theorem searchMachine_finds {node : Node} (h : Layers.Finds ⟨0, none⟩ searchMachine.store node) :
    node = .frame 0 ∨ node = .value (.function searchFunction) := by
  obtain ⟨id, hid, hway⟩ := h
  obtain rfl : id = 0 := by simpa using hid
  induction hway with
  | refl => exact Or.inl rfl
  | tail _ hlast ih =>
    rcases ih with rfl | rfl
    · cases hlast with
      | binding hentry =>
        have hentry : _ ∈ [("f", Value.function searchFunction)] := hentry
        obtain ⟨-, rfl⟩ := Prod.mk.inj (List.mem_singleton.mp hentry)
        exact Or.inr rfl
      | above hparent => cases hparent
    · cases hlast with
      | content hcontent =>
        obtain ⟨cell, content, hcell, -, -⟩ := hcontent
        exact absurd hcell (by simp [Value.cell?])
      | home => exact Or.inl rfl

theorem run_ne_illegalSignal_search :
    searchProgram.wellPlaced ∧
      ∃ e, (searchMachine.run 5 20 ⟨0, none⟩ searchProgram).1 = .error e ∧
        e.kind ≠ .illegalSignal := by
  have hrun : (searchMachine.run 5 20 ⟨0, none⟩ searchProgram).1 =
      .error ((RuntimeFault.uncaughtThrow "1").toError default) := rfl
  refine ⟨rfl, _, hrun, ?_⟩
  refine (run_ne_illegalSignal 5).1 ⟨0, none⟩ searchProgram searchMachine rfl ?_ 20 _ hrun
  intro f hf
  rcases searchMachine_finds hf with hf | hf
  · exact absurd hf (by simp)
  · obtain rfl := Value.function.inj (Node.value.inj hf)
    rfl

/-- A function that was declared in another set than the one it is bound in, and calls a function that
was declared there and has a stray jump. -/
def strayCaller : Closure :=
  ⟨1, ⟨⟨"f", default⟩, [], [.expression (.call ⟨"g", default⟩ [] default) default], default⟩, 1⟩

def strayMachine : Machine :=
  { Machine.start with store := ⟨#[some ⟨[("f", .function strayCaller)], none, 1⟩,
      some ⟨[("g", .function ⟨0, ⟨⟨"g", default⟩, [], [.jump .break default], default⟩, 1⟩),
        ("f", .function strayCaller)], none, 1⟩], #[], 2⟩ }

/-- It is not enough that the functions are well placed that are bound in the layers: they may call
others that were declared in other sets. -/
theorem not_run_ne_illegalSignal_of_harbours :
    ¬ ∀ (limit fuel : Nat) (layers : Layers) (program : Program) (m : Machine),
      program.wellPlaced →
      (∀ id f, (id = layers.bindings ∨ layers.globals = some id) → m.store.Harbours id (.function f) →
        f.definition.wellPlaced) →
      ∀ e, (m.run limit fuel layers program).1 = .error e → e.kind ≠ .illegalSignal := by
  intro h
  have hrun : (strayMachine.run 5 20 ⟨0, none⟩
      ⟨[.expression (.call ⟨"f", default⟩ [] default) default], default⟩).1 =
        .error ((RuntimeFault.misplaced "break").toError default) := rfl
  refine h 5 20 ⟨0, none⟩ _ strayMachine rfl ?_ _ hrun rfl
  rintro id f hid ⟨entry, hentry, hway⟩
  obtain rfl : id = 0 := by simpa using hid
  have hentry : entry ∈ [("f", Value.function strayCaller)] := hentry
  obtain rfl := List.mem_singleton.mp hentry
  rcases Relation.ReflTransGen.cases_head hway with heq | ⟨v, ⟨cell, _, hcell, -, -⟩, -⟩
  · obtain rfl := Value.function.inj heq
    rfl
  · exact absurd hcell (by simp [Value.cell?])

end ScriptEngine
