import ScriptEngine.Proofs.Running.Discipline
import ScriptEngine.Proofs.Running.Raising
import ScriptEngine.Proofs.Running.Rest

/-!
Errors of runs point to where they were raised. A place in an error is that of a node of code that the
run had come to, and all such code is in the program or in functions that were there when the run
began. What is thrown and not caught is told as it was at the statement that threw it.
-/
namespace ScriptEngine

namespace Layers

/-- A function that a run may call, whose code is of this kind. -/
def VisitsKind (layers : Layers) (before : Store) (Kind : Code → Prop) (f : Closure) : Prop :=
  layers.Visits before f.home ∧ Kind (.stmt f.definition.declaration)

theorem visits_of_new (layers : Layers) (before : Store) (id : FrameId)
    (h : before.frames.size ≤ id) : layers.Visits before id :=
  Or.inl h

theorem visitsCell_of_new (layers : Layers) (before : Store) (cell : CellId)
    (h : before.cells.size ≤ cell) : layers.VisitsCell before cell :=
  Or.inl h

/-- What a run comes to when all code is of a kind that parts and bodies have with the whole. -/
def visited (layers : Layers) (before : Store) (Kind : Code → Prop)
    (hpart : ∀ c part, Kind c → c.Part part → Kind part)
    (hopens : ∀ c body, Kind c → c.Opens body → Kind (.stmts body)) : Realm where
  frames := layers.Visits before
  scopes := layers.Visits before
  cells := layers.VisitsCell before
  data := Value.HoldsOnly (layers.VisitsCell before) (layers.VisitsKind before Kind)
  bound := fun _ _ => Value.HoldsOnly (layers.VisitsCell before) (layers.VisitsKind before Kind)
  code := fun scope c => layers.Visits before scope ∧ Kind c
  callable := layers.VisitsKind before Kind
  firstFrame := before.frames.size
  firstCell := before.cells.size
  firstIdentity := 0
  scope_of_new := visits_of_new layers before
  frame_of_scope := le_refl (layers.Visits before)
  cell_of_new := visitsCell_of_new layers before
  data_scalar := fun _ hv => Value.holdsOnly_of_isScalar hv
  data_array := fun _ => Value.holdsOnly_array
  data_struct := fun _ => Value.holdsOnly_struct
  bound_of_new := fun _ _ _ _ hv => hv
  bound_again := fun _ _ _ _ _ hv => hv
  data_of_bound := fun _ _ _ hv _ => hv
  callable_of_bound := fun _ _ f _ hf => hf.2 f rfl
  scope_of_callable := fun _ h => h.1
  code_of_callable := fun _ _ h hnew => ⟨Or.inl hnew, hopens _ _ h.2 .function⟩
  scope_of_code := fun _ _ h => h.1
  code_of_part := fun _ _ _ h hc => ⟨h.1, hpart _ _ h.2 hc⟩
  code_of_opens := fun _ _ _ _ h hc hnew => ⟨Or.inl hnew, hopens _ _ h.2 hc⟩
  bound_of_declare := fun _ _ _ _ _ _ hv => hv
  bound_of_function := fun _ _ _ _ _ _ h _ => Value.holdsOnly_function.mpr h

theorem visitsKind_of_finds {layers : Layers} {before : Store} {Kind : Code → Prop}
    (hfunctions : ∀ f, layers.Finds before (.value (.function f)) →
      Kind (.stmt f.definition.declaration))
    {v : Value} (hv : layers.Finds before (.value v)) :
    v.HoldsOnly (layers.VisitsCell before) (layers.VisitsKind before Kind) := by
  refine ⟨fun cell hcell => Or.inr ⟨v, hv, hcell⟩, ?_⟩
  rintro f rfl
  exact ⟨Or.inr (hv.tail .home), hfunctions f hv⟩

end Layers

namespace Machine

variable {m : Machine} {layers : Layers} {Kind : Code → Prop}
  {hpart : ∀ c part, Kind c → c.Part part → Kind part}
  {hopens : ∀ c body, Kind c → c.Opens body → Kind (.stmts body)}

theorem visited_holds_begin
    (hfunctions : ∀ f, layers.Finds m.store (.value (.function f)) →
      Kind (.stmt f.definition.declaration)) :
    (layers.visited m.store Kind hpart hopens).Holds (m.begin layers).2.store := by
  refine ⟨?_, fun id parent hid hparent => visits_parent_begin hid hparent, ?_, ?_, ?_,
    Nat.zero_le _⟩
  · intro id hid entry hentry
    rcases mem_bindings_begin hentry with hentry | ⟨f, hf⟩
    · rcases hid with hid | hid
      · rw [Store.bindings_eq_nil hid] at hentry
        exact absurd hentry (by simp)
      · exact Layers.visitsKind_of_finds hfunctions (hid.tail (.binding hentry))
    · rw [hf]
      exact Value.holdsOnly_native f
  · intro cell content hcell hcontent v hv
    rw [cells_begin] at hcontent
    rcases hcell with hcell | ⟨u, hu, hucell⟩
    · rw [Array.getElem?_eq_none hcell] at hcontent
      exact absurd hcontent (by simp)
    · refine Layers.visitsKind_of_finds hfunctions (hu.tail (.content ?_))
      exact ⟨cell, content, hucell, hcontent, hv⟩
  · show m.store.frames.size ≤ _
    rw [size_begin]
    omega
  · exact Nat.le_of_eq (congrArg Array.size (cells_begin layers m)).symm

/-- Code that a run comes to is of a kind that the code of the program is of, and that of the functions
that are there when the run begins. -/
theorem in_visited_of_reaches {limit : Nat} {program : Program} {N : Moment}
    (hfunctions : ∀ f, layers.Finds m.store (.value (.function f)) →
      Kind (.stmt f.definition.declaration))
    (hprogram : Kind (.stmts program.body)) (hN : (m.outset layers program).Reaches limit N) :
    N.task.In (layers.visited m.store Kind hpart hopens) :=
  (reaches_keeps hN (visited_holds_begin hfunctions)
    ⟨Or.inr ⟨layers.bindings, Or.inl rfl, .refl⟩, hprogram⟩).2

/-! Places of nodes -/

/-- The span is that of a node of the program, or of a function that a run of it may come to. -/
def KnowsNode (m : Machine) (layers : Layers) (program : Program) (span : Span) : Prop :=
  program.outline.HasNode span ∨
    ∃ f, layers.Finds m.store (.value (.function f)) ∧ f.definition.HasNode span

variable {limit fuel : Nat} {program : Program} {N : Moment}

/-- A run comes only to code of which it may know the nodes. -/
theorem knowsNode_of_reaches (hN : (m.outset layers program).Reaches limit N) {scope : FrameId}
    {c : Code} (hplace : N.task.place? = some (scope, c)) {span : Span} (hspan : c.HasNode span) :
    m.KnowsNode layers program span := by
  have hin : N.task.In (layers.visited m.store
      (fun c => ∀ span, c.HasNode span → m.KnowsNode layers program span)
      (fun c part h hc span hspan => h span (hc.hasNode hspan))
      (fun c body h hc span hspan => h span (hc.hasNode hspan))) :=
    in_visited_of_reaches (fun f hf span hspan => Or.inr ⟨f, hf, hspan⟩)
      (fun span ⟨s, hs, hspan⟩ => Or.inl (.part (Stmt.outline_mem_bodyParts hs) hspan)) hN
  obtain ⟨task, n⟩ := N
  cases task with
  | call => cases hplace
  | native => cases hplace
  | _ =>
    obtain ⟨rfl, rfl⟩ := Prod.mk.inj (Option.some.inj hplace)
    exact hin.2 span hspan

/-- A call is where the expression is that it is evaluated for. -/
theorem knowsNode_of_call (hN : (m.outset layers program).Reaches limit N) {place : Span}
    (hcall : (∃ f arguments, N.task = .call f arguments place) ∨
      ∃ f arguments, N.task = .native f arguments place) : m.KnowsNode layers program place := by
  rcases Relation.ReflTransGen.cases_tail hN with heq | ⟨L, hL, henters⟩
  · subst heq
    rcases hcall with ⟨f, arguments, h⟩ | ⟨f, arguments, h⟩
    · cases h
    · cases h
  · rcases hcall with ⟨f, arguments, h⟩ | ⟨f, arguments, h⟩
    all_goals
      obtain ⟨task, n⟩ := N
      obtain rfl : task = _ := h
      cases henters
      exact knowsNode_of_reaches hL rfl (c := .expr _) .whole

theorem knowsNode_of_mem_spans (hN : (m.outset layers program).Reaches limit N) {span : Span}
    (hspan : span ∈ N.task.spans) : m.KnowsNode layers program span := by
  obtain ⟨task, n⟩ := N
  cases task with
  | expr scope e =>
    rcases List.mem_cons.1 hspan with rfl | hspan
    · exact knowsNode_of_reaches hN rfl (c := .expr e) .whole
    · obtain ⟨name, hname, rfl⟩ := List.mem_map.1 hspan
      exact knowsNode_of_reaches hN rfl (c := .expr e) (Expr.hasNode_of_mem_names hname)
  | call f arguments place =>
    obtain rfl := List.mem_singleton.1 hspan
    exact knowsNode_of_call hN (Or.inl ⟨f, arguments, rfl⟩)
  | native f arguments place =>
    obtain rfl := List.mem_singleton.1 hspan
    exact knowsNode_of_call hN (Or.inr ⟨f, arguments, rfl⟩)
  | stmt scope s =>
    obtain ⟨name, hname, rfl⟩ := List.mem_map.1 hspan
    exact knowsNode_of_reaches hN rfl (c := .stmt s) (Stmt.hasNode_of_mem_names hname)
  | stmts scope body => cases hspan

theorem knowsNode_of_raises (hN : (m.outset layers program).Reaches limit N) {i : Interruption}
    {k : Machine} (h : N.Raises limit i k) : m.KnowsNode layers program i.place := by
  cases h with
  | fault hplace => exact knowsNode_of_mem_spans hN hplace
  | jump => exact knowsNode_of_reaches hN rfl (c := .stmt _) .whole
  | transfer => exact knowsNode_of_reaches hN rfl (c := .stmt _) .whole

end Machine

namespace Eval

variable {α : Type} {limit fuel : Nat} {m : Machine} {i : Interruption} {n : Machine}

theorem Prolonged.broken? {x y : Eval α} (h : x.Prolonged y) (hx : (x m).broken? = some (i, n)) :
    (y m).broken? = some (i, n) := by
  have hout := h.outcome m
  generalize x m = first, y m = second at hout hx
  cases hout with
  | same => exact hx
  | further => cases hx

/-- What breaks off a script breaks off its statements in turn, with enough fuel. -/
theorem brokenOff_of_script {scope : FrameId} {body : List Stmt} :
    ∀ {last : Value} {m : Machine}, (script limit fuel scope last body m).broken? = some (i, n) →
      ∃ fuel', (stmts limit fuel' scope body m).broken? = some (i, n) := by
  induction body with
  | nil =>
    intro last m h
    cases h
  | cons s rest ih =>
    -- The first statement is broken off, or it is done and something behind it is.
    have hcons : ∀ {m : Machine} (fuel' : Nat),
        ((stmt limit fuel' scope s m).broken? = some (i, n) ∨ ∃ k last,
          stmt limit fuel' scope s m = .done () k ∧
            (script limit fuel scope last rest k).broken? = some (i, n)) →
        ∃ fuel'', (stmts limit fuel'' scope (s :: rest) m).broken? = some (i, n) := by
      intro m fuel' h
      rcases h with h | ⟨k, last, hfirst, h⟩
      · refine ⟨fuel' + 1, ?_⟩
        rw [stmts, bind_apply]
        cases hfirst : stmt limit fuel' scope s m with
        | done a k => rw [hfirst] at h; cases h
        | _ => rw [hfirst] at h; exact h
      · obtain ⟨fuel'', hrest⟩ := ih h
        have hstmt := ((longer limit (Nat.le_max_left fuel' fuel'')).stmt scope s).eq hfirst
          (fun _ h => by cases h)
        refine ⟨max fuel' fuel'' + 1, ?_⟩
        rw [stmts, bind_apply, hstmt]
        exact ((longer limit (Nat.le_max_right fuel' fuel'')).stmts scope rest).broken? hrest
    intro last m h
    cases s with
    | expression e span =>
      refine hcons (fuel + 1) ?_
      rw [stmt, bind_apply]
      rcases broken?_bind h with h | ⟨v, k, hv, h⟩
      · refine .inl ?_
        cases hv : expr limit fuel scope e m with
        | done v k => rw [hv] at h; cases h
        | _ => rw [hv] at h; exact h
      · rw [hv]
        exact .inr ⟨k, v, rfl, h⟩
    | _ =>
      refine hcons fuel ?_
      rcases broken?_bind h with h | ⟨_, k, hk, h⟩
      · exact .inl h
      · exact .inr ⟨k, .null, hk, h⟩

end Eval

namespace Machine

/-- The error is what the host is told about something that was raised at a moment of the run: it points
to a node that the run knew, and everything around the moment was broken off by the same. An uncaught
throw is told with the text that the value had when it was thrown. -/
structure Located (limit : Nat) (layers : Layers) (program : Program) (m : Machine) (e : ScriptError)
    (i : Interruption) (N : Moment) (k : Machine) : Prop where
  span : e.span = some i.place
  kind : e.kind ≠ .malformed
  sourceLine : e.sourceLine = none
  node : m.KnowsNode layers program i.place
  way : Relation.ReflTransGen (Moment.Hands limit i) (m.outset layers program) N
  raised : N.Raises limit i k
  thrown : e.kind = .userThrow → ∃ scope value v fuel,
    N.task = .stmt scope (.transfer .throw value i.place) ∧
      Eval.optional limit fuel scope value N.machine = .done v k ∧
      i = .signal (.transfer .throw v i.place) ∧ e.message = v.text k.store

/-- What the host is told about something that breaks a program off. -/
theorem conclude_eq_error {outcome : Outcome Value} {e : ScriptError}
    (h : (conclude outcome).1 = .error e) :
    ∃ i n fault, outcome.broken? = some (i, n) ∧ e = fault.toError i.place ∧
      ((∃ place, i = .fault fault place) ∨
        (∃ s, i = .signal s ∧ fault = .misplaced s.keyword) ∨
        ∃ v place, i = .signal (.transfer .throw v place) ∧
          fault = .uncaughtThrow (v.text n.store)) := by
  cases outcome with
  | done v n => cases h
  | exhausted n => cases h
  | failed fault place n =>
    obtain rfl := Ending.error.inj h
    exact ⟨_, n, fault, rfl, rfl, .inl ⟨place, rfl⟩⟩
  | signalled s n =>
    cases s with
    | jump j place =>
      obtain rfl := Ending.error.inj h
      exact ⟨_, n, _, rfl, rfl, .inr (.inl ⟨_, rfl, rfl⟩)⟩
    | transfer kind v place =>
      cases kind with
      | exit => cases h
      | «return» =>
        obtain rfl := Ending.error.inj h
        exact ⟨_, n, _, rfl, rfl, .inr (.inl ⟨_, rfl, rfl⟩)⟩
      | throw =>
        obtain rfl := Ending.error.inj h
        exact ⟨_, n, _, rfl, rfl, .inr (.inr ⟨v, place, rfl, rfl⟩)⟩

end Machine

/-- Every error of a run is located: it was raised at a moment of the run, and from there on nothing
caught it, changed it or lost its place. -/
theorem run_located {limit fuel : Nat} {layers : Layers} {program : Program} {m : Machine}
    {e : ScriptError} (h : (m.run limit fuel layers program).1 = .error e) :
    ∃ i N k, Machine.Located limit layers program m e i N k := by
  have h : (Machine.conclude (Eval.script limit fuel layers.bindings .null program.body
    (m.begin layers).2)).1 = .error e := h
  obtain ⟨i, n, fault, hbroken, rfl, hfault⟩ := Machine.conclude_eq_error h
  obtain ⟨fuel', hstmts⟩ := Eval.brokenOff_of_script hbroken
  have hoff : (m.outset layers program).BrokenOff limit fuel' i n :=
    (Eval.broken?_task _ _).trans hstmts
  obtain ⟨N, k, hway, hraised, hunwound⟩ := hoff.raised
  have hnode := Machine.knowsNode_of_raises (Moment.reaches_of_hands hway) hraised
  refine ⟨i, N, k, rfl, ?_, rfl, hnode, hway, hraised, ?_⟩
  · cases fault <;> simp [RuntimeFault.toError, ScriptError.located, RuntimeFault.kind]
  · intro hkind
    rcases hfault with ⟨place, rfl⟩ | ⟨s, rfl, rfl⟩ | ⟨v, place, rfl, rfl⟩
    · cases hraised with
      | fault _ hne => exact absurd hkind hne
    · cases hkind
    · cases hraised with
      | transfer fuel hvalue =>
        refine ⟨_, _, v, fuel, rfl, hvalue, rfl, ?_⟩
        exact Value.text_of_cells hunwound.cells v

/-- The error that a run ends in, if it does. -/
def Ending.error? : Ending → Option ScriptError
  | error e => some e
  | _ => none

theorem Ending.eq_error_of_error? {ending : Ending} {e : ScriptError} (h : ending.error? = some e) :
    ending = .error e := by
  cases ending with
  | error e' => exact congrArg error (Option.some.inj h)
  | _ => cases h

/-- A function throws through a call, and a handler throws again what it has caught. -/
def rethrowing : Program :=
  ⟨[.function ⟨"f", default⟩ []
      [.transfer .throw (some (.literal (.string "x") default)) ⟨⟨1, 16⟩, ⟨1, 25⟩⟩] default,
    .attempt [.expression (.call ⟨"f", default⟩ [] default) default] default (some ⟨"e", default⟩)
      [.transfer .throw (some (.variable ⟨"e", default⟩)) ⟨⟨2, 25⟩, ⟨2, 32⟩⟩] default default],
    default⟩

theorem run_located_rethrowing :
    ∃ e, (Machine.lone.run 5 20 ⟨0, none⟩ rethrowing).1 = .error e ∧ e.kind = .userThrow ∧
      e.message = "x" ∧ e.span = some ⟨⟨2, 25⟩, ⟨2, 32⟩⟩ ∧
      ∃ i N k, Machine.Located 5 ⟨0, none⟩ rethrowing Machine.lone e i N k := by
  have hrun : (Machine.lone.run 5 20 ⟨0, none⟩ rethrowing).1 =
      .error ((RuntimeFault.uncaughtThrow "x").toError ⟨⟨2, 25⟩, ⟨2, 32⟩⟩) :=
    Ending.eq_error_of_error? (by decide +kernel)
  exact ⟨_, hrun, rfl, rfl, rfl, run_located hrun⟩

end ScriptEngine
