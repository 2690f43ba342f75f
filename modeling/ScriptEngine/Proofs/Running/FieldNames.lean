import ScriptEngine.Proofs.Running.Aggregates
import ScriptEngine.Proofs.Running.Composition
import ScriptEngine.Proofs.Running.Course

/-!
The names of fields. A struct that a script makes gets a field for each name, however often the name is
given, and an assignment takes no name away and adds none. So when no struct has two fields of one name,
runs do not make one that has. The induction is on the fuel, for all evaluations together.
-/
namespace ScriptEngine

namespace Store

/-- No struct has two fields of one name. -/
def Distinct (σ : Store) : Prop := ∀ cell, (σ.fields cell).names.Nodup

variable {σ σ' : Store}

theorem distinct_empty : Store.empty.Distinct := fun _ => List.nodup_nil

theorem Distinct.of_cells (h : σ.Distinct) (hcells : σ'.cells = σ.cells) : σ'.Distinct := by
  intro cell
  unfold fields
  rw [hcells]
  exact h cell

theorem Distinct.addCell (h : σ.Distinct) {content : Cell}
    (hcontent : ∀ fields, content = .struct fields → fields.names.Nodup) :
    (σ.addCell content).2.Distinct := by
  intro cell
  have hold := h cell
  unfold fields at hold ⊢
  rw [Store.addCell, Array.getElem?_push]
  by_cases hnew : cell = σ.cells.size
  · rw [if_pos hnew]
    cases content with
    | array => exact List.nodup_nil
    | struct fields => exact hcontent fields rfl
  · rw [if_neg hnew]
    exact hold

theorem Distinct.setItem (h : σ.Distinct) (cell : CellId) (i : Nat) (v : Value) :
    (σ.setItem cell i v).Distinct := by
  intro other
  have hold := h other
  unfold fields at hold ⊢
  rw [Store.setItem, Array.getElem?_modify]
  by_cases hsame : cell = other
  · rw [if_pos hsame]
    rcases hcontent : σ.cells[other]? with _ | ⟨_ | fields⟩
    · exact List.nodup_nil
    · exact List.nodup_nil
    · rw [hcontent] at hold
      exact hold
  · rw [if_neg hsame]
    exact hold

theorem Distinct.setField (h : σ.Distinct) {cell : CellId} {name : String}
    (hname : (σ.fields cell).has name) (v : Value) : (σ.setField cell name v).Distinct := by
  intro other
  rw [names_fields_setField (Entries.has_iff.mp hname)]
  exact h other

end Store

theorem NativeAction.distinct_run (action : NativeAction) (arguments : List Value) {m : Machine}
    (h : m.store.Distinct) : (action.run arguments m).2.store.Distinct := by
  have hnew : ∀ items, (m.store.newArray items).2.Distinct := fun _ => h.addCell (by simp)
  cases action with
  | writeFile =>
    simp only [NativeAction.run, Machine.writeFile]
    split
    · exact h
    · split
      · exact h
      · split <;> exact h
  | readFile =>
    simp only [NativeAction.run, Machine.readFile]
    split <;> exact h
  | keys =>
    simp only [NativeAction.run, Machine.keys]
    split
    · exact hnew _
    · exact h
  | gather => exact hnew _
  | _ => exact h

namespace Eval

variable {α β : Type} {limit fuel : Nat}

/-- The evaluation leaves no struct with two fields of one name when there was none before. -/
def Tidy (x : Eval α) : Prop := ∀ m, m.store.Distinct → (x m).machine.store.Distinct

theorem Tidy.bind {x : Eval α} {f : α → Eval β} (h : x.Tidy)
    (hf : ∀ a, (∃ m n, x m = .done a n) → (f a).Tidy) : (x >>= f).Tidy := by
  intro m hm
  have hx := h m hm
  rw [bind_apply]
  cases hfirst : x m with
  | done a n =>
    rw [hfirst] at hx
    exact hf a ⟨m, n, hfirst⟩ n hx
  | _ =>
    rw [hfirst] at hx
    exact hx

theorem Inspects.tidy {x : Eval α} (h : x.Inspects) : x.Tidy := by
  intro m hm
  rcases h m.store with ⟨a, hdone⟩ | ⟨fault, place, -, hfailed⟩
  · rw [hdone m rfl]
    exact hm
  · rw [hfailed m rfl]
    exact hm

theorem tidy_exhausted : (exhausted : Eval α).Tidy := fun _ hm => hm

theorem tidy_signal (s : Signal) : (signal s : Eval α).Tidy := fun _ hm => hm

theorem tidy_pure (a : α) : (Pure.pure a : Eval α).Tidy := (inspects_pure a).tidy

theorem tidy_fail (fault : RuntimeFault) (place : Span) : (fail fault place : Eval α).Tidy :=
  fun _ hm => hm

theorem tidy_setLocal (frame : FrameId) (name : Name) (v : Value) : (setLocal frame name v).Tidy :=
  fun _ hm => hm

theorem tidy_declare (frame : FrameId) (name : Name) (v : Value) : (declare frame name v).Tidy := by
  refine (inspects_ask _).tidy.bind fun taken _ => ?_
  split
  · exact tidy_fail _ _
  · exact tidy_setLocal frame name v

theorem tidy_declareThrown (frame : FrameId) (param : Option Name) (payload : Value) :
    (declareThrown frame param payload).Tidy := by
  cases param with
  | none => exact tidy_pure ()
  | some name => exact tidy_declare frame name payload

theorem tidy_declareFunction (scope : FrameId) (definition : FunctionDef) :
    (declareFunction scope definition).Tidy := by
  have hnumber : (add (·.newIdentity) : Eval Nat).Tidy := fun _ hm => hm
  exact hnumber.bind fun identity _ => tidy_declare scope definition.name _

theorem tidy_bindParameters (frame : FrameId) (params : List Name) :
    ∀ arguments, (bindParameters frame params arguments).Tidy := by
  induction params with
  | nil => exact fun _ => tidy_pure ()
  | cons param params ih =>
    exact fun arguments => (tidy_setLocal frame param _).bind fun _ _ => ih arguments.tail

theorem tidy_adjust (scope : FrameId) (name : Name) (step : Step) : (adjust scope name step).Tidy := by
  refine (inspects_readVariable scope name).tidy.bind fun old _ => ?_
  refine Tidy.bind ?_ fun _ _ => tidy_pure old
  exact (inspects_resolve scope name).tidy.bind fun frame _ => tidy_setLocal frame name _

theorem tidy_newArray (items : Array Value) : (newArray items).Tidy :=
  fun _ hm => hm.addCell (by simp)

theorem tidy_newStruct {fields : Entries Value} (h : fields.names.Nodup) : (newStruct fields).Tidy :=
  fun _ hm => hm.addCell fun _ heq => Cell.struct.inj heq ▸ h

theorem tidy_newArrayOfSize (size : Int32) (place : Span) : (newArrayOfSize size place).Tidy := by
  unfold newArrayOfSize
  split
  · exact tidy_fail _ _
  · exact tidy_newArray _

theorem tidy_writeIndex (target : Value) (index : Int32) (v : Value) (place : Span) :
    (writeIndex target index v place).Tidy := by
  cases target with
  | array cell =>
    refine (inspects_ask _).tidy.bind fun size _ => ?_
    refine (inspects_position index size place).tidy.bind fun i _ => ?_
    have hset : (change (·.setItem cell i v)).Tidy := fun _ hm => hm.setItem cell i v
    exact hset.bind fun _ _ => tidy_pure v
  | _ => exact tidy_fail _ _

/-- Only a field that is there is assigned to. -/
theorem tidy_writeMember (target : Value) (member : Name) (v : Value) (place : Span) :
    (writeMember target member v place).Tidy := by
  cases target with
  | struct cell =>
    intro m hm
    change Store.Distinct (Outcome.machine ((if (m.store.fields cell).has member.text then
      (do change (·.setField cell member.text v); pure v) else fail _ _ : Eval Value) m)).store
    split
    · rename_i hname
      exact hm.setField hname v
    · exact hm
  | _ => exact tidy_fail _ _

theorem tidy_callNative (f : Native) (arguments : List Value) (place : Span) :
    (callNative f arguments place).Tidy := by
  intro m hm
  have hrun := f.action.distinct_run (f.fit arguments) hm
  unfold callNative Native.call
  generalize f.action.run (f.fit arguments) m = result at hrun
  obtain ⟨result, n⟩ := result
  cases result <;> exact hrun

theorem tidy_checkCall (f : Closure) (place : Span) : (checkCall limit f place).Tidy := by
  intro m hm
  unfold checkCall
  split
  · exact hm
  · split <;> exact hm

theorem Tidy.inChild {parent : FrameId} {body : FrameId → Eval α} (h : ∀ frame, (body frame).Tidy) :
    (inChild parent body).Tidy := by
  intro m hm
  have hbody := h m.store.frames.size (m.below parent) (hm.of_cells rfl)
  change Store.Distinct (Outcome.machine ((body _ (m.below parent)).mapMachine _)).store
  rw [Outcome.machine_mapMachine]
  exact hbody.of_cells rfl

theorem Tidy.asCall {place : Span} {body : Eval Unit} (h : body.Tidy) : (asCall place body).Tidy := by
  intro m hm
  rw [store_asCall]
  exact h _ hm

theorem Tidy.catching {body : Eval Unit} {handler : Value → Eval Unit} (h : body.Tidy)
    (hhandler : ∀ v, (handler v).Tidy) : (catching body handler).Tidy := by
  intro m hm
  have hbody := h m hm
  unfold Eval.catching
  generalize body m = outcome at hbody
  cases outcome with
  | signalled s n =>
    cases s with
    | jump => exact hbody
    | transfer kind v place =>
      cases kind with
      | throw => exact hhandler v n hbody
      | _ => exact hbody
  | _ => exact hbody

theorem Tidy.repeating {body again : Eval Unit} (h : body.Tidy) (hagain : again.Tidy) :
    (repeating body again).Tidy := by
  intro m hm
  have hbody := h m hm
  unfold Eval.repeating
  generalize body m = outcome at hbody
  cases outcome with
  | done _ n => exact hagain n hbody
  | signalled s n =>
    cases s with
    | jump j place =>
      cases j with
      | «continue» => exact hagain n hbody
      | «break» => exact hbody
    | transfer => exact hbody
  | _ => exact hbody

/-- The fields of a struct are put one after another to fields with names of their own. -/
theorem names_nodup_fieldValues {scope : FrameId} {fields : List (Name × Expr)}
    {entries result : Entries Value} {m n : Machine} (hentries : entries.names.Nodup)
    (h : fieldValues limit fuel scope entries fields m = .done result n) : result.names.Nodup := by
  obtain ⟨vs, -, rfl⟩ := yields_of_fieldValues h
  clear h
  generalize (fields.map fun field => field.1.text).zip vs = pairs
  induction pairs generalizing entries with
  | nil => exact hentries
  | cons pair rest ih => exact ih (Entries.names_nodup_put hentries pair.1 pair.2)

/-- With so much fuel all evaluations are tidy. -/
structure Tidies (limit fuel : Nat) : Prop where
  expr : ∀ scope e, (expr limit fuel scope e).Tidy
  exprs : ∀ scope es, (exprs limit fuel scope es).Tidy
  fieldValues : ∀ scope entries fields, (fieldValues limit fuel scope entries fields).Tidy
  call : ∀ f arguments place, (call limit fuel f arguments place).Tidy
  stmt : ∀ scope s, (stmt limit fuel scope s).Tidy
  optional : ∀ scope value, (optional limit fuel scope value).Tidy
  stmts : ∀ scope body, (stmts limit fuel scope body).Tidy
  loop : ∀ scope condition body, (loop limit fuel scope condition body).Tidy

theorem Tidies.expr_succ (ih : Tidies limit fuel) (scope : FrameId) (e : Expr) :
    (Eval.expr limit (fuel + 1) scope e).Tidy := by
  unfold Eval.expr
  cases e with
  | literal value _ => exact tidy_pure _
  | «variable» name => exact (inspects_readVariable scope name).tidy
  | assign target value _ =>
    refine (inspects_resolve scope target).tidy.bind fun frame _ => ?_
    refine (ih.expr scope value).bind fun v _ => ?_
    exact (tidy_setLocal frame target v).bind fun _ _ => tidy_pure v
  | adjust target step _ => exact tidy_adjust scope target step
  | array items _ => exact (ih.exprs scope items).bind fun vs _ => tidy_newArray _
  | arrayOfSize size place =>
    exact (ih.expr scope size).bind fun v _ => tidy_newArrayOfSize v.toInt32 place
  | struct fields _ =>
    refine (ih.fieldValues scope [] fields).bind fun entries hdone => ?_
    obtain ⟨_, _, hentries⟩ := hdone
    have hnone : (Entries.names ([] : Entries Value)).Nodup := List.nodup_nil
    exact tidy_newStruct (names_nodup_fieldValues hnone hentries)
  | index target index place =>
    refine (ih.expr scope target).bind fun t _ => (ih.expr scope index).bind fun i _ => ?_
    exact (inspects_readIndex t i.toInt32 place).tidy
  | assignIndex target index value place =>
    refine (ih.expr scope target).bind fun t _ => (ih.expr scope index).bind fun i _ => ?_
    exact (ih.expr scope value).bind fun v _ => tidy_writeIndex t i.toInt32 v place
  | member target member place =>
    exact (ih.expr scope target).bind fun t _ => (inspects_readMember t member place).tidy
  | assignMember target member value place =>
    refine (ih.expr scope target).bind fun t _ => ?_
    exact (ih.expr scope value).bind fun v _ => tidy_writeMember t member v place
  | binary op left right place =>
    refine (ih.expr scope left).bind fun a _ => (ih.expr scope right).bind fun b _ => ?_
    exact (inspects_applyBinary op a b place).tidy
  | unary op operand _ => exact (ih.expr scope operand).bind fun v _ => tidy_pure _
  | call callee arguments place =>
    refine (inspects_resolve scope callee).tidy.bind fun frame _ => ?_
    refine (ih.exprs scope arguments).bind fun vs _ => ?_
    refine (inspects_ask _).tidy.bind fun found _ => ?_
    cases found with
    | function f => exact ih.call f vs place
    | native f => exact tidy_callNative f vs place
    | _ => exact tidy_fail _ _
  | paren inner _ => exact ih.expr scope inner

theorem Tidies.stmt_succ (ih : Tidies limit fuel) (scope : FrameId) (s : Stmt) :
    (Eval.stmt limit (fuel + 1) scope s).Tidy := by
  unfold Eval.stmt
  cases s with
  | declare name init _ =>
    exact (ih.optional scope init).bind fun v _ => tidy_declare scope name v
  | function name params body span => exact tidy_declareFunction scope _
  | block body _ => exact .inChild fun frame => ih.stmts frame body
  | branch condition thenBranch elseBranch _ =>
    refine (ih.expr scope condition).bind fun v _ => ?_
    split
    · exact ih.stmt scope thenBranch
    · cases elseBranch with
      | none => exact tidy_pure ()
      | some other => exact ih.stmt scope other
  | loop condition body _ => exact ih.loop scope condition body
  | jump j place => exact tidy_signal _
  | transfer kind value place => exact (ih.optional scope value).bind fun v _ => tidy_signal _
  | attempt body _ param handler _ _ =>
    refine .catching (.inChild fun frame => ih.stmts frame body) fun payload => ?_
    refine .inChild fun frame => (tidy_declareThrown frame param payload).bind fun _ _ => ?_
    exact ih.stmts frame handler
  | expression e _ => exact (ih.expr scope e).bind fun _ _ => tidy_pure ()
  | empty _ => exact tidy_pure ()

theorem Tidies.loop_succ (ih : Tidies limit fuel) (scope : FrameId) (condition : Expr) (body : Stmt) :
    (Eval.loop limit (fuel + 1) scope condition body).Tidy := by
  refine (ih.expr scope condition).bind fun v _ => ?_
  split
  · exact (ih.stmt scope body).repeating (ih.loop scope condition body)
  · exact tidy_pure ()

theorem Tidies.call_succ (ih : Tidies limit fuel) (f : Closure) (arguments : List Value)
    (place : Span) : (Eval.call limit (fuel + 1) f arguments place).Tidy := by
  refine (tidy_checkCall f place).bind fun _ _ => .inChild fun frame => ?_
  refine (tidy_bindParameters frame f.definition.params arguments).bind fun _ _ => ?_
  exact (ih.stmts frame f.definition.body).asCall

theorem Tidies.exprs_succ (ih : Tidies limit fuel) (scope : FrameId) (es : List Expr) :
    (Eval.exprs limit (fuel + 1) scope es).Tidy := by
  cases es with
  | nil => exact tidy_pure _
  | cons e rest =>
    exact (ih.expr scope e).bind fun v _ => (ih.exprs scope rest).bind fun vs _ => tidy_pure _

theorem Tidies.fieldValues_succ (ih : Tidies limit fuel) (scope : FrameId) (entries : Entries Value)
    (fields : List (Name × Expr)) :
    (Eval.fieldValues limit (fuel + 1) scope entries fields).Tidy := by
  cases fields with
  | nil => exact tidy_pure _
  | cons field rest => exact (ih.expr scope field.2).bind fun v _ => ih.fieldValues scope _ rest

theorem Tidies.optional_succ (ih : Tidies limit fuel) (scope : FrameId) (value : Option Expr) :
    (Eval.optional limit (fuel + 1) scope value).Tidy := by
  cases value with
  | none => exact tidy_pure _
  | some e => exact ih.expr scope e

theorem Tidies.stmts_succ (ih : Tidies limit fuel) (scope : FrameId) (body : List Stmt) :
    (Eval.stmts limit (fuel + 1) scope body).Tidy := by
  cases body with
  | nil => exact tidy_pure ()
  | cons s rest => exact (ih.stmt scope s).bind fun _ _ => ih.stmts scope rest

theorem tidies (limit fuel : Nat) : Tidies limit fuel := by
  induction fuel with
  | zero =>
    exact {
      expr := fun _ _ => tidy_exhausted
      exprs := fun _ _ => tidy_exhausted
      fieldValues := fun _ _ _ => tidy_exhausted
      call := fun _ _ _ => tidy_exhausted
      stmt := fun _ _ => tidy_exhausted
      optional := fun _ _ => tidy_exhausted
      stmts := fun _ _ => tidy_exhausted
      loop := fun _ _ _ => tidy_exhausted
    }
  | succ fuel ih =>
    exact {
      expr := ih.expr_succ
      exprs := ih.exprs_succ
      fieldValues := ih.fieldValues_succ
      call := ih.call_succ
      stmt := ih.stmt_succ
      optional := ih.optional_succ
      stmts := ih.stmts_succ
      loop := ih.loop_succ
    }

theorem tidy_script (limit fuel : Nat) (scope : FrameId) (body : List Stmt) :
    ∀ last, (script limit fuel scope last body).Tidy := by
  have hall := tidies limit fuel
  induction body with
  | nil => exact fun last => tidy_pure last
  | cons s rest ih =>
    intro last
    cases s with
    | expression e _ => exact (hall.expr scope e).bind fun v _ => ih v
    | _ => exact (hall.stmt scope _).bind fun _ _ => ih .null

end Eval

namespace Machine

/-- When no struct has two fields of one name before runs, none has afterwards. -/
theorem distinct_perform {m : Machine} (h : m.store.Distinct) (job : Job) :
    (m.perform job).2.store.Distinct := by
  have hbegin : ((m.equipped job).begin job.layers).2.store.Distinct :=
    h.of_cells (cells_begin job.layers (m.equipped job))
  rw [store_perform]
  exact (Eval.tidy_script _ _ _ _ _ _ hbegin).of_cells (cells_unlink ..)

theorem distinct_performAll {m : Machine} (h : m.store.Distinct) (jobs : List Job) :
    (m.performAll jobs).store.Distinct := by
  induction jobs generalizing m with
  | nil => exact h
  | cons job rest ih => exact ih (distinct_perform h job)

end Machine

end ScriptEngine
