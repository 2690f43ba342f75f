import ScriptEngine.Proofs.Running.Code
import ScriptEngine.Proofs.Running.Steps

/-!
Where jumps and returns stand. A jump belongs in the body of a loop, in the same function body, and a
return in the body of a function. What comes out of a statement fits what is around it; out of an
expression come only throws and exits.
-/
namespace ScriptEngine

/-- What is around a statement in the body of the same function. -/
structure Surroundings where
  inLoop : Bool
  inFunction : Bool

namespace Surroundings

/-- The outermost statements of a program. -/
def outermost : Surroundings := ⟨false, false⟩

/-- The body of a function. -/
def ofFunction : Surroundings := ⟨false, true⟩

/-- The body of a loop. -/
def ofLoop (around : Surroundings) : Surroundings := { around with inLoop := true }

end Surroundings

namespace Stmt

mutual

/-- Every jump in the statement is in the body of a loop, every return in the body of a function. -/
def wellPlaced (around : Surroundings) : Stmt → Bool
  | function _ _ body _ => bodyWellPlaced .ofFunction body
  | block body _ => bodyWellPlaced around body
  | branch _ thenBranch elseBranch _ =>
    thenBranch.wellPlaced around && elseWellPlaced around elseBranch
  | loop _ body _ => body.wellPlaced around.ofLoop
  | jump _ _ => around.inLoop
  | transfer .return _ _ => around.inFunction
  | attempt body _ _ handler _ _ => bodyWellPlaced around body && bodyWellPlaced around handler
  | _ => true

def bodyWellPlaced (around : Surroundings) : List Stmt → Bool
  | [] => true
  | s :: rest => s.wellPlaced around && bodyWellPlaced around rest

def elseWellPlaced (around : Surroundings) : Option Stmt → Bool
  | some s => s.wellPlaced around
  | none => true

end

end Stmt

def Program.wellPlaced (program : Program) : Bool := Stmt.bodyWellPlaced .outermost program.body

def FunctionDef.wellPlaced (definition : FunctionDef) : Bool :=
  Stmt.bodyWellPlaced .ofFunction definition.body

namespace Code

def wellPlaced (around : Surroundings) : Code → Bool
  | expr _ => true
  | stmt s => s.wellPlaced around
  | stmts body => Stmt.bodyWellPlaced around body

theorem Part.wellPlaced {whole part : Code} (h : whole.Part part) {around : Surroundings}
    (hwhole : whole.wellPlaced around) : ∃ inner : Surroundings, part.wellPlaced inner := by
  cases h with
  | operand => exact ⟨around, rfl⟩
  | evaluated => exact ⟨around, rfl⟩
  | thenBranch => exact ⟨around, (Bool.and_eq_true_iff.mp hwhole).1⟩
  | elseBranch => exact ⟨around, (Bool.and_eq_true_iff.mp hwhole).2⟩
  | pass => exact ⟨around.ofLoop, hwhole⟩
  | first => exact ⟨around, (Bool.and_eq_true_iff.mp hwhole).1⟩
  | rest => exact ⟨around, (Bool.and_eq_true_iff.mp hwhole).2⟩

theorem Opens.wellPlaced {whole : Code} {body : List Stmt} (h : whole.Opens body)
    {around : Surroundings} (hwhole : whole.wellPlaced around) :
    ∃ inner : Surroundings, Stmt.bodyWellPlaced inner body := by
  cases h with
  | block => exact ⟨around, hwhole⟩
  | attempt => exact ⟨around, (Bool.and_eq_true_iff.mp hwhole).1⟩
  | handler => exact ⟨around, (Bool.and_eq_true_iff.mp hwhole).2⟩
  | function => exact ⟨.ofFunction, hwhole⟩

end Code

/-- A jump is for the loop around, a return for the function around. -/
def Signal.Fits (around : Surroundings) : Signal → Prop
  | jump _ _ => around.inLoop
  | transfer .return _ _ => around.inFunction
  | transfer _ _ _ => True

namespace Eval

variable {α β : Type} {around : Surroundings} {limit fuel : Nat}

/-- Whatever comes out of the evaluation, wherever it begins, fits. -/
def Signals (x : Eval α) (around : Surroundings) : Prop :=
  ∀ m s m', x m = .signalled s m' → s.Fits around

theorem Plain.signals {x : Eval α} (h : x.Plain) : x.Signals around := by
  intro m s m' hx
  have hplain := h m
  rw [hx] at hplain
  cases hplain

theorem signals_exhausted : (exhausted : Eval α).Signals around := by
  intro m s m' h
  cases h

theorem signals_signal {s : Signal} (h : s.Fits around) : (signal s : Eval α).Signals around := by
  intro m s' m' hs
  obtain ⟨rfl, -⟩ := Outcome.signalled.inj hs
  exact h

theorem Signals.bind {x : Eval α} {f : α → Eval β} (h : x.Signals around)
    (hf : ∀ a, (f a).Signals around) : (x >>= f).Signals around := by
  intro m s m' hs
  rw [bind_apply] at hs
  cases hx : x m with
  | done a m'' =>
    rw [hx] at hs
    exact hf a m'' s m' hs
  | signalled s' m'' =>
    rw [hx] at hs
    obtain ⟨rfl, -⟩ := Outcome.signalled.inj hs
    exact h m s' m'' hx
  | failed fault place m'' =>
    rw [hx] at hs
    exact absurd hs (by simp)
  | exhausted m'' =>
    rw [hx] at hs
    exact absurd hs (by simp)

theorem signals_checkCall (f : Closure) (place : Span) :
    (checkCall limit f place).Signals around := by
  intro m s m' h
  unfold checkCall at h
  split at h
  · exact absurd h (by simp)
  · split at h <;> exact absurd h (by simp)

/-- Whatever comes out of the body of a call, only throws and exits come out of the call. -/
theorem signals_asCall (place : Span) (body : Eval Unit) : (asCall place body).Signals around := by
  intro m s m' h
  unfold asCall at h
  cases hbody : body { m with depth := m.depth + 1 } with
  | signalled s' n =>
    rw [hbody] at h
    cases s' with
    | jump j at_ => exact absurd h (by simp)
    | transfer kind v at_ =>
      cases kind with
      | «return» => exact absurd h (by simp)
      | exit =>
        obtain ⟨rfl, -⟩ := Outcome.signalled.inj h
        trivial
      | throw =>
        obtain ⟨rfl, -⟩ := Outcome.signalled.inj h
        trivial
  | _ =>
    rw [hbody] at h
    exact absurd h (by simp)

theorem signals_inChild {parent : FrameId} {body : FrameId → Eval α}
    (h : ∀ frame, (body frame).Signals around) : (inChild parent body).Signals around := by
  intro m s m' hs
  have hs : (body m.store.frames.size { m with store := (m.store.newChild parent).2 }).mapMachine
      (fun n => { n with store := n.store.dropFrame m.store.frames.size }) = .signalled s m' := hs
  cases hbody : body m.store.frames.size { m with store := (m.store.newChild parent).2 } with
  | signalled s' n =>
    rw [hbody] at hs
    obtain ⟨rfl, -⟩ := Outcome.signalled.inj hs
    exact h _ _ s' n hbody
  | _ =>
    rw [hbody] at hs
    exact absurd hs (by simp [Outcome.mapMachine])

theorem signals_catching {body : Eval Unit} {handler : Value → Eval Unit} (h : body.Signals around)
    (hhandler : ∀ payload, (handler payload).Signals around) :
    (catching body handler).Signals around := by
  intro m s m' hs
  unfold catching at hs
  cases hbody : body m with
  | signalled s' n =>
    rw [hbody] at hs
    cases s' with
    | jump j at_ => exact h m s m' (hbody.trans hs)
    | transfer kind v at_ =>
      cases kind with
      | throw => exact hhandler v n s m' hs
      | _ => exact h m s m' (hbody.trans hs)
  | _ =>
    rw [hbody] at hs
    exact absurd hs (by simp)

/-- A loop takes the jumps that come out of its body. -/
theorem signals_repeating {body again : Eval Unit} (h : body.Signals around.ofLoop)
    (hagain : again.Signals around) : (repeating body again).Signals around := by
  intro m s m' hs
  unfold repeating at hs
  cases hbody : body m with
  | done a n =>
    rw [hbody] at hs
    exact hagain n s m' hs
  | signalled s' n =>
    rw [hbody] at hs
    cases s' with
    | jump j at_ =>
      cases j with
      | «continue» => exact hagain n s m' hs
      | «break» => exact absurd hs (by simp)
    | transfer kind v at_ =>
      have hfits := h m _ n hbody
      obtain ⟨rfl, -⟩ := Outcome.signalled.inj hs
      cases kind <;> exact hfits
  | failed fault place n =>
    rw [hbody] at hs
    exact absurd hs (by simp)
  | exhausted n =>
    rw [hbody] at hs
    exact absurd hs (by simp)

/-! Evaluations -/

/-- With so much fuel what comes out of expressions fits everywhere, and what comes out of a statement
that is well placed fits what is around it. -/
structure Discipline (limit fuel : Nat) : Prop where
  expr : ∀ {around} scope e, (expr limit fuel scope e).Signals around
  exprs : ∀ {around} scope es, (exprs limit fuel scope es).Signals around
  fieldValues : ∀ {around} scope entries fields,
    (fieldValues limit fuel scope entries fields).Signals around
  call : ∀ {around} f arguments place, (call limit fuel f arguments place).Signals around
  optional : ∀ {around} scope value, (optional limit fuel scope value).Signals around
  stmt : ∀ {around} scope s, s.wellPlaced around → (stmt limit fuel scope s).Signals around
  stmts : ∀ {around} scope body, Stmt.bodyWellPlaced around body →
    (stmts limit fuel scope body).Signals around
  loop : ∀ {around : Surroundings} scope condition body, body.wellPlaced around.ofLoop →
    (loop limit fuel scope condition body).Signals around

theorem signals_callee (ih : Discipline limit fuel) (frame : FrameId) (callee : Name)
    (arguments : List Value) (place : Span) :
    (do match ← ask fun σ => (σ.getLocal? frame callee.text).getD .null with
        | .function f => call limit fuel f arguments place
        | .native f => callNative f arguments place
        | other => fail (.mismatch .function other.typeName) callee.span : Eval Value).Signals
      around := by
  apply (plain_ask _).signals.bind
  intro v
  cases v with
  | function f => exact ih.call f arguments place
  | native f => exact (plain_callNative f arguments place).signals
  | _ => exact (plain_fail rfl _).signals

theorem signals_expr (ih : Discipline limit fuel) (scope : FrameId) (e : Expr) :
    (expr limit (fuel + 1) scope e).Signals around := by
  unfold expr
  cases e with
  | literal value _ => exact (plain_pure _).signals
  | «variable» name => exact (plain_readVariable scope name).signals
  | assign target value _ =>
    apply (plain_resolve scope target).signals.bind
    intro frame
    exact (ih.expr scope value).bind fun v => (plain_assigned frame target v).signals
  | adjust target step _ => exact (plain_adjust scope target step).signals
  | array items _ => exact (ih.exprs scope items).bind fun vs => (plain_add _).signals
  | arrayOfSize size place =>
    exact (ih.expr scope size).bind fun v => (plain_newArrayOfSize v.toInt32 place).signals
  | struct fields _ => exact (ih.fieldValues scope [] fields).bind fun es => (plain_add _).signals
  | index target index place =>
    refine (ih.expr scope target).bind fun t => (ih.expr scope index).bind fun i => ?_
    exact (plain_readIndex t i.toInt32 place).signals
  | assignIndex target index value place =>
    refine (ih.expr scope target).bind fun t => (ih.expr scope index).bind fun i => ?_
    exact (ih.expr scope value).bind fun v => (plain_writeIndex t i.toInt32 v place).signals
  | member target member place =>
    exact (ih.expr scope target).bind fun t => (plain_readMember t member place).signals
  | assignMember target member value place =>
    refine (ih.expr scope target).bind fun t => (ih.expr scope value).bind fun v => ?_
    exact (plain_writeMember t member v place).signals
  | binary op left right place =>
    refine (ih.expr scope left).bind fun a => (ih.expr scope right).bind fun b => ?_
    exact (plain_applyBinary op a b place).signals
  | unary op operand _ => exact (ih.expr scope operand).bind fun v => (plain_pure _).signals
  | call callee arguments place =>
    apply (plain_resolve scope callee).signals.bind
    intro frame
    exact (ih.exprs scope arguments).bind fun vs => signals_callee ih frame callee vs place
  | paren inner _ => exact ih.expr scope inner

theorem signals_exprs (ih : Discipline limit fuel) (scope : FrameId) (es : List Expr) :
    (exprs limit (fuel + 1) scope es).Signals around := by
  cases es with
  | nil => exact (plain_pure _).signals
  | cons e rest =>
    refine (ih.expr scope e).bind fun v => (ih.exprs scope rest).bind fun vs => ?_
    exact (plain_pure _).signals

theorem signals_fieldValues (ih : Discipline limit fuel) (scope : FrameId)
    (entries : Entries Value) (fields : List (Name × Expr)) :
    (fieldValues limit (fuel + 1) scope entries fields).Signals around := by
  cases fields with
  | nil => exact (plain_pure _).signals
  | cons field rest => exact (ih.expr scope field.2).bind fun v => ih.fieldValues scope _ rest

theorem signals_call (f : Closure) (arguments : List Value) (place : Span) :
    (call limit (fuel + 1) f arguments place).Signals around := by
  apply (signals_checkCall f place).bind
  intro _
  apply signals_inChild
  intro frame
  exact (plain_bindParameters frame _ arguments).signals.bind fun _ => signals_asCall place _

theorem signals_optional (ih : Discipline limit fuel) (scope : FrameId) (value : Option Expr) :
    (optional limit (fuel + 1) scope value).Signals around := by
  cases value with
  | none => exact (plain_pure _).signals
  | some e => exact ih.expr scope e

theorem signals_stmt (ih : Discipline limit fuel) (scope : FrameId) (s : Stmt)
    (hs : s.wellPlaced around) : (stmt limit (fuel + 1) scope s).Signals around := by
  unfold stmt
  cases s with
  | declare name init _ =>
    exact (ih.optional scope init).bind fun v => (plain_declare scope name v).signals
  | function name params body span => exact (plain_declareFunction scope _).signals
  | block body _ => exact signals_inChild fun frame => ih.stmts frame body hs
  | branch condition thenBranch elseBranch _ =>
    obtain ⟨hthen, helse⟩ := Bool.and_eq_true_iff.mp hs
    apply (ih.expr scope condition).bind
    intro v
    split
    · exact ih.stmt scope thenBranch hthen
    · cases elseBranch with
      | none => exact (plain_pure _).signals
      | some other => exact ih.stmt scope other helse
  | loop condition body _ => exact ih.loop scope condition body hs
  | jump j place => exact signals_signal hs
  | transfer kind value place =>
    apply (ih.optional scope value).bind
    intro v
    cases kind with
    | «return» => exact signals_signal hs
    | exit => exact signals_signal trivial
    | throw => exact signals_signal trivial
  | attempt body _ param handler _ _ =>
    obtain ⟨hbody, hhandler⟩ := Bool.and_eq_true_iff.mp hs
    apply signals_catching (signals_inChild fun frame => ih.stmts frame body hbody)
    intro payload
    apply signals_inChild
    intro frame
    apply (plain_declareThrown frame param payload).signals.bind
    exact fun _ => ih.stmts frame handler hhandler
  | expression e _ => exact (ih.expr scope e).bind fun v => (plain_pure _).signals
  | empty _ => exact (plain_pure _).signals

theorem signals_stmts (ih : Discipline limit fuel) (scope : FrameId) (body : List Stmt)
    (hbody : Stmt.bodyWellPlaced around body) :
    (stmts limit (fuel + 1) scope body).Signals around := by
  cases body with
  | nil => exact (plain_pure _).signals
  | cons s rest =>
    obtain ⟨hfirst, hrest⟩ := Bool.and_eq_true_iff.mp hbody
    exact (ih.stmt scope s hfirst).bind fun _ => ih.stmts scope rest hrest

theorem signals_loop (ih : Discipline limit fuel) (scope : FrameId) (condition : Expr) (body : Stmt)
    (hbody : body.wellPlaced around.ofLoop) :
    (loop limit (fuel + 1) scope condition body).Signals around := by
  unfold loop
  apply (ih.expr scope condition).bind
  intro v
  split
  · exact signals_repeating (ih.stmt scope body hbody) (ih.loop scope condition body hbody)
  · exact (plain_pure _).signals

theorem discipline (limit fuel : Nat) : Discipline limit fuel := by
  induction fuel with
  | zero =>
    exact {
      expr := fun _ _ => signals_exhausted
      exprs := fun _ _ => signals_exhausted
      fieldValues := fun _ _ _ => signals_exhausted
      call := fun _ _ _ => signals_exhausted
      optional := fun _ _ => signals_exhausted
      stmt := fun _ _ _ => signals_exhausted
      stmts := fun _ _ _ => signals_exhausted
      loop := fun _ _ _ _ => signals_exhausted
    }
  | succ fuel ih =>
    exact {
      expr := signals_expr ih
      exprs := signals_exprs ih
      fieldValues := signals_fieldValues ih
      call := signals_call
      optional := signals_optional ih
      stmt := signals_stmt ih
      stmts := signals_stmts ih
      loop := signals_loop ih
    }

theorem signals_script (limit fuel : Nat) (scope : FrameId) (body : List Stmt)
    (hbody : Stmt.bodyWellPlaced around body) :
    ∀ last, (script limit fuel scope last body).Signals around := by
  have hall := discipline limit fuel
  induction body with
  | nil => exact fun last => (plain_pure last).signals
  | cons s rest ih =>
    intro last
    obtain ⟨hfirst, hrest⟩ := Bool.and_eq_true_iff.mp hbody
    cases s with
    | expression e _ => exact (hall.expr scope e).bind fun v => ih hrest v
    | _ => exact (hall.stmt scope _ hfirst).bind fun _ => ih hrest .null

end Eval

end ScriptEngine
