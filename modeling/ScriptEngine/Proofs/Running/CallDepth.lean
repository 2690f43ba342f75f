import ScriptEngine.Proofs.Running.Moments
import ScriptEngine.Proofs.Running.Steps

/-!
The depth of calls. An evaluation leaves the number of active calls as it found it, whatever comes of
it. A limit makes itself felt only in the fault of a call that is too deep, and no construct catches or
changes that: with a higher limit everything else comes out the same.
-/
namespace ScriptEngine

/-- The first outcome leaves as many calls active as there were. It is the second one, or a call was too
deep for the limit. -/
inductive Agreement {α : Type} (limit : Nat) (m : Machine) : Outcome α → Outcome α → Prop where
  | same {outcome} (hdepth : outcome.machine.depth = m.depth) : Agreement limit m outcome outcome
  | tooDeep {place m' outcome} (hdepth : m'.depth = m.depth) :
      Agreement limit m (.failed (.tooManyCalls limit) place m') outcome

namespace Agreement

variable {α : Type} {limit : Nat} {m m' : Machine} {outcome outcome' : Outcome α}

theorem depth (h : Agreement limit m outcome outcome') : outcome.machine.depth = m.depth := by
  cases h with
  | same hdepth => exact hdepth
  | tooDeep hdepth => exact hdepth

theorem after (h : Agreement limit m' outcome outcome') (hm : m'.depth = m.depth) :
    Agreement limit m outcome outcome' := by
  cases h with
  | same hdepth => exact .same (hdepth.trans hm)
  | tooDeep hdepth => exact .tooDeep (hdepth.trans hm)

end Agreement

namespace Eval

variable {α β : Type} {limit higher fuel : Nat}

/-- Wherever it begins, the first evaluation gives what the second gives, or a call is too deep for the
limit. -/
def Agrees (x : Eval α) (limit : Nat) (y : Eval α) : Prop := ∀ m, Agreement limit m (x m) (y m)

theorem Agrees.depth {x y : Eval α} (h : x.Agrees limit y) {m m' : Machine} {a : α}
    (hx : x m = .done a m') : m'.depth = m.depth := by
  have hdepth := (h m).depth
  rwa [hx] at hdepth

theorem Agrees.depth_signalled {x y : Eval α} (h : x.Agrees limit y) {m m' : Machine} {s : Signal}
    (hx : x m = .signalled s m') : m'.depth = m.depth := by
  have hdepth := (h m).depth
  rwa [hx] at hdepth

theorem Plain.agrees {x : Eval α} (h : x.Plain) : x.Agrees limit x := by
  intro m
  have hplain := h m
  cases hx : x m with
  | done a m' =>
    rw [hx] at hplain
    cases hplain with
    | done hdepth => exact .same hdepth
  | failed fault place m' =>
    rw [hx] at hplain
    cases hplain with
    | failed hfault hdepth => exact .same hdepth
  | signalled s m' =>
    rw [hx] at hplain
    cases hplain
  | exhausted m' =>
    rw [hx] at hplain
    cases hplain

theorem agrees_exhausted : (exhausted : Eval α).Agrees limit exhausted := fun _ => .same rfl

theorem agrees_signal (s : Signal) : (signal s : Eval α).Agrees limit (signal s) :=
  fun _ => .same rfl

theorem Agrees.bind {x y : Eval α} {f g : α → Eval β} (h : x.Agrees limit y)
    (hf : ∀ a, (f a).Agrees limit (g a)) : (x >>= f).Agrees limit (y >>= g) := by
  intro m
  have hx := h m
  rw [bind_apply, bind_apply]
  generalize x m = first, y m = second at hx
  cases hx with
  | same hdepth =>
    cases first with
    | done a m' => exact (hf a m').after hdepth
    | _ => exact .same hdepth
  | tooDeep hdepth => exact .tooDeep hdepth

theorem agrees_inChild {parent : FrameId} {body body' : FrameId → Eval α}
    (h : ∀ frame, (body frame).Agrees limit (body' frame)) :
    (inChild parent body).Agrees limit (inChild parent body') := by
  intro m
  have hbody := h m.store.frames.size (m.below parent)
  change Agreement limit m ((body m.store.frames.size (m.below parent)).mapMachine _)
    ((body' m.store.frames.size (m.below parent)).mapMachine _)
  generalize body m.store.frames.size (m.below parent) = first,
    body' m.store.frames.size (m.below parent) = second at hbody
  cases hbody with
  | same hdepth => cases first <;> exact .same hdepth
  | tooDeep hdepth => exact .tooDeep hdepth

/-- A call is counted while its body runs. -/
theorem agrees_asCall (place : Span) {body body' : Eval Unit} (h : body.Agrees limit body') :
    (asCall place body).Agrees limit (asCall place body') := by
  intro m
  have hbody := h { m with depth := m.depth + 1 }
  have hback : ∀ n : Machine, n.depth = m.depth + 1 → n.depth - 1 = m.depth := by omega
  unfold asCall
  generalize body { m with depth := m.depth + 1 } = first,
    body' { m with depth := m.depth + 1 } = second at hbody
  cases hbody with
  | same hdepth =>
    cases first with
    | signalled s n =>
      cases s with
      | jump j at_ => exact .same (hback n hdepth)
      | transfer kind v at_ => cases kind <;> exact .same (hback n hdepth)
    | done a n => exact .same (hback n hdepth)
    | failed fault at_ n => exact .same (hback n hdepth)
    | exhausted n => exact .same (hback n hdepth)
  | @tooDeep at_ n _ hdepth => exact .tooDeep (hback n hdepth)

theorem agrees_catching {body body' : Eval Unit} {handler handler' : Value → Eval Unit}
    (h : body.Agrees limit body')
    (hhandler : ∀ payload, (handler payload).Agrees limit (handler' payload)) :
    (catching body handler).Agrees limit (catching body' handler') := by
  intro m
  have hbody := h m
  unfold catching
  generalize body m = first, body' m = second at hbody
  cases hbody with
  | same hdepth =>
    cases first with
    | signalled s n =>
      cases s with
      | jump j at_ => exact .same hdepth
      | transfer kind v at_ =>
        cases kind with
        | throw => exact (hhandler v n).after hdepth
        | _ => exact .same hdepth
    | _ => exact .same hdepth
  | tooDeep hdepth => exact .tooDeep hdepth

theorem agrees_repeating {body body' again again' : Eval Unit} (h : body.Agrees limit body')
    (hagain : again.Agrees limit again') :
    (repeating body again).Agrees limit (repeating body' again') := by
  intro m
  have hbody := h m
  unfold repeating
  generalize body m = first, body' m = second at hbody
  cases hbody with
  | same hdepth =>
    cases first with
    | done a n => exact (hagain n).after hdepth
    | signalled s n =>
      cases s with
      | jump j at_ =>
        cases j with
        | «continue» => exact (hagain n).after hdepth
        | «break» => exact .same hdepth
      | transfer kind v at_ => exact .same hdepth
    | failed fault at_ n => exact .same hdepth
    | exhausted n => exact .same hdepth
  | tooDeep hdepth => exact .tooDeep hdepth

/-- A call that is not too deep for the limit is not too deep for a higher one. -/
theorem agrees_checkCall (hlimit : limit ≤ higher) (f : Closure) (place : Span) :
    (checkCall limit f place).Agrees limit (checkCall higher f place) := by
  intro m
  unfold checkCall
  by_cases hdepth : limit ≤ m.depth
  · rw [if_pos hdepth]
    exact .tooDeep rfl
  · rw [if_neg hdepth, if_neg fun h => hdepth (Nat.le_trans hlimit h)]
    split <;> exact .same rfl

/-! Evaluations -/

/-- With so much fuel the evaluations with the limit agree with those with the higher one. -/
structure Agreements (limit higher fuel : Nat) : Prop where
  expr : ∀ scope e, (expr limit fuel scope e).Agrees limit (Eval.expr higher fuel scope e)
  exprs : ∀ scope es, (exprs limit fuel scope es).Agrees limit (Eval.exprs higher fuel scope es)
  fieldValues : ∀ scope entries fields, (fieldValues limit fuel scope entries fields).Agrees limit
    (Eval.fieldValues higher fuel scope entries fields)
  call : ∀ f arguments place,
    (call limit fuel f arguments place).Agrees limit (Eval.call higher fuel f arguments place)
  stmt : ∀ scope s, (stmt limit fuel scope s).Agrees limit (Eval.stmt higher fuel scope s)
  optional : ∀ scope value,
    (optional limit fuel scope value).Agrees limit (Eval.optional higher fuel scope value)
  stmts : ∀ scope body, (stmts limit fuel scope body).Agrees limit (Eval.stmts higher fuel scope body)
  loop : ∀ scope condition body,
    (loop limit fuel scope condition body).Agrees limit (Eval.loop higher fuel scope condition body)

theorem agrees_callee (ih : Agreements limit higher fuel) (frame : FrameId) (callee : Name)
    (arguments : List Value) (place : Span) :
    (do match ← ask fun σ => (σ.getLocal? frame callee.text).getD .null with
        | .function f => call limit fuel f arguments place
        | .native f => callNative f arguments place
        | other => fail (.mismatch .function other.typeName) callee.span : Eval Value).Agrees limit
    (do match ← ask fun σ => (σ.getLocal? frame callee.text).getD .null with
        | .function f => call higher fuel f arguments place
        | .native f => callNative f arguments place
        | other => fail (.mismatch .function other.typeName) callee.span : Eval Value) := by
  apply (plain_ask _).agrees.bind
  intro v
  cases v with
  | function f => exact ih.call f arguments place
  | native f => exact (plain_callNative f arguments place).agrees
  | _ => exact (plain_fail rfl _).agrees

theorem agrees_expr (ih : Agreements limit higher fuel) (scope : FrameId) (e : Expr) :
    (expr limit (fuel + 1) scope e).Agrees limit (expr higher (fuel + 1) scope e) := by
  unfold expr
  cases e with
  | literal value _ => exact (plain_pure _).agrees
  | «variable» name => exact (plain_readVariable scope name).agrees
  | assign target value _ =>
    apply (plain_resolve scope target).agrees.bind
    intro frame
    exact (ih.expr scope value).bind fun v => (plain_assigned frame target v).agrees
  | adjust target step _ => exact (plain_adjust scope target step).agrees
  | array items _ => exact (ih.exprs scope items).bind fun vs => (plain_add _).agrees
  | arrayOfSize size place =>
    exact (ih.expr scope size).bind fun v => (plain_newArrayOfSize v.toInt32 place).agrees
  | struct fields _ => exact (ih.fieldValues scope [] fields).bind fun es => (plain_add _).agrees
  | index target index place =>
    refine (ih.expr scope target).bind fun t => (ih.expr scope index).bind fun i => ?_
    exact (plain_readIndex t i.toInt32 place).agrees
  | assignIndex target index value place =>
    refine (ih.expr scope target).bind fun t => (ih.expr scope index).bind fun i => ?_
    exact (ih.expr scope value).bind fun v => (plain_writeIndex t i.toInt32 v place).agrees
  | member target member place =>
    exact (ih.expr scope target).bind fun t => (plain_readMember t member place).agrees
  | assignMember target member value place =>
    refine (ih.expr scope target).bind fun t => (ih.expr scope value).bind fun v => ?_
    exact (plain_writeMember t member v place).agrees
  | binary op left right place =>
    refine (ih.expr scope left).bind fun a => (ih.expr scope right).bind fun b => ?_
    exact (plain_applyBinary op a b place).agrees
  | unary op operand _ => exact (ih.expr scope operand).bind fun v => (plain_pure _).agrees
  | call callee arguments place =>
    apply (plain_resolve scope callee).agrees.bind
    intro frame
    exact (ih.exprs scope arguments).bind fun vs => agrees_callee ih frame callee vs place
  | paren inner _ => exact ih.expr scope inner

theorem agrees_exprs (ih : Agreements limit higher fuel) (scope : FrameId) (es : List Expr) :
    (exprs limit (fuel + 1) scope es).Agrees limit (exprs higher (fuel + 1) scope es) := by
  cases es with
  | nil => exact (plain_pure _).agrees
  | cons e rest =>
    refine (ih.expr scope e).bind fun v => (ih.exprs scope rest).bind fun vs => ?_
    exact (plain_pure _).agrees

theorem agrees_fieldValues (ih : Agreements limit higher fuel) (scope : FrameId)
    (entries : Entries Value) (fields : List (Name × Expr)) :
    (fieldValues limit (fuel + 1) scope entries fields).Agrees limit
      (fieldValues higher (fuel + 1) scope entries fields) := by
  cases fields with
  | nil => exact (plain_pure _).agrees
  | cons field rest => exact (ih.expr scope field.2).bind fun v => ih.fieldValues scope _ rest

theorem agrees_call (hlimit : limit ≤ higher) (ih : Agreements limit higher fuel) (f : Closure)
    (arguments : List Value) (place : Span) :
    (call limit (fuel + 1) f arguments place).Agrees limit
      (call higher (fuel + 1) f arguments place) := by
  apply (agrees_checkCall hlimit f place).bind
  intro _
  apply agrees_inChild
  intro frame
  apply (plain_bindParameters frame _ arguments).agrees.bind
  exact fun _ => agrees_asCall place (ih.stmts frame f.definition.body)

theorem agrees_optional (ih : Agreements limit higher fuel) (scope : FrameId)
    (value : Option Expr) :
    (optional limit (fuel + 1) scope value).Agrees limit
      (optional higher (fuel + 1) scope value) := by
  cases value with
  | none => exact (plain_pure _).agrees
  | some e => exact ih.expr scope e

theorem agrees_stmt (ih : Agreements limit higher fuel) (scope : FrameId) (s : Stmt) :
    (stmt limit (fuel + 1) scope s).Agrees limit (stmt higher (fuel + 1) scope s) := by
  unfold stmt
  cases s with
  | declare name init _ =>
    exact (ih.optional scope init).bind fun v => (plain_declare scope name v).agrees
  | function name params body span => exact (plain_declareFunction scope _).agrees
  | block body _ => exact agrees_inChild fun frame => ih.stmts frame body
  | branch condition thenBranch elseBranch _ =>
    apply (ih.expr scope condition).bind
    intro v
    split
    · exact ih.stmt scope thenBranch
    · cases elseBranch with
      | none => exact (plain_pure _).agrees
      | some other => exact ih.stmt scope other
  | loop condition body _ => exact ih.loop scope condition body
  | jump j place => exact agrees_signal _
  | transfer kind value place => exact (ih.optional scope value).bind fun v => agrees_signal _
  | attempt body _ param handler _ _ =>
    apply agrees_catching (agrees_inChild fun frame => ih.stmts frame body)
    intro payload
    apply agrees_inChild
    intro frame
    apply (plain_declareThrown frame param payload).agrees.bind
    exact fun _ => ih.stmts frame handler
  | expression e _ => exact (ih.expr scope e).bind fun v => (plain_pure _).agrees
  | empty _ => exact (plain_pure _).agrees

theorem agrees_stmts (ih : Agreements limit higher fuel) (scope : FrameId) (body : List Stmt) :
    (stmts limit (fuel + 1) scope body).Agrees limit (stmts higher (fuel + 1) scope body) := by
  cases body with
  | nil => exact (plain_pure _).agrees
  | cons s rest => exact (ih.stmt scope s).bind fun _ => ih.stmts scope rest

theorem agrees_loop (ih : Agreements limit higher fuel) (scope : FrameId) (condition : Expr)
    (body : Stmt) :
    (loop limit (fuel + 1) scope condition body).Agrees limit
      (loop higher (fuel + 1) scope condition body) := by
  unfold loop
  apply (ih.expr scope condition).bind
  intro v
  split
  · exact agrees_repeating (ih.stmt scope body) (ih.loop scope condition body)
  · exact (plain_pure _).agrees

theorem agreements (hlimit : limit ≤ higher) (fuel : Nat) : Agreements limit higher fuel := by
  induction fuel with
  | zero =>
    exact {
      expr := fun _ _ => agrees_exhausted
      exprs := fun _ _ => agrees_exhausted
      fieldValues := fun _ _ _ => agrees_exhausted
      call := fun _ _ _ => agrees_exhausted
      stmt := fun _ _ => agrees_exhausted
      optional := fun _ _ => agrees_exhausted
      stmts := fun _ _ => agrees_exhausted
      loop := fun _ _ _ => agrees_exhausted
    }
  | succ fuel ih =>
    exact {
      expr := agrees_expr ih
      exprs := agrees_exprs ih
      fieldValues := agrees_fieldValues ih
      call := agrees_call hlimit ih
      stmt := agrees_stmt ih
      optional := agrees_optional ih
      stmts := agrees_stmts ih
      loop := agrees_loop ih
    }

theorem agrees_script (hlimit : limit ≤ higher) (fuel : Nat) (scope : FrameId) (body : List Stmt) :
    ∀ last, (script limit fuel scope last body).Agrees limit
      (script higher fuel scope last body) := by
  have hall := agreements hlimit fuel
  induction body with
  | nil => exact fun last => (plain_pure last).agrees
  | cons s rest ih =>
    intro last
    cases s with
    | expression e _ => exact (hall.expr scope e).bind fun v => ih v
    | _ => exact (hall.stmt scope _).bind fun _ => ih .null

end Eval

/-! Active calls -/

/-- How many calls become active with the evaluation of the task. -/
def Task.calls : Task → Nat
  | call _ _ _ => 1
  | _ => 0

/-- The second moment comes inside the first one, with so many calls of script functions around it that
are active. -/
inductive Moment.Within (limit : Nat) (M : Moment) : Nat → Moment → Prop where
  | refl : Within limit M 0 M
  | step {calls N L} (hN : Within limit M calls N) (hL : Enters limit N L) :
      Within limit M (calls + N.task.calls) L

variable {limit : Nat} {M N : Moment}

/-- Every moment that a moment reaches has some number of active calls around it. -/
theorem Moment.reaches_iff_within : M.Reaches limit N ↔ ∃ calls, M.Within limit calls N := by
  constructor
  · intro h
    induction h with
    | refl => exact ⟨0, .refl⟩
    | tail _ hlast ih =>
      obtain ⟨calls, hcalls⟩ := ih
      exact ⟨_, hcalls.step hlast⟩
  · rintro ⟨calls, h⟩
    induction h with
    | refl => exact .refl
    | step _ hL ih => exact ih.tail hL

theorem depth_passes {scope : FrameId} {es : List Expr} {m m' : Machine}
    (h : Eval.Passes limit scope es m m') : m'.depth = m.depth := by
  induction h with
  | nil => rfl
  | cons fuel hfirst _ ih =>
    exact ih.trans (((Eval.agreements (Nat.le_refl limit) fuel).expr _ _).depth hfirst)

/-- What comes before an evaluation inside another one leaves the depth as it was; a call adds one. -/
theorem depth_enters (h : Enters limit M N) :
    N.machine.depth = M.machine.depth + M.task.calls := by
  have hall := Eval.agreements (Nat.le_refl limit)
  cases h with
  | operand _ _ hbefore => exact depth_passes hbefore
  | call fuel _ harguments _ => exact ((hall fuel).exprs _ _).depth harguments
  | native fuel _ harguments _ => exact ((hall fuel).exprs _ _).depth harguments
  | activation _ hbind =>
    exact congrArg (· + 1) ((Eval.plain_bindParameters _ _ _).depth (m := Machine.below _ _) hbind)
  | part _ => rfl
  | block => rfl
  | branch fuel hcondition _ => exact ((hall fuel).expr _ _).depth hcondition
  | pass fuel hcondition _ => exact ((hall fuel).expr _ _).depth hcondition
  | again fuel hcondition _ hbody =>
    refine Eq.trans ?_ (((hall fuel).expr _ _).depth hcondition)
    rcases hbody with hbody | ⟨place, hbody⟩
    · exact ((hall fuel).stmt _ _).depth hbody
    · exact ((hall fuel).stmt _ _).depth_signalled hbody
  | attempt => rfl
  | @handler scope body _ _ _ _ _ m _ _ m' m'' fuel hthrown hparam =>
    have hbody : m'.depth = m.depth :=
      (Eval.agrees_inChild fun frame => (hall fuel).stmts frame body).depth_signalled hthrown
    exact ((Eval.plain_declareThrown _ _ _).depth hparam).trans hbody
  | first => rfl
  | rest fuel hfirst => exact ((hall fuel).stmt _ _).depth hfirst

/-- A call does not begin when it is too deep. -/
theorem depth_enters_le (h : Enters limit M N) (hM : M.machine.depth ≤ limit) :
    N.machine.depth ≤ limit := by
  have hdepth := depth_enters h
  cases h with
  | activation hcheck _ =>
    unfold Eval.checkCall at hcheck
    split at hcheck
    · exact absurd hcheck (by simp)
    · rename_i hlt
      rw [hdepth]
      exact Nat.lt_of_not_le hlt
  | _ =>
    rw [hdepth]
    exact hM

/-- The depth counts the active calls, and is never above the limit. -/
theorem depth_within {calls : Nat} (h : M.Within limit calls N) (hM : M.machine.depth ≤ limit) :
    N.machine.depth = M.machine.depth + calls ∧ N.machine.depth ≤ limit := by
  induction h with
  | refl => exact ⟨rfl, hM⟩
  | step _ hL ih => exact ⟨by rw [depth_enters hL, ih.1, Nat.add_assoc], depth_enters_le hL ih.2⟩

end ScriptEngine
