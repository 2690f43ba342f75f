import ScriptEngine.Proofs.Running.Keeping

/-!
Every evaluation of code that may run in a realm stays in the realm, whatever comes of it. The
induction is on the fuel, with one lemma for each kind of evaluation.
-/
namespace ScriptEngine

namespace Eval

variable {R : Realm} {limit fuel : Nat} {m : Machine}

/-- The evaluations with so much fuel stay in the realm. -/
structure Evaluations (R : Realm) (limit fuel : Nat) : Prop where
  expr : ∀ {scope m} e, R.code scope (.expr e) → R.Holds m.store →
    (expr limit fuel scope e).Keeps R m R.data
  exprs : ∀ {scope m} es, (∀ e ∈ es, R.code scope (.expr e)) → R.Holds m.store →
    (exprs limit fuel scope es).Keeps R m fun vs => ∀ v ∈ vs, R.data v
  fieldValues : ∀ {scope m} entries fields, (∀ e ∈ fields.map Prod.snd, R.code scope (.expr e)) →
    R.Holds m.store → (∀ entry ∈ entries, R.data entry.2) →
    (fieldValues limit fuel scope entries fields).Keeps R m fun es => ∀ entry ∈ es, R.data entry.2
  call : ∀ {m} f arguments place, R.callable f → R.Holds m.store → (∀ v ∈ arguments, R.data v) →
    (call limit fuel f arguments place).Keeps R m R.data
  stmt : ∀ {scope m} s, R.code scope (.stmt s) → R.Holds m.store →
    (stmt limit fuel scope s).Keeps R m fun _ => True
  optional : ∀ {scope m} value, (∀ e, value = some e → R.code scope (.expr e)) → R.Holds m.store →
    (optional limit fuel scope value).Keeps R m R.data
  stmts : ∀ {scope m} body, R.code scope (.stmts body) → R.Holds m.store →
    (stmts limit fuel scope body).Keeps R m fun _ => True
  loop : ∀ {scope m} condition body, R.code scope (.expr condition) → R.code scope (.stmt body) →
    R.Holds m.store → (loop limit fuel scope condition body).Keeps R m fun _ => True

theorem Evaluations.block (ih : Evaluations R limit fuel) {scope : FrameId} {c : Code}
    {body : List Stmt} (hcode : R.code scope c) (hopens : c.Opens body) (h : R.Holds m.store) :
    (inChild scope fun frame => Eval.stmts limit fuel frame body).Keeps R m fun _ => True := by
  refine keeps_inChild h (R.frame_of_scope scope (R.scope_of_code scope c hcode)) ?_
  intro frame m' hnew hm'
  exact ih.stmts body (R.code_of_opens scope c body frame hcode hopens hnew) hm'

theorem keeps_callee (ih : Evaluations R limit fuel) (h : R.Holds m.store) {frame : FrameId}
    (hframe : R.frames frame) (callee : Name) {arguments : List Value}
    (harguments : ∀ v ∈ arguments, R.data v) (place : Span) :
    (do match ← ask fun σ => (σ.getLocal? frame callee.text).getD .null with
        | .function f => call limit fuel f arguments place
        | .native f => callNative f arguments place
        | other => fail (.mismatch .function other.typeName) callee.span : Eval Value).Keeps R m
      R.data := by
  refine keeps_ask ?_
  cases hv : m.store.getLocal? frame callee.text with
  | none => exact keeps_fail h _ _
  | some v =>
    have hbound := R.bound_of_getLocal? h hframe hv
    rw [Option.getD_some]
    cases v with
    | function f =>
      have hcallable := R.callable_of_bound frame _ f hframe hbound
      exact ih.call f arguments place hcallable h harguments
    | native f => exact keeps_callNative h f harguments place
    | _ => exact keeps_fail h _ _

theorem keeps_expr (ih : Evaluations R limit fuel) {scope : FrameId} (e : Expr)
    (hcode : R.code scope (.expr e)) (h : R.Holds m.store) :
    (expr limit (fuel + 1) scope e).Keeps R m R.data := by
  have hframe := R.frame_of_scope scope (R.scope_of_code scope _ hcode)
  have hoperand : ∀ x ∈ e.operands, R.code scope (.expr x) :=
    fun x hx => R.code_of_part scope _ _ hcode (.operand hx)
  unfold expr
  cases e with
  | literal value _ => exact keeps_pure h (R.data_scalar _ value.isScalar_toValue)
  | «variable» name => exact keeps_readVariable h hframe name
  | assign target value _ =>
    have hvalue := hoperand value (by simp [Expr.operands])
    apply (keeps_resolve h hframe target).bind
    rintro frame m' hm' ⟨hframe', hname⟩
    apply (ih.expr value hvalue hm'.holds).bind
    intro v m'' hm'' hv
    have hbound := R.bound_of_hasLocal hm''.holds hframe' ((hm'.trans hm'').hasLocal hname) hv
    apply (keeps_setLocal hm''.holds hframe' hbound hv).bind
    intro _ m₃ hm₃ _
    exact keeps_pure hm₃.holds hv
  | adjust target step _ => exact keeps_adjust h hframe target step
  | array items _ =>
    apply (ih.exprs items hoperand h).bind
    intro vs m' hm' hvs
    exact keeps_newArray hm'.holds hvs
  | arrayOfSize size place =>
    apply (ih.expr size (hoperand size (by simp [Expr.operands])) h).bind
    intro v m' hm' _
    exact keeps_newArrayOfSize hm'.holds _ place
  | struct fields _ =>
    apply (ih.fieldValues [] fields hoperand h (by simp)).bind
    intro entries m' hm' hentries
    exact keeps_newStruct hm'.holds hentries
  | index target index place =>
    have htarget := hoperand target (by simp [Expr.operands])
    have hindex := hoperand index (by simp [Expr.operands])
    apply (ih.expr target htarget h).bind
    intro t m' hm' ht
    apply (ih.expr index hindex hm'.holds).bind
    intro i m'' hm'' _
    exact keeps_readIndex hm''.holds ht _ place
  | assignIndex target index value place =>
    have htarget := hoperand target (by simp [Expr.operands])
    have hindex := hoperand index (by simp [Expr.operands])
    have hvalue := hoperand value (by simp [Expr.operands])
    apply (ih.expr target htarget h).bind
    intro t m' hm' ht
    apply (ih.expr index hindex hm'.holds).bind
    intro i m'' hm'' _
    apply (ih.expr value hvalue hm''.holds).bind
    intro v m₃ hm₃ hv
    exact keeps_writeIndex hm₃.holds ht _ hv place
  | member target member place =>
    apply (ih.expr target (hoperand target (by simp [Expr.operands])) h).bind
    intro t m' hm' ht
    exact keeps_readMember hm'.holds ht member place
  | assignMember target member value place =>
    have htarget := hoperand target (by simp [Expr.operands])
    have hvalue := hoperand value (by simp [Expr.operands])
    apply (ih.expr target htarget h).bind
    intro t m' hm' ht
    apply (ih.expr value hvalue hm'.holds).bind
    intro v m'' hm'' hv
    exact keeps_writeMember hm''.holds ht member hv place
  | binary op left right place =>
    have hleft := hoperand left (by simp [Expr.operands])
    have hright := hoperand right (by simp [Expr.operands])
    apply (ih.expr left hleft h).bind
    intro a m' hm' _
    apply (ih.expr right hright hm'.holds).bind
    intro b m'' hm'' _
    exact keeps_applyBinary hm''.holds op a b place
  | unary op operand _ =>
    apply (ih.expr operand (hoperand operand (by simp [Expr.operands])) h).bind
    intro v m' hm' _
    exact keeps_pure hm'.holds (R.data_scalar _ (op.isScalar_apply v))
  | call callee arguments place =>
    apply (keeps_resolve h hframe callee).bind
    rintro frame m' hm' ⟨hframe', -⟩
    apply (ih.exprs arguments hoperand hm'.holds).bind
    intro vs m'' hm'' hvs
    exact keeps_callee ih hm''.holds hframe' callee hvs place
  | paren inner _ => exact ih.expr inner (hoperand inner (by simp [Expr.operands])) h

theorem keeps_exprs (ih : Evaluations R limit fuel) {scope : FrameId} (es : List Expr)
    (hcode : ∀ e ∈ es, R.code scope (.expr e)) (h : R.Holds m.store) :
    (exprs limit (fuel + 1) scope es).Keeps R m fun vs => ∀ v ∈ vs, R.data v := by
  cases es with
  | nil => exact keeps_pure h (by simp)
  | cons e rest =>
    rw [List.forall_mem_cons] at hcode
    unfold exprs
    apply (ih.expr e hcode.1 h).bind
    intro v m' hm' hv
    apply (ih.exprs rest hcode.2 hm'.holds).bind
    intro vs m'' hm'' hvs
    exact keeps_pure hm''.holds (List.forall_mem_cons.mpr ⟨hv, hvs⟩)

theorem keeps_fieldValues (ih : Evaluations R limit fuel) {scope : FrameId}
    (entries : Entries Value) (fields : List (Name × Expr))
    (hcode : ∀ e ∈ fields.map Prod.snd, R.code scope (.expr e)) (h : R.Holds m.store)
    (hentries : ∀ entry ∈ entries, R.data entry.2) :
    (fieldValues limit (fuel + 1) scope entries fields).Keeps R m fun es =>
      ∀ entry ∈ es, R.data entry.2 := by
  cases fields with
  | nil => exact keeps_pure h hentries
  | cons field rest =>
    obtain ⟨name, e⟩ := field
    rw [List.map_cons, List.forall_mem_cons] at hcode
    unfold fieldValues
    apply (ih.expr e hcode.1 h).bind
    intro v m' hm' hv
    apply ih.fieldValues _ rest hcode.2 hm'.holds
    intro entry hentry
    rcases Entries.mem_put hentry with rfl | hentry
    · exact hv
    · exact hentries entry hentry

theorem keeps_activation (ih : Evaluations R limit fuel) (f : Closure) (place : Span)
    {arguments : List Value} {frame : FrameId} (hcallable : R.callable f)
    (hnew : R.firstFrame ≤ frame) (h : R.Holds m.store) (harguments : ∀ v ∈ arguments, R.data v) :
    (do bindParameters frame f.definition.params arguments
        asCall place (stmts limit fuel frame f.definition.body)).Keeps R m R.data := by
  apply (keeps_bindParameters _ arguments h hnew harguments).bind
  intro _ m' hm' _
  have hcode := R.code_of_callable f frame hcallable hnew
  exact keeps_asCall place (ih.stmts f.definition.body hcode hm'.holds)

theorem keeps_call (ih : Evaluations R limit fuel) (f : Closure) (arguments : List Value)
    (place : Span) (hcallable : R.callable f) (h : R.Holds m.store)
    (harguments : ∀ v ∈ arguments, R.data v) :
    (call limit (fuel + 1) f arguments place).Keeps R m R.data := by
  unfold call
  apply (keeps_checkCall h limit f place).bind
  intro _ m' hm' _
  apply keeps_inChild hm'.holds (R.frame_of_scope _ (R.scope_of_callable f hcallable))
  intro frame m'' hnew hm''
  exact keeps_activation ih f place hcallable hnew hm'' harguments

theorem keeps_optional (ih : Evaluations R limit fuel) {scope : FrameId} (value : Option Expr)
    (hcode : ∀ e, value = some e → R.code scope (.expr e)) (h : R.Holds m.store) :
    (optional limit (fuel + 1) scope value).Keeps R m R.data := by
  cases value with
  | none => exact keeps_pure h (R.data_scalar .null rfl)
  | some e => exact ih.expr e (hcode e rfl) h

theorem keeps_stmt (ih : Evaluations R limit fuel) {scope : FrameId} (s : Stmt)
    (hcode : R.code scope (.stmt s)) (h : R.Holds m.store) :
    (stmt limit (fuel + 1) scope s).Keeps R m fun _ => True := by
  have hframe := R.frame_of_scope scope (R.scope_of_code scope _ hcode)
  have hpart : ∀ {part}, Code.Part (.stmt s) part → R.code scope part :=
    R.code_of_part scope _ _ hcode
  have hoperand : ∀ e, s.operand? = some e → R.code scope (.expr e) :=
    fun e he => hpart (.evaluated he)
  unfold stmt
  cases s with
  | declare name init _ =>
    apply (ih.optional init hoperand h).bind
    intro v m' hm' hv
    exact keeps_declare hm'.holds hframe (R.bound_of_declare _ _ _ _ v hcode hv) hv
  | function name params body span => exact keeps_declareFunction h hcode
  | block body _ => exact ih.block hcode .block h
  | branch condition thenBranch elseBranch _ =>
    apply (ih.expr condition (hoperand condition rfl) h).bind
    intro v m' hm' _
    split
    · exact ih.stmt thenBranch (hpart .thenBranch) hm'.holds
    · cases elseBranch with
      | none => exact keeps_pure hm'.holds trivial
      | some other => exact ih.stmt other (hpart .elseBranch) hm'.holds
  | loop condition body _ =>
    exact ih.loop condition body (hoperand condition rfl) (hpart .pass) h
  | jump j place => exact keeps_signal h (by simp [Signal.value?])
  | transfer kind value place =>
    apply (ih.optional value hoperand h).bind
    intro v m' hm' hv
    apply keeps_signal hm'.holds
    intro w hw
    obtain rfl := Option.some.inj hw
    exact hv
  | attempt body _ param handler _ _ =>
    apply keeps_catching (ih.block hcode .attempt h)
    intro payload m' hm' hpayload
    apply keeps_inChild hm'.holds hframe
    intro frame m'' hnew hm''
    apply (keeps_declareThrown hm'' hnew param hpayload).bind
    intro _ m₃ hm₃ _
    exact ih.stmts handler (R.code_of_opens _ _ _ frame hcode .handler hnew) hm₃.holds
  | expression e _ =>
    apply (ih.expr e (hoperand e rfl) h).bind
    intro v m' hm' _
    exact keeps_pure hm'.holds trivial
  | empty _ => exact keeps_pure h trivial

theorem keeps_stmts (ih : Evaluations R limit fuel) {scope : FrameId} (body : List Stmt)
    (hcode : R.code scope (.stmts body)) (h : R.Holds m.store) :
    (stmts limit (fuel + 1) scope body).Keeps R m fun _ => True := by
  cases body with
  | nil => exact keeps_pure h trivial
  | cons s rest =>
    unfold stmts
    apply (ih.stmt s (R.code_of_part _ _ _ hcode .first) h).bind
    intro _ m' hm' _
    exact ih.stmts rest (R.code_of_part _ _ _ hcode .rest) hm'.holds

theorem keeps_loop (ih : Evaluations R limit fuel) {scope : FrameId} (condition : Expr)
    (body : Stmt) (hcondition : R.code scope (.expr condition)) (hbody : R.code scope (.stmt body))
    (h : R.Holds m.store) :
    (loop limit (fuel + 1) scope condition body).Keeps R m fun _ => True := by
  unfold loop
  apply (ih.expr condition hcondition h).bind
  intro v m' hm' _
  split
  · apply keeps_repeating (ih.stmt body hbody hm'.holds)
    intro m'' hm''
    exact ih.loop condition body hcondition hbody hm''.holds
  · exact keeps_pure hm'.holds trivial

theorem evaluations (R : Realm) (limit fuel : Nat) : Evaluations R limit fuel := by
  induction fuel with
  | zero =>
    exact {
      expr := fun _ _ h => keeps_exhausted h
      exprs := fun _ _ h => keeps_exhausted h
      fieldValues := fun _ _ _ h _ => keeps_exhausted h
      call := fun _ _ _ _ h _ => keeps_exhausted h
      stmt := fun _ _ h => keeps_exhausted h
      optional := fun _ _ h => keeps_exhausted h
      stmts := fun _ _ h => keeps_exhausted h
      loop := fun _ _ _ _ h => keeps_exhausted h
    }
  | succ fuel ih =>
    exact {
      expr := keeps_expr ih
      exprs := keeps_exprs ih
      fieldValues := keeps_fieldValues ih
      call := keeps_call ih
      stmt := keeps_stmt ih
      optional := keeps_optional ih
      stmts := keeps_stmts ih
      loop := keeps_loop ih
    }

theorem keeps_script (limit fuel : Nat) {scope : FrameId} (body : List Stmt)
    (hcode : R.code scope (.stmts body)) :
    ∀ {m : Machine} (last : Value), R.Holds m.store → R.data last →
      (script limit fuel scope last body).Keeps R m R.data := by
  have hall := evaluations R limit fuel
  induction body with
  | nil =>
    intro m last h hlast
    exact keeps_pure h hlast
  | cons s rest ih =>
    intro m last h _
    have hfirst := R.code_of_part _ _ _ hcode .first
    have hrest := R.code_of_part _ _ _ hcode .rest
    cases s with
    | expression e _ =>
      apply Keeps.bind (hall.expr e (R.code_of_part _ _ _ hfirst (.evaluated rfl)) h)
      intro v m' hm' hv
      exact ih hrest v hm'.holds hv
    | _ =>
      apply Keeps.bind (hall.stmt _ hfirst h)
      intro _ m' hm' _
      exact ih hrest .null hm'.holds (R.data_scalar .null rfl)

end Eval

end ScriptEngine
