import ScriptEngine.Proofs.Running.Evaluation
import ScriptEngine.Proofs.Running.Names
import ScriptEngine.Proofs.Running.Steps

/-!
Evaluations with more fuel. What comes to an end with some fuel comes to the same end with more; what
runs out of it goes on from there, and no array or struct that is there by then is lost. The induction
is on the smaller amount of fuel.
-/
namespace ScriptEngine

/-- The second outcome is the first one, or the first evaluation ran out of fuel on the way to it. -/
inductive Outcome.Prolonged {α : Type} : Outcome α → Outcome α → Prop where
  | same (outcome : Outcome α) : Prolonged outcome outcome
  | further {n outcome} (h : n.store.Retains outcome.machine.store) : Prolonged (.exhausted n) outcome

namespace Eval

variable {α β : Type} {limit fuel fuel' : Nat}

/-- Whatever comes of it, the evaluation takes no array or struct away and changes no shape. -/
def Retains (x : Eval α) : Prop := ∀ m : Machine, m.store.Retains (x m).machine.store

/-- The second evaluation does what the first one does, and goes on where that runs out of fuel. -/
structure Prolonged (x y : Eval α) : Prop where
  retains : y.Retains
  outcome : ∀ m, (x m).Prolonged (y m)

/-! Steps -/

theorem Keeps.retains {x : Eval α} {ok : Machine → α → Prop}
    (h : ∀ m, Realm.whole.Holds m.store → x.Keeps Realm.whole m (ok m)) : x.Retains :=
  fun m => (h m (Realm.whole_holds m.store)).settled_machine.shapes

theorem prolonged_of_retains {x : Eval α} (h : x.Retains) : x.Prolonged x :=
  ⟨h, fun _ => .same _⟩

theorem prolonged_pure (a : α) : (Pure.pure a : Eval α).Prolonged (Pure.pure a) :=
  prolonged_of_retains fun m => .refl m.store

theorem prolonged_ask (g : Store → α) : (ask g).Prolonged (ask g) :=
  prolonged_of_retains fun m => .refl m.store

theorem prolonged_fail (fault : RuntimeFault) (place : Span) :
    (fail fault place : Eval α).Prolonged (fail fault place) :=
  prolonged_of_retains fun m => .refl m.store

theorem prolonged_signal (s : Signal) : (signal s : Eval α).Prolonged (signal s) :=
  prolonged_of_retains fun m => .refl m.store

theorem prolonged_exhausted {y : Eval α} (h : y.Retains) : (exhausted : Eval α).Prolonged y :=
  ⟨h, fun m => .further (h m)⟩

theorem Prolonged.bind {x y : Eval α} {f g : α → Eval β} (h : x.Prolonged y)
    (hf : ∀ a, (f a).Prolonged (g a)) : (x >>= f).Prolonged (y >>= g) := by
  have hretains : (y >>= g).Retains ∧
      ∀ m, (y m).machine.store.Retains ((y >>= g) m).machine.store := by
    have hrest : ∀ m, (y m).machine.store.Retains ((y >>= g) m).machine.store := by
      intro m
      rw [bind_apply]
      cases y m with
      | done a n => exact (hf a).retains n
      | _ => exact .refl _
    exact ⟨fun m => (h.retains m).trans (hrest m), hrest⟩
  refine ⟨hretains.1, fun m => ?_⟩
  have hrest := hretains.2 m
  have hfirst := h.outcome m
  rw [bind_apply] at hrest ⊢
  rw [bind_apply]
  generalize x m = first, y m = second at hfirst hrest
  cases hfirst with
  | same =>
    cases first with
    | done a n => exact (hf a).outcome n
    | _ => exact .same _
  | further hn => exact .further (hn.trans hrest)

theorem Prolonged.inChild {parent : FrameId} {body body' : FrameId → Eval α}
    (h : ∀ frame, (body frame).Prolonged (body' frame)) :
    (inChild parent body).Prolonged (inChild parent body') := by
  have hcells : ∀ {σ : Store} {o : Outcome α} (frame : FrameId), σ.Retains o.machine.store →
      σ.Retains (o.mapMachine fun m => { m with store := m.store.dropFrame frame }).machine.store := by
    intro σ o frame ho
    rw [Outcome.machine_mapMachine]
    exact ho
  refine ⟨fun m => hcells _ ((h m.store.frames.size).retains (m.below parent)), fun m => ?_⟩
  have hbody := (h m.store.frames.size).outcome (m.below parent)
  change Outcome.Prolonged ((body m.store.frames.size (m.below parent)).mapMachine _)
    ((body' m.store.frames.size (m.below parent)).mapMachine _)
  generalize body m.store.frames.size (m.below parent) = first,
    body' m.store.frames.size (m.below parent) = second at hbody
  cases hbody with
  | same => exact .same _
  | further hn => exact .further (hcells _ hn)

theorem store_asCall (place : Span) (body : Eval Unit) (m : Machine) :
    (asCall place body m).machine.store = (body { m with depth := m.depth + 1 }).machine.store := by
  unfold asCall
  cases body { m with depth := m.depth + 1 } with
  | signalled s n =>
    cases s with
    | jump j at_ => rfl
    | transfer kind v at_ => cases kind <;> rfl
  | _ => rfl

theorem Prolonged.asCall {place : Span} {body body' : Eval Unit} (h : body.Prolonged body') :
    (asCall place body).Prolonged (asCall place body') := by
  refine ⟨fun m => ?_, fun m => ?_⟩
  · rw [store_asCall]
    exact h.retains { m with depth := m.depth + 1 }
  · have hbody := h.outcome { m with depth := m.depth + 1 }
    have hstore := store_asCall place body' m
    unfold Eval.asCall at hstore ⊢
    generalize body { m with depth := m.depth + 1 } = first,
      body' { m with depth := m.depth + 1 } = second at hbody hstore
    cases hbody with
    | same => exact .same _
    | further hn => exact .further (hstore ▸ hn)

theorem Prolonged.catching {body body' : Eval Unit} {handler handler' : Value → Eval Unit}
    (h : body.Prolonged body') (hhandler : ∀ v, (handler v).Prolonged (handler' v)) :
    (Eval.catching body handler).Prolonged (Eval.catching body' handler') := by
  have hrest : ∀ m, (body' m).machine.store.Retains (Eval.catching body' handler' m).machine.store := by
    intro m
    unfold Eval.catching
    cases body' m with
    | signalled s n =>
      cases s with
      | jump j at_ => exact .refl _
      | transfer kind v at_ =>
        cases kind with
        | throw => exact (hhandler v).retains n
        | _ => exact .refl _
    | _ => exact .refl _
  refine ⟨fun m => (h.retains m).trans (hrest m), fun m => ?_⟩
  have hbody := h.outcome m
  have hrest := hrest m
  unfold Eval.catching at hrest ⊢
  generalize body m = first, body' m = second at hbody hrest
  cases hbody with
  | same =>
    cases first with
    | signalled s n =>
      cases s with
      | jump j at_ => exact .same _
      | transfer kind v at_ =>
        cases kind with
        | throw => exact (hhandler v).outcome n
        | _ => exact .same _
    | _ => exact .same _
  | further hn => exact .further (hn.trans hrest)

theorem Prolonged.repeating {body body' again again' : Eval Unit} (h : body.Prolonged body')
    (hagain : again.Prolonged again') : (Eval.repeating body again).Prolonged (Eval.repeating body' again') := by
  have hrest : ∀ m, (body' m).machine.store.Retains (Eval.repeating body' again' m).machine.store := by
    intro m
    unfold Eval.repeating
    cases body' m with
    | done _ n => exact hagain.retains n
    | signalled s n =>
      cases s with
      | jump j at_ =>
        cases j with
        | «continue» => exact hagain.retains n
        | «break» => exact .refl _
      | transfer kind v at_ => exact .refl _
    | _ => exact .refl _
  refine ⟨fun m => (h.retains m).trans (hrest m), fun m => ?_⟩
  have hbody := h.outcome m
  have hrest := hrest m
  unfold Eval.repeating at hrest ⊢
  generalize body m = first, body' m = second at hbody hrest
  cases hbody with
  | same =>
    cases first with
    | done _ n => exact hagain.outcome n
    | signalled s n =>
      cases s with
      | jump j at_ =>
        cases j with
        | «continue» => exact hagain.outcome n
        | «break» => exact .same _
      | transfer kind v at_ => exact .same _
    | _ => exact .same _
  | further hn => exact .further (hn.trans hrest)

/-! Things that an evaluation does itself -/

theorem prolonged_of_keeps {x : Eval α} {ok : Machine → α → Prop}
    (h : ∀ m, Realm.whole.Holds m.store → x.Keeps Realm.whole m (ok m)) : x.Prolonged x :=
  prolonged_of_retains (Keeps.retains h)

theorem prolonged_resolve (scope : FrameId) (name : Name) :
    (resolve scope name).Prolonged (resolve scope name) :=
  prolonged_of_keeps fun _ h => keeps_resolve h trivial name

theorem prolonged_setLocal (frame : FrameId) (name : Name) (v : Value) :
    (setLocal frame name v).Prolonged (setLocal frame name v) :=
  prolonged_of_keeps fun _ h => keeps_setLocal h trivial trivial trivial

theorem prolonged_declare (frame : FrameId) (name : Name) (v : Value) :
    (declare frame name v).Prolonged (declare frame name v) :=
  prolonged_of_keeps fun _ h => keeps_declare h trivial trivial trivial

theorem prolonged_callee {frame : FrameId} {callee : Name} {vs : List Value} {place : Span}
    (hcall : ∀ f, (call limit fuel f vs place).Prolonged (call limit fuel' f vs place)) :
    (do match ← ask fun σ => (σ.getLocal? frame callee.text).getD .null with
        | .function f => call limit fuel f vs place
        | .native f => callNative f vs place
        | other => fail (.mismatch .function other.typeName) callee.span : Eval Value).Prolonged
    (do match ← ask fun σ => (σ.getLocal? frame callee.text).getD .null with
        | .function f => call limit fuel' f vs place
        | .native f => callNative f vs place
        | other => fail (.mismatch .function other.typeName) callee.span) := by
  refine (prolonged_ask _).bind fun found => ?_
  cases found with
  | function f => exact hcall f
  | native f => exact prolonged_of_keeps fun _ h => keeps_callNative h f (fun _ _ => trivial) place
  | _ => exact prolonged_fail _ _

/-! Evaluations -/

/-- With the second amount of fuel evaluations do what they do with the first, and go on. -/
structure Longer (limit fuel fuel' : Nat) : Prop where
  expr : ∀ scope e, (expr limit fuel scope e).Prolonged (expr limit fuel' scope e)
  exprs : ∀ scope es, (exprs limit fuel scope es).Prolonged (exprs limit fuel' scope es)
  fieldValues : ∀ scope entries fields, (fieldValues limit fuel scope entries fields).Prolonged
    (fieldValues limit fuel' scope entries fields)
  call : ∀ f arguments place,
    (call limit fuel f arguments place).Prolonged (call limit fuel' f arguments place)
  stmt : ∀ scope s, (stmt limit fuel scope s).Prolonged (stmt limit fuel' scope s)
  optional : ∀ scope value,
    (optional limit fuel scope value).Prolonged (optional limit fuel' scope value)
  stmts : ∀ scope body, (stmts limit fuel scope body).Prolonged (stmts limit fuel' scope body)
  loop : ∀ scope condition body,
    (loop limit fuel scope condition body).Prolonged (loop limit fuel' scope condition body)

namespace Longer

variable (ih : Longer limit fuel fuel')

include ih

theorem expr_succ (scope : FrameId) (e : Expr) :
    (Eval.expr limit (fuel + 1) scope e).Prolonged (Eval.expr limit (fuel' + 1) scope e) := by
  unfold Eval.expr
  cases e with
  | literal value _ => exact prolonged_pure _
  | «variable» name => exact prolonged_of_keeps fun _ h => keeps_readVariable h trivial name
  | assign target value _ =>
    refine (prolonged_resolve scope target).bind fun frame => (ih.expr scope value).bind fun v => ?_
    exact (prolonged_setLocal frame target v).bind fun _ => prolonged_pure v
  | adjust target step _ => exact prolonged_of_keeps fun _ h => keeps_adjust h trivial target step
  | array items _ =>
    refine (ih.exprs scope items).bind fun vs => ?_
    exact prolonged_of_keeps fun _ h => keeps_newArray h fun _ _ => trivial
  | arrayOfSize size place =>
    refine (ih.expr scope size).bind fun v => ?_
    exact prolonged_of_keeps fun _ h => keeps_newArrayOfSize h v.toInt32 place
  | struct fields _ =>
    refine (ih.fieldValues scope [] fields).bind fun entries => ?_
    exact prolonged_of_keeps fun _ h => keeps_newStruct h fun _ _ => trivial
  | index target index place =>
    refine (ih.expr scope target).bind fun t => (ih.expr scope index).bind fun i => ?_
    exact prolonged_of_keeps fun _ h => keeps_readIndex h trivial i.toInt32 place
  | assignIndex target index value place =>
    refine (ih.expr scope target).bind fun t => (ih.expr scope index).bind fun i => ?_
    refine (ih.expr scope value).bind fun v => ?_
    exact prolonged_of_keeps fun _ h =>
      keeps_writeIndex h (trivial : Realm.whole.data t) i.toInt32 trivial place
  | member target member place =>
    refine (ih.expr scope target).bind fun t => ?_
    exact prolonged_of_keeps fun _ h => keeps_readMember h (trivial : Realm.whole.data t) member place
  | assignMember target member value place =>
    refine (ih.expr scope target).bind fun t => (ih.expr scope value).bind fun v => ?_
    exact prolonged_of_keeps fun _ h => keeps_writeMember h (trivial : Realm.whole.data t) member trivial place
  | binary op left right place =>
    refine (ih.expr scope left).bind fun a => (ih.expr scope right).bind fun b => ?_
    exact prolonged_of_keeps fun _ h => keeps_applyBinary h op a b place
  | unary op operand _ => exact (ih.expr scope operand).bind fun v => prolonged_pure _
  | call callee arguments place =>
    refine (prolonged_resolve scope callee).bind fun frame => ?_
    refine (ih.exprs scope arguments).bind fun vs => ?_
    exact prolonged_callee fun f => ih.call f vs place
  | paren inner _ => exact ih.expr scope inner

theorem exprs_succ (scope : FrameId) (es : List Expr) :
    (Eval.exprs limit (fuel + 1) scope es).Prolonged (Eval.exprs limit (fuel' + 1) scope es) := by
  cases es with
  | nil => exact prolonged_pure _
  | cons e rest =>
    exact (ih.expr scope e).bind fun v => (ih.exprs scope rest).bind fun vs => prolonged_pure _

theorem fieldValues_succ (scope : FrameId) (entries : Entries Value) (fields : List (Name × Expr)) :
    (Eval.fieldValues limit (fuel + 1) scope entries fields).Prolonged
      (Eval.fieldValues limit (fuel' + 1) scope entries fields) := by
  cases fields with
  | nil => exact prolonged_pure _
  | cons field rest => exact (ih.expr scope field.2).bind fun v => ih.fieldValues scope _ rest

theorem call_succ (f : Closure) (arguments : List Value) (place : Span) :
    (Eval.call limit (fuel + 1) f arguments place).Prolonged
      (Eval.call limit (fuel' + 1) f arguments place) := by
  unfold Eval.call
  refine (prolonged_of_keeps fun _ h => keeps_checkCall h limit f place).bind fun _ => ?_
  refine .inChild fun frame => ?_
  refine Prolonged.bind (prolonged_of_retains fun m => ?_) fun _ => (ih.stmts frame _).asCall
  exact (keeps_bindParameters (R := Realm.whole) _ arguments (Realm.whole_holds m.store)
    (Nat.zero_le frame) fun _ _ => trivial).settled_machine.shapes

theorem optional_succ (scope : FrameId) (value : Option Expr) :
    (Eval.optional limit (fuel + 1) scope value).Prolonged
      (Eval.optional limit (fuel' + 1) scope value) := by
  cases value with
  | none => exact prolonged_pure _
  | some e => exact ih.expr scope e

theorem stmt_succ (scope : FrameId) (s : Stmt) :
    (Eval.stmt limit (fuel + 1) scope s).Prolonged (Eval.stmt limit (fuel' + 1) scope s) := by
  unfold Eval.stmt
  cases s with
  | declare name init _ =>
    exact (ih.optional scope init).bind fun v => prolonged_declare scope name v
  | function name params body span =>
    exact prolonged_of_keeps fun _ h => keeps_declareFunction h trivial
  | block body _ => exact .inChild fun frame => ih.stmts frame body
  | branch condition thenBranch elseBranch _ =>
    refine (ih.expr scope condition).bind fun v => ?_
    split
    · exact ih.stmt scope thenBranch
    · cases elseBranch with
      | none => exact prolonged_pure ()
      | some other => exact ih.stmt scope other
  | loop condition body _ => exact ih.loop scope condition body
  | jump j place => exact prolonged_signal _
  | transfer kind value place => exact (ih.optional scope value).bind fun v => prolonged_signal _
  | attempt body _ param handler _ _ =>
    refine Prolonged.catching (.inChild fun frame => ih.stmts frame body) fun payload => ?_
    refine .inChild fun frame => Prolonged.bind ?_ fun _ => ih.stmts frame handler
    exact prolonged_of_keeps fun _ h => keeps_declareThrown h (Nat.zero_le frame) param trivial
  | expression e _ => exact (ih.expr scope e).bind fun _ => prolonged_pure ()
  | empty _ => exact prolonged_pure ()

theorem stmts_succ (scope : FrameId) (body : List Stmt) :
    (Eval.stmts limit (fuel + 1) scope body).Prolonged (Eval.stmts limit (fuel' + 1) scope body) := by
  cases body with
  | nil => exact prolonged_pure ()
  | cons s rest => exact (ih.stmt scope s).bind fun _ => ih.stmts scope rest

theorem loop_succ (scope : FrameId) (condition : Expr) (body : Stmt) :
    (Eval.loop limit (fuel + 1) scope condition body).Prolonged
      (Eval.loop limit (fuel' + 1) scope condition body) := by
  unfold Eval.loop
  refine (ih.expr scope condition).bind fun v => ?_
  split
  · exact (ih.stmt scope body).repeating (ih.loop scope condition body)
  · exact prolonged_pure ()

end Longer

theorem longer (limit : Nat) {fuel fuel' : Nat} (h : fuel ≤ fuel') : Longer limit fuel fuel' := by
  induction fuel generalizing fuel' with
  | zero =>
    have hall := evaluations Realm.whole limit fuel'
    exact {
      expr := fun _ e => prolonged_exhausted (Keeps.retains fun _ => hall.expr e trivial)
      exprs := fun _ es =>
        prolonged_exhausted (Keeps.retains fun _ => hall.exprs es fun _ _ => trivial)
      fieldValues := fun _ entries fields => prolonged_exhausted (Keeps.retains fun _ hm =>
        hall.fieldValues entries fields (fun _ _ => trivial) hm fun _ _ => trivial)
      call := fun f arguments place => prolonged_exhausted (Keeps.retains fun _ hm =>
        hall.call f arguments place trivial hm fun _ _ => trivial)
      stmt := fun _ s => prolonged_exhausted (Keeps.retains fun _ => hall.stmt s trivial)
      optional := fun _ value =>
        prolonged_exhausted (Keeps.retains fun _ => hall.optional value fun _ _ => trivial)
      stmts := fun _ body => prolonged_exhausted (Keeps.retains fun _ => hall.stmts body trivial)
      loop := fun _ condition body =>
        prolonged_exhausted (Keeps.retains fun _ => hall.loop condition body trivial trivial)
    }
  | succ fuel ih =>
    obtain ⟨fuel', rfl⟩ := Nat.exists_eq_add_one_of_ne_zero (Nat.ne_of_gt (Nat.lt_of_lt_of_le
      (Nat.succ_pos fuel) h))
    have ih := ih (Nat.le_of_succ_le_succ h)
    exact {
      expr := ih.expr_succ
      exprs := ih.exprs_succ
      fieldValues := ih.fieldValues_succ
      call := ih.call_succ
      stmt := ih.stmt_succ
      optional := ih.optional_succ
      stmts := ih.stmts_succ
      loop := ih.loop_succ
    }

end Eval

end ScriptEngine
