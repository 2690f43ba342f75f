import ScriptEngine.Proofs.Running.Moments
import ScriptEngine.Proofs.Running.Steps

/-!
What is said of evaluations and composed along with them. Most of what an evaluation does itself is to
look at the store; it changes the store at few places, and leaves the rest to the evaluations inside it.
When something holds of these few steps and is passed on by what stands around the evaluations inside,
it holds of all evaluations, and of a run.
-/
namespace ScriptEngine

namespace Eval

variable {α β : Type}

/-- The evaluation looks at the store and leaves the machine as it is. -/
def Inspects (x : Eval α) : Prop :=
  ∀ σ, (∃ a, ∀ m : Machine, m.store = σ → x m = .done a m) ∨
    ∃ fault place, RuntimeFault.isOfCall fault = false ∧
      ∀ m : Machine, m.store = σ → x m = .failed fault place m

theorem Inspects.eq_of_done {x : Eval α} (h : x.Inspects) {a : α} {m n : Machine}
    (hx : x m = .done a n) : n = m := by
  rcases h m.store with ⟨b, hdone⟩ | ⟨fault, place, -, hfailed⟩
  · exact (Outcome.done.inj (hx.symm.trans (hdone m rfl))).2
  · exact absurd (hx.symm.trans (hfailed m rfl)) (by simp)

theorem inspects_ask (g : Store → α) : (ask g).Inspects :=
  fun σ => Or.inl ⟨g σ, by rintro m rfl; rfl⟩

theorem inspects_pure (a : α) : (Pure.pure a : Eval α).Inspects := inspects_ask fun _ => a

theorem inspects_fail {fault : RuntimeFault} (hfault : fault.isOfCall = false) (place : Span) :
    (fail fault place : Eval α).Inspects :=
  fun _ => Or.inr ⟨fault, place, hfault, fun _ _ => rfl⟩

theorem Inspects.bind {x : Eval α} {f : α → Eval β} (h : x.Inspects) (hf : ∀ a, (f a).Inspects) :
    (x >>= f).Inspects := by
  intro σ
  rcases h σ with ⟨a, hdone⟩ | ⟨fault, place, hfault, hfailed⟩
  · rcases hf a σ with ⟨b, hdone'⟩ | ⟨fault, place, hfault, hfailed⟩
    · refine Or.inl ⟨b, fun m hm => ?_⟩
      rw [bind_apply, hdone m hm]
      exact hdone' m hm
    · refine Or.inr ⟨fault, place, hfault, fun m hm => ?_⟩
      rw [bind_apply, hdone m hm]
      exact hfailed m hm
  · refine Or.inr ⟨fault, place, hfault, fun m hm => ?_⟩
    rw [bind_apply, hfailed m hm]

theorem inspects_resolve (scope : FrameId) (name : Name) : (resolve scope name).Inspects := by
  intro σ
  cases hfound : σ.resolve scope name.text with
  | some frame =>
    refine Or.inl ⟨frame, ?_⟩
    rintro m rfl
    unfold resolve
    rw [hfound]
  | none =>
    refine Or.inr ⟨.scope (.notDeclared name.text), name.span, rfl, ?_⟩
    rintro m rfl
    unfold resolve
    rw [hfound]

theorem inspects_readVariable (scope : FrameId) (name : Name) :
    (readVariable scope name).Inspects := by
  intro σ
  cases hread : σ.read scope name.text with
  | error fault =>
    refine Or.inr ⟨.scope fault, name.span, rfl, ?_⟩
    rintro m rfl
    unfold readVariable
    rw [hread]
  | ok v =>
    cases hcallable : v.isCallable with
    | true =>
      refine Or.inr ⟨.functionAsValue, name.span, rfl, ?_⟩
      rintro m rfl
      unfold readVariable
      rw [hread]
      exact if_pos hcallable
    | false =>
      refine Or.inl ⟨v, ?_⟩
      rintro m rfl
      unfold readVariable
      rw [hread]
      exact if_neg (by simp [hcallable])

theorem inspects_position (index : Int32) (length : Nat) (place : Span) :
    (position index length place).Inspects := by
  unfold position
  split
  · exact inspects_pure _
  · exact inspects_fail rfl place

theorem inspects_readIndex (target : Value) (index : Int32) (place : Span) :
    (readIndex target index place).Inspects := by
  cases target with
  | array cell =>
    exact (inspects_ask _).bind fun items =>
      (inspects_position index _ place).bind fun i => inspects_pure _
  | string text => exact (inspects_position index _ place).bind fun i => inspects_pure _
  | _ => exact inspects_fail rfl place

theorem inspects_readMember (target : Value) (member : Name) (place : Span) :
    (readMember target member place).Inspects := by
  cases target with
  | struct cell =>
    refine (inspects_ask _).bind fun found => ?_
    cases found with
    | none => exact inspects_fail rfl _
    | some v => exact inspects_pure v
  | _ => exact inspects_fail rfl place

theorem inspects_applyBinary (op : BinaryOp) (a b : Value) (place : Span) :
    (applyBinary op a b place).Inspects := by
  intro σ
  cases happly : op.apply σ a b with
  | ok v =>
    refine Or.inl ⟨v, ?_⟩
    rintro m rfl
    unfold applyBinary
    rw [happly]
  | error fault =>
    refine Or.inr ⟨.arithmetic fault, place, rfl, ?_⟩
    rintro m rfl
    unfold applyBinary
    rw [happly]

/-- What is said of evaluations, each with the machine that it begins on, is composed along with them:
it holds of each thing that an evaluation does itself, at such moments, and of the whole when it holds
of the parts that come about. -/
structure Composed (limit : Nat) (At : Moment → Prop) (P : {α : Type} → Eval α → Machine → Prop) :
    Prop where
  inward : Moment.Inward limit At
  exhausted : ∀ {α m}, P (Eval.exhausted : Eval α) m
  signal : ∀ {α m} s, P (Eval.signal s : Eval α) m
  inspects : ∀ {α m} {x : Eval α}, x.Inspects → P x m
  adds : ∀ {α m} {f : Store → α × Store}, (∀ σ, (f σ).2.frames = σ.frames) → P (Eval.add f) m
  assigned : ∀ {scope name value span m frame}, At ⟨.expr scope (.assign name value span), m⟩ →
    m.store.resolve scope name.text = some frame → ∀ v n, P (setLocal frame name v) n
  adjusted : ∀ {scope name step span m frame}, At ⟨.expr scope (.adjust name step span), m⟩ →
    m.store.resolve scope name.text = some frame → ∀ v n, P (setLocal frame name v) n
  declared : ∀ {scope s m}, At ⟨.stmt scope s, m⟩ → ∀ name v n, P (setLocal scope name v) n
  passed : ∀ {f arguments place m}, At ⟨.call f arguments place, m⟩ →
    ∀ name v n, P (setLocal m.store.frames.size name v) n
  caught : ∀ {scope body bodySpan param handler handlerSpan span m fuel payload place n},
    At ⟨.stmt scope (.attempt body bodySpan param handler handlerSpan span), m⟩ →
    P (inChild scope fun frame => stmts limit fuel frame body) m →
    inChild scope (fun frame => stmts limit fuel frame body) m =
      .signalled (.transfer .throw payload place) n →
    ∀ name v k, P (setLocal n.store.frames.size name v) k
  admits : ∀ {f arguments place m}, At ⟨.call f arguments place, m⟩ → P (checkCall limit f place) m
  native : ∀ {f arguments place m}, At ⟨.native f arguments place, m⟩ →
    P (callNative f arguments place) m
  bind : ∀ {α β m} {x : Eval α} {f : α → Eval β}, P x m →
    (∀ a n, x m = .done a n → P (f a) n) → P (x >>= f) m
  inChild : ∀ {α m parent} {body : FrameId → Eval α},
    P (body m.store.frames.size) (m.below parent) → P (inChild parent body) m
  /-- The body of a call runs one call deeper, in a frame with the parameters. -/
  asCall : ∀ {f arguments place m n fuel}, At ⟨.call f arguments place, m⟩ →
    checkCall limit f place m = .done () m →
    bindParameters m.store.frames.size f.definition.params arguments (m.below f.home) = .done () n →
    P (stmts limit fuel m.store.frames.size f.definition.body) { n with depth := n.depth + 1 } →
    P (asCall place (stmts limit fuel m.store.frames.size f.definition.body)) n
  catching : ∀ {m} {body : Eval Unit} {handler : Value → Eval Unit}, P body m →
    (∀ payload place n, body m = .signalled (.transfer .throw payload place) n →
      P (handler payload) n) → P (catching body handler) m
  repeating : ∀ {m} {body again : Eval Unit}, P body m →
    (∀ n, (body m = .done () n ∨ ∃ place, body m = .signalled (.jump .continue place) n) →
      P again n) → P (repeating body again) m

/-- With so much fuel it holds of all evaluations at such moments. -/
structure Holding (limit : Nat) (At : Moment → Prop) (P : {α : Type} → Eval α → Machine → Prop)
    (fuel : Nat) : Prop where
  expr : ∀ scope e m, At ⟨.expr scope e, m⟩ → P (expr limit fuel scope e) m
  exprs : ∀ scope es m, Moment.InTurn limit At scope es m → P (exprs limit fuel scope es) m
  fieldValues : ∀ scope entries fields m, Moment.InTurn limit At scope (fields.map Prod.snd) m →
    P (fieldValues limit fuel scope entries fields) m
  call : ∀ f arguments place m, At ⟨.call f arguments place, m⟩ →
    P (call limit fuel f arguments place) m
  stmt : ∀ scope s m, At ⟨.stmt scope s, m⟩ → P (stmt limit fuel scope s) m
  optional : ∀ scope value m, (∀ e, value = some e → At ⟨.expr scope e, m⟩) →
    P (optional limit fuel scope value) m
  stmts : ∀ scope body m, At ⟨.stmts scope body, m⟩ → P (stmts limit fuel scope body) m
  loop : ∀ scope condition body span m, At ⟨.stmt scope (.loop condition body span), m⟩ →
    P (loop limit fuel scope condition body) m

namespace Composed

variable {limit fuel : Nat} {At : Moment → Prop} {P : {α : Type} → Eval α → Machine → Prop}
  {m : Machine}

/-! Things that an evaluation does itself -/

theorem pure (h : Composed limit At P) (a : α) : P (Pure.pure a : Eval α) m :=
  h.inspects (inspects_pure a)

/-- Nothing changes while the store is looked at. -/
theorem inspect (h : Composed limit At P) {x : Eval α} {f : α → Eval β} (hx : x.Inspects)
    (hf : ∀ a, x m = .done a m → P (f a) m) : P (x >>= f) m := by
  refine h.bind (h.inspects hx) fun a n ha => ?_
  obtain rfl := hx.eq_of_done ha
  exact hf a ha

theorem declare (h : Composed limit At P) {frame : FrameId} {name : Name} {v : Value}
    (hset : P (setLocal frame name v) m) : P (declare frame name v) m := by
  refine h.inspect (inspects_ask _) fun taken _ => ?_
  split
  · exact h.inspects (inspects_fail rfl _)
  · exact hset

theorem declareThrown (h : Composed limit At P) {frame : FrameId} {param : Option Name}
    {payload : Value} (hset : ∀ name, P (setLocal frame name payload) m) :
    P (declareThrown frame param payload) m := by
  cases param with
  | none => exact h.pure ()
  | some name => exact h.declare (hset name)

theorem bindParameters (h : Composed limit At P) {frame : FrameId}
    (hset : ∀ name v n, P (setLocal frame name v) n) (params : List Name) :
    ∀ (arguments : List Value) (m : Machine), P (bindParameters frame params arguments) m := by
  induction params with
  | nil => exact fun _ _ => h.pure ()
  | cons param params ih =>
    exact fun arguments m => h.bind (hset param _ m) fun _ n _ => ih arguments.tail n

theorem adjust (h : Composed limit At P) {scope : FrameId} {name : Name} {step : Step} {span : Span}
    (hM : At ⟨.expr scope (.adjust name step span), m⟩) : P (adjust scope name step) m := by
  refine h.inspect (inspects_readVariable scope name) fun old _ => ?_
  refine h.bind ?_ fun _ _ _ => h.pure old
  refine h.inspect (inspects_resolve scope name) fun frame hframe => ?_
  obtain ⟨hframe, -⟩ := resolve_eq_done hframe
  exact h.adjusted hM hframe _ m

theorem newArrayOfSize (h : Composed limit At P) (size : Int32) (place : Span) :
    P (newArrayOfSize size place) m := by
  unfold Eval.newArrayOfSize
  split
  · exact h.inspects (inspects_fail rfl place)
  · exact h.adds fun _ => rfl

theorem writeIndex (h : Composed limit At P) (target : Value) (index : Int32) (v : Value)
    (place : Span) : P (writeIndex target index v place) m := by
  cases target with
  | array cell =>
    refine h.inspect (inspects_ask _) fun size _ => ?_
    refine h.inspect (inspects_position index _ place) fun i _ => ?_
    exact h.bind (h.adds (f := fun σ => ((), σ.setItem cell i v)) fun _ => rfl) fun _ _ _ => h.pure v
  | _ => exact h.inspects (inspects_fail rfl place)

theorem writeMember (h : Composed limit At P) (target : Value) (member : Name) (v : Value)
    (place : Span) : P (writeMember target member v place) m := by
  cases target with
  | struct cell =>
    refine h.inspect (inspects_ask _) fun present _ => ?_
    cases present with
    | true =>
      refine h.bind (h.adds (f := fun σ => ((), σ.setField cell member.text v)) fun _ => rfl) ?_
      exact fun _ _ _ => h.pure v
    | false => exact h.inspects (inspects_fail rfl _)
  | _ => exact h.inspects (inspects_fail rfl place)

/-! Evaluations -/

theorem operand (h : Composed limit At P) (ih : Holding limit At P fuel) {scope : FrameId} {x : Expr}
    {rest : List Expr} {f : Value → Eval α} (hturn : Moment.InTurn limit At scope (x :: rest) m)
    (hf : ∀ v n, Moment.InTurn limit At scope rest n → P (f v) n) :
    P (Eval.expr limit fuel scope x >>= f) m :=
  h.bind (ih.expr scope x m hturn.head) fun v n hv => hf v n (hturn.tail hv)

theorem callee (h : Composed limit At P) (ih : Holding limit At P fuel) {scope frame : FrameId}
    {callee : Name} {arguments : List Expr} {place : Span} {vs : List Value} {n : Machine}
    (hM : At ⟨.expr scope (.call callee arguments place), m⟩)
    (hframe : m.store.resolve scope callee.text = some frame)
    (harguments : Eval.exprs limit fuel scope arguments m = .done vs n) :
    P (do match ← ask fun σ => (σ.getLocal? frame callee.text).getD .null with
        | .function f => Eval.call limit fuel f vs place
        | .native f => callNative f vs place
        | other => fail (.mismatch .function other.typeName) callee.span : Eval Value) n := by
  refine h.inspect (inspects_ask _) fun found hfound => ?_
  have hfound : (n.store.getLocal? frame callee.text).getD .null = found :=
    (Outcome.done.inj hfound).1
  cases hlocal : n.store.getLocal? frame callee.text with
  | none =>
    rw [hlocal] at hfound
    subst hfound
    exact h.inspects (inspects_fail rfl _)
  | some v =>
    rw [hlocal, Option.getD_some] at hfound
    subst hfound
    cases v with
    | function f => exact ih.call f vs place n (h.inward _ _ hM (.call fuel hframe harguments hlocal))
    | native f => exact h.native (h.inward _ _ hM (.native fuel hframe harguments hlocal))
    | _ => exact h.inspects (inspects_fail rfl _)

theorem expr (h : Composed limit At P) (ih : Holding limit At P fuel) (scope : FrameId) (e : Expr)
    (m : Machine) (hM : At ⟨.expr scope e, m⟩) : P (Eval.expr limit (fuel + 1) scope e) m := by
  have hoperands := fun hsubject => h.inward.operands hM hsubject
  unfold Eval.expr
  cases e with
  | literal value _ => exact h.pure _
  | «variable» name => exact h.inspects (inspects_readVariable scope name)
  | assign target value span =>
    refine h.inspect (inspects_resolve scope target) fun frame hframe => ?_
    obtain ⟨hframe, -⟩ := resolve_eq_done hframe
    refine h.operand ih (hoperands ?_) fun v n _ => ?_
    · simp [Expr.subject?, hframe]
    · exact h.bind (h.assigned hM hframe v n) fun _ _ _ => h.pure v
  | adjust target step span => exact h.adjust hM
  | array items _ =>
    refine h.bind (ih.exprs scope items m (hoperands (by simp [Expr.subject?]))) fun vs n _ => ?_
    exact h.adds fun _ => rfl
  | arrayOfSize size place =>
    refine h.operand ih (hoperands (by simp [Expr.subject?])) fun v n _ => ?_
    exact h.newArrayOfSize v.toInt32 place
  | struct fields _ =>
    have hfields := ih.fieldValues scope [] fields m (hoperands (by simp [Expr.subject?]))
    exact h.bind hfields fun entries n _ => h.adds fun _ => rfl
  | index target index place =>
    refine h.operand ih (hoperands (by simp [Expr.subject?])) fun t n hn => ?_
    exact h.operand ih hn fun i n' _ => h.inspects (inspects_readIndex t i.toInt32 place)
  | assignIndex target index value place =>
    refine h.operand ih (hoperands (by simp [Expr.subject?])) fun t n hn => ?_
    refine h.operand ih hn fun i n' hn' => h.operand ih hn' fun v n'' _ => ?_
    exact h.writeIndex t i.toInt32 v place
  | member target member place =>
    refine h.operand ih (hoperands (by simp [Expr.subject?])) fun t n _ => ?_
    exact h.inspects (inspects_readMember t member place)
  | assignMember target member value place =>
    refine h.operand ih (hoperands (by simp [Expr.subject?])) fun t n hn => ?_
    exact h.operand ih hn fun v n' _ => h.writeMember t member v place
  | binary op left right place =>
    refine h.operand ih (hoperands (by simp [Expr.subject?])) fun a n hn => ?_
    exact h.operand ih hn fun b n' _ => h.inspects (inspects_applyBinary op a b place)
  | unary op operand _ =>
    exact h.operand ih (hoperands (by simp [Expr.subject?])) fun v n _ => h.pure _
  | call callee arguments place =>
    refine h.inspect (inspects_resolve scope callee) fun frame hframe => ?_
    obtain ⟨hframe, -⟩ := resolve_eq_done hframe
    have harguments := ih.exprs scope arguments m (hoperands (by simp [Expr.subject?, hframe]))
    exact h.bind harguments fun vs n hvs => h.callee ih hM hframe hvs
  | paren inner _ => exact ih.expr scope inner m (hoperands (by simp [Expr.subject?])).head

theorem exprs (h : Composed limit At P) (ih : Holding limit At P fuel) (scope : FrameId)
    (es : List Expr) (m : Machine) (hturn : Moment.InTurn limit At scope es m) :
    P (Eval.exprs limit (fuel + 1) scope es) m := by
  cases es with
  | nil => exact h.pure _
  | cons e rest =>
    refine h.operand ih hturn fun v n hn => h.bind (ih.exprs scope rest n hn) fun vs n' _ => ?_
    exact h.pure _

theorem fieldValues (h : Composed limit At P) (ih : Holding limit At P fuel) (scope : FrameId)
    (entries : Entries Value) (fields : List (Name × Expr)) (m : Machine)
    (hturn : Moment.InTurn limit At scope (fields.map Prod.snd) m) :
    P (Eval.fieldValues limit (fuel + 1) scope entries fields) m := by
  cases fields with
  | nil => exact h.pure _
  | cons field rest => exact h.operand ih hturn fun v n hn => ih.fieldValues scope _ rest n hn

theorem call (h : Composed limit At P) (ih : Holding limit At P fuel) (f : Closure)
    (arguments : List Value) (place : Span) (m : Machine) (hM : At ⟨.call f arguments place, m⟩) :
    P (Eval.call limit (fuel + 1) f arguments place) m := by
  refine h.bind (h.admits hM) fun _ m' hcheck => ?_
  obtain ⟨-, rfl⟩ := checkCall_eq_done hcheck
  refine h.inChild (h.bind (h.bindParameters (h.passed hM) _ arguments _) fun _ n hbind => ?_)
  exact h.asCall hM hcheck hbind (ih.stmts _ _ _ (h.inward _ _ hM (.activation hcheck hbind)))

theorem optional (h : Composed limit At P) (ih : Holding limit At P fuel) (scope : FrameId)
    (value : Option Expr) (m : Machine) (hM : ∀ e, value = some e → At ⟨.expr scope e, m⟩) :
    P (Eval.optional limit (fuel + 1) scope value) m := by
  cases value with
  | none => exact h.pure _
  | some e => exact ih.expr scope e m (hM e rfl)

theorem stmt (h : Composed limit At P) (ih : Holding limit At P fuel) (scope : FrameId) (s : Stmt)
    (m : Machine) (hM : At ⟨.stmt scope s, m⟩) : P (Eval.stmt limit (fuel + 1) scope s) m := by
  have hpart : ∀ e, s.operand? = some e → At ⟨.expr scope e, m⟩ :=
    fun e he => h.inward _ _ hM (.part he)
  have hset := h.declared hM
  unfold Eval.stmt
  cases s with
  | declare name init _ =>
    exact h.bind (ih.optional scope init m hpart) fun v n _ => h.declare (hset name v n)
  | function name params body span =>
    exact h.bind (h.adds fun _ => rfl) fun identity n _ => h.declare (hset name _ n)
  | block body _ => exact h.inChild (ih.stmts _ body _ (h.inward _ _ hM .block))
  | branch condition thenBranch elseBranch _ =>
    refine h.bind (ih.expr scope condition m (hpart _ rfl)) fun v n hcondition => ?_
    split
    · rename_i htruth
      exact ih.stmt scope thenBranch n (h.inward _ _ hM (.branch fuel hcondition (if_pos htruth)))
    · rename_i htruth
      cases elseBranch with
      | none => exact h.pure ()
      | some other =>
        exact ih.stmt scope other n (h.inward _ _ hM (.branch fuel hcondition (if_neg htruth)))
  | loop condition body span => exact ih.loop scope condition body span m hM
  | jump j place => exact h.signal _
  | transfer kind value place =>
    exact h.bind (ih.optional scope value m hpart) fun v n _ => h.signal _
  | attempt body _ param handler _ _ =>
    have hbody : P (Eval.inChild scope fun frame => Eval.stmts limit fuel frame body) m :=
      h.inChild (ih.stmts _ body _ (h.inward _ _ hM .attempt))
    refine h.catching hbody fun payload place n hthrown => h.inChild ?_
    have hparam := h.caught hM hbody hthrown
    refine h.bind (h.declareThrown fun name => hparam name _ _) fun _ n' hdeclared => ?_
    exact ih.stmts _ handler n' (h.inward _ _ hM (.handler fuel hthrown hdeclared))
  | expression e _ => exact h.bind (ih.expr scope e m (hpart e rfl)) fun v n _ => h.pure ()
  | empty _ => exact h.pure ()

theorem stmts (h : Composed limit At P) (ih : Holding limit At P fuel) (scope : FrameId)
    (body : List Stmt) (m : Machine) (hM : At ⟨.stmts scope body, m⟩) :
    P (Eval.stmts limit (fuel + 1) scope body) m := by
  cases body with
  | nil => exact h.pure ()
  | cons s rest =>
    refine h.bind (ih.stmt scope s m (h.inward _ _ hM .first)) fun _ n hfirst => ?_
    exact ih.stmts scope rest n (h.inward _ _ hM (.rest fuel hfirst))

theorem loop (h : Composed limit At P) (ih : Holding limit At P fuel) (scope : FrameId)
    (condition : Expr) (body : Stmt) (span : Span) (m : Machine)
    (hM : At ⟨.stmt scope (.loop condition body span), m⟩) :
    P (Eval.loop limit (fuel + 1) scope condition body) m := by
  refine h.bind (ih.expr scope condition m (h.inward _ _ hM (.part rfl))) fun v n hcondition => ?_
  split
  · rename_i htruth
    refine h.repeating ?_ fun n' hbody => ?_
    · exact ih.stmt scope body n (h.inward _ _ hM (.pass fuel hcondition htruth))
    · exact ih.loop scope condition body span n'
        (h.inward _ _ hM (.again fuel hcondition htruth hbody))
  · exact h.pure ()

theorem holding (h : Composed limit At P) (fuel : Nat) : Holding limit At P fuel := by
  induction fuel with
  | zero =>
    exact {
      expr := fun _ _ _ _ => h.exhausted
      exprs := fun _ _ _ _ => h.exhausted
      fieldValues := fun _ _ _ _ _ => h.exhausted
      call := fun _ _ _ _ _ => h.exhausted
      stmt := fun _ _ _ _ => h.exhausted
      optional := fun _ _ _ _ => h.exhausted
      stmts := fun _ _ _ _ => h.exhausted
      loop := fun _ _ _ _ _ _ => h.exhausted
    }
  | succ fuel ih =>
    exact {
      expr := h.expr ih
      exprs := h.exprs ih
      fieldValues := h.fieldValues ih
      call := h.call ih
      stmt := h.stmt ih
      optional := h.optional ih
      stmts := h.stmts ih
      loop := h.loop ih
    }

/-- It holds of the statements of a script, in turn. -/
theorem script (h : Composed limit At P) (fuel : Nat) (scope : FrameId) (body : List Stmt) :
    ∀ (last : Value) (m : Machine), At ⟨.stmts scope body, m⟩ →
      P (Eval.script limit fuel scope last body) m := by
  have hall := h.holding fuel
  induction body with
  | nil => exact fun last m _ => h.pure last
  | cons s rest ih =>
    intro last m hM
    have hfirst := h.inward _ _ hM .first
    cases s with
    | expression e span =>
      refine h.bind (hall.expr scope e m (h.inward _ _ hfirst (.part rfl))) fun v n hv => ?_
      exact ih v n (Moment.at_rest h.inward hM (Or.inl ⟨e, span, v, rfl, hv⟩))
    | _ =>
      refine h.bind (hall.stmt scope _ m hfirst) fun _ n hdone => ?_
      exact ih .null n (Moment.at_rest h.inward hM (Or.inr hdone))

end Composed

end Eval

end ScriptEngine
