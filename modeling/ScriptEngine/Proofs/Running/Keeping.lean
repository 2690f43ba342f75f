import ScriptEngine.Proofs.Running.Realm
import ScriptEngine.Run.Evaluator

/-!
Evaluations that stay in a realm, and the steps that evaluations are made of. Out of a step comes a
value of the realm when the values that go into it are of the realm.
-/
namespace ScriptEngine

namespace Realm

variable {R : Realm} {σ : Store}

theorem frame_of_resolve (h : R.Holds σ) {scope frame : FrameId} {name : String}
    (hscope : R.frames scope) (hframe : σ.resolve scope name = some frame) : R.frames frame := by
  unfold Store.resolve at hframe
  generalize σ.frames.size = count at hframe
  fun_induction Store.resolveWithin σ name count scope with
  | case1 => exact absurd hframe (by simp)
  | case2 => exact absurd hframe (by simp)
  | case3 =>
    obtain rfl := Option.some.inj hframe
    exact hscope
  | case4 => exact absurd hframe (by simp)
  | case5 count scope above habove hhas parent hparent ih =>
    refine ih (h.parents scope parent hscope ?_) hframe
    rw [Store.parent?, habove]
    exact hparent

end Realm

namespace Value

theorem isScalar_arithmetic (onIntegers : Int32 → Int32 → Int32)
    (onFloats : Single → Single → Single) (a b : Value) :
    (a.arithmetic onIntegers onFloats b).isScalar := by
  unfold arithmetic
  split <;> rfl

end Value

theorem BinaryOp.isScalar_apply {σ : Store} {op : BinaryOp} {a b v : Value}
    (h : op.apply σ a b = .ok v) : v.isScalar := by
  cases op with
  | add =>
    obtain rfl := Except.ok.inj h
    unfold Value.add
    split
    · rfl
    · exact Value.isScalar_arithmetic _ _ a b
  | sub | mul =>
    obtain rfl := Except.ok.inj h
    exact Value.isScalar_arithmetic _ _ a b
  | div =>
    change a.divide b = .ok v at h
    unfold Value.divide at h
    split at h
    · split at h
      · exact absurd h (by simp)
      · obtain rfl := Except.ok.inj h
        rfl
    · obtain rfl := Except.ok.inj h
      rfl
  | mod =>
    change a.modulo b = .ok v at h
    unfold Value.modulo at h
    split at h
    · exact absurd h (by simp)
    · obtain rfl := Except.ok.inj h
      rfl
  | _ =>
    obtain rfl := Except.ok.inj h
    rfl

theorem UnaryOp.isScalar_apply (op : UnaryOp) (v : Value) : (op.apply v).isScalar := by
  cases op with
  | negate =>
    unfold apply
    cases v.number <;> rfl
  | not => rfl

theorem Literal.isScalar_toValue (l : Literal) : l.toValue.isScalar := by
  cases l <;> rfl

/-- Whatever the outcome is, the store stays in the realm, the result is so, and a value that is handed
out is of the realm. -/
def Outcome.Keeps {α : Type} (outcome : Outcome α) (R : Realm) (σ : Store) (ok : α → Prop) : Prop :=
  match outcome with
  | .done a m => R.Settled σ m.store ∧ ok a
  | .signalled s m => R.Settled σ m.store ∧ ∀ v, s.value? = some v → R.data v
  | .failed _ _ m => R.Settled σ m.store
  | .exhausted m => R.Settled σ m.store

theorem Outcome.Keeps.after {α : Type} {outcome : Outcome α} {R : Realm} {σ σ' : Store}
    {ok : α → Prop} (h : outcome.Keeps R σ' ok) (hσ : R.Settled σ σ') : outcome.Keeps R σ ok := by
  cases outcome with
  | done a m => exact ⟨hσ.trans h.1, h.2⟩
  | signalled s m => exact ⟨hσ.trans h.1, h.2⟩
  | failed fault place m => exact hσ.trans h
  | exhausted m => exact hσ.trans h

namespace Eval

variable {α β : Type} {R : Realm} {m : Machine}

/-- The evaluation keeps to the realm when it begins here. -/
def Keeps (x : Eval α) (R : Realm) (m : Machine) (ok : α → Prop) : Prop :=
  (x m).Keeps R m.store ok

theorem Keeps.bind {x : Eval α} {f : α → Eval β} {ok : α → Prop} {ok' : β → Prop}
    (h : x.Keeps R m ok)
    (hf : ∀ a m', R.Settled m.store m'.store → ok a → (f a).Keeps R m' ok') :
    (x >>= f).Keeps R m ok' := by
  unfold Keeps at h ⊢
  rw [bind_apply]
  cases hx : x m with
  | done a m' =>
    rw [hx] at h
    exact (hf a m' h.1 h.2).after h.1
  | signalled s m' =>
    rw [hx] at h
    exact h
  | failed fault place m' =>
    rw [hx] at h
    exact h
  | exhausted m' =>
    rw [hx] at h
    exact h

theorem keeps_pure {ok : α → Prop} (h : R.Holds m.store) {a : α} (ha : ok a) :
    (Pure.pure a : Eval α).Keeps R m ok :=
  ⟨.refl h, ha⟩

theorem keeps_fail {ok : α → Prop} (h : R.Holds m.store) (fault : RuntimeFault) (place : Span) :
    (fail fault place : Eval α).Keeps R m ok :=
  Realm.Settled.refl h

theorem keeps_exhausted {ok : α → Prop} (h : R.Holds m.store) :
    (exhausted : Eval α).Keeps R m ok :=
  Realm.Settled.refl h

theorem keeps_signal {ok : α → Prop} (h : R.Holds m.store) {s : Signal}
    (hs : ∀ v, s.value? = some v → R.data v) : (signal s : Eval α).Keeps R m ok :=
  ⟨.refl h, hs⟩

theorem keeps_ask {g : Store → α} {f : α → Eval β} {ok : β → Prop}
    (h : (f (g m.store)).Keeps R m ok) : (ask g >>= f).Keeps R m ok :=
  h

theorem keeps_change {f : Store → Store} (h : R.Settled m.store (f m.store)) :
    (change f).Keeps R m fun _ => True :=
  ⟨h, trivial⟩

theorem keeps_add {f : Store → α × Store} {ok : α → Prop}
    (h : ok (f m.store).1 ∧ R.Settled m.store (f m.store).2) : (add f).Keeps R m ok :=
  ⟨h.2, h.1⟩

theorem keeps_add_bind {f : Store → α × Store} {g : α → Eval β} {ok : β → Prop}
    (h : R.Settled m.store (f m.store).2)
    (hg : (g (f m.store).1).Keeps R { m with store := (f m.store).2 } ok) :
    (add f >>= g).Keeps R m ok :=
  hg.after h

/-! Variables -/

theorem keeps_resolve (h : R.Holds m.store) {scope : FrameId} (hscope : R.frames scope)
    (name : Name) : (resolve scope name).Keeps R m fun frame =>
      R.frames frame ∧ m.store.hasLocal frame name.text := by
  unfold Keeps resolve
  cases hframe : m.store.resolve scope name.text with
  | some frame =>
    exact ⟨.refl h, R.frame_of_resolve h hscope hframe, Store.hasLocal_of_resolve hframe⟩
  | none => exact .refl h

theorem keeps_setLocal (h : R.Holds m.store) {frame : FrameId} (hframe : R.frames frame)
    {name : Name} {v : Value} (hbound : R.bound frame name.text v) (hv : R.data v) :
    (setLocal frame name v).Keeps R m fun _ => True :=
  keeps_change (Realm.settled_setLocal_data h hframe hbound hv)

theorem keeps_declare (h : R.Holds m.store) {scope : FrameId} (hscope : R.frames scope)
    {name : Name} {v : Value} (hbound : R.bound scope name.text v) (hv : R.data v) :
    (declare scope name v).Keeps R m fun _ => True := by
  unfold declare
  refine keeps_ask ?_
  split
  · exact keeps_fail h _ _
  · exact keeps_setLocal h hscope hbound hv

/-- A function is bound where it was declared, with a number that was just given out. -/
theorem keeps_declareFunction (h : R.Holds m.store) {scope : FrameId} {name : Name}
    {params : List Name} {body : List Stmt} {span : Span}
    (hcode : R.code scope (.stmt (.function name params body span))) :
    (declareFunction scope ⟨name, params, body, span⟩).Keeps R m fun _ => True := by
  have hscope := R.frame_of_scope scope (R.scope_of_code _ _ hcode)
  have hbound := R.bound_of_function _ _ _ _ _ _ hcode h.identitySize
  have hstart := R.settled_newIdentity h
  unfold declareFunction
  refine keeps_add_bind hstart ?_
  unfold declare
  refine keeps_ask ?_
  split
  · exact keeps_fail hstart.holds _ _
  · rename_i hfree
    refine keeps_change (R.settled_setLocal hstart.holds hscope hbound
      (Or.inr (by simpa using hfree)) ?_)
    rintro - f hf
    obtain rfl := Value.function.inj hf
    exact Nat.lt_succ_self _

theorem keeps_readVariable (h : R.Holds m.store) {scope : FrameId} (hscope : R.frames scope)
    (name : Name) : (readVariable scope name).Keeps R m R.data := by
  unfold Keeps readVariable Store.read
  cases hframe : m.store.resolve scope name.text with
  | none => exact .refl h
  | some frame =>
    rw [Option.bind_some]
    have hin := R.frame_of_resolve h hscope hframe
    cases hv : m.store.getLocal? frame name.text with
    | none => exact .refl h
    | some v =>
      dsimp only
      split
      · exact .refl h
      · rename_i hcallable
        have hbound := R.bound_of_getLocal? h hin hv
        exact ⟨.refl h, R.data_of_bound frame _ v hbound (by simpa using hcallable)⟩

theorem keeps_writeVariable (h : R.Holds m.store) {scope : FrameId} (hscope : R.frames scope)
    (name : Name) {v : Value} (hv : R.data v) :
    (writeVariable scope name v).Keeps R m fun _ => True := by
  unfold writeVariable
  apply (keeps_resolve h hscope name).bind
  rintro frame m' hm' ⟨hframe, hname⟩
  have hbound := R.bound_of_hasLocal hm'.holds hframe (hm'.hasLocal hname) hv
  exact keeps_setLocal hm'.holds hframe hbound hv

theorem keeps_adjust (h : R.Holds m.store) {scope : FrameId} (hscope : R.frames scope)
    (name : Name) (step : Step) : (adjust scope name step).Keeps R m R.data := by
  unfold adjust
  apply (keeps_readVariable h hscope name).bind
  intro old m' hm' hold
  have hnew : ∀ n, R.data (.integer n) := fun n => R.data_scalar _ rfl
  apply (keeps_writeVariable hm'.holds hscope name (hnew _)).bind
  intro _ m'' hm'' _
  exact keeps_pure hm''.holds hold

theorem keeps_bindParameters (params : List Name) :
    ∀ (arguments : List Value) {m : Machine} {frame : FrameId}, R.Holds m.store →
      R.firstFrame ≤ frame → (∀ v ∈ arguments, R.data v) →
      (bindParameters frame params arguments).Keeps R m fun _ => True := by
  induction params with
  | nil => exact fun _ _ _ h _ _ => keeps_pure h trivial
  | cons param params ih =>
    intro arguments m frame h hnew hdata
    have hframe := R.frame_of_scope frame (R.scope_of_new frame hnew)
    unfold bindParameters
    have hfirst : R.data (arguments.headD .null) := by
      cases arguments with
      | nil => exact R.data_scalar .null rfl
      | cons v rest => exact hdata v List.mem_cons_self
    apply (keeps_setLocal h hframe (R.bound_of_new _ _ _ hnew hfirst) hfirst).bind
    intro _ m' hm' _
    exact ih arguments.tail hm'.holds hnew fun v hv => hdata v (List.mem_of_mem_tail hv)

theorem keeps_declareThrown (h : R.Holds m.store) {frame : FrameId} (hnew : R.firstFrame ≤ frame)
    (param : Option Name) {payload : Value} (hpayload : R.data payload) :
    (declareThrown frame param payload).Keeps R m fun _ => True := by
  cases param with
  | none => exact keeps_pure h trivial
  | some name =>
    have hframe := R.frame_of_scope frame (R.scope_of_new frame hnew)
    exact keeps_declare h hframe (R.bound_of_new _ _ _ hnew hpayload) hpayload

/-! Arrays and structs -/

theorem keeps_newArray (h : R.Holds m.store) {items : Array Value}
    (hitems : ∀ v ∈ items.toList, R.data v) : (newArray items).Keeps R m R.data :=
  keeps_add (R.settled_newArray h hitems)

theorem keeps_newStruct (h : R.Holds m.store) {fields : Entries Value}
    (hfields : ∀ entry ∈ fields, R.data entry.2) : (newStruct fields).Keeps R m R.data :=
  keeps_add (R.settled_newStruct h hfields)

theorem keeps_newArrayOfSize (h : R.Holds m.store) (size : Int32) (place : Span) :
    (newArrayOfSize size place).Keeps R m R.data := by
  unfold newArrayOfSize
  split
  · exact keeps_fail h _ _
  · apply keeps_newArray h
    intro v hv
    rw [Array.toList_replicate] at hv
    obtain rfl := List.eq_of_mem_replicate hv
    exact R.data_scalar .null rfl

theorem keeps_position (h : R.Holds m.store) (index : Int32) (length : Nat) (place : Span) :
    (position index length place).Keeps R m fun _ => True := by
  unfold position
  split
  · exact keeps_pure h trivial
  · exact keeps_fail h _ _

theorem keeps_readIndex (h : R.Holds m.store) {target : Value} (htarget : R.data target)
    (index : Int32) (place : Span) : (readIndex target index place).Keeps R m R.data := by
  unfold readIndex
  split
  · rename_i cell
    have hitems := R.data_items h ((R.data_array cell).mp htarget)
    refine keeps_ask ?_
    apply (keeps_position h index _ place).bind
    intro i m' hm' _
    refine keeps_pure hm'.holds ?_
    rw [Array.getD_eq_getD_getElem?]
    cases hv : (m.store.items cell)[i]? with
    | none => exact R.data_scalar .null rfl
    | some v => exact hitems v (Array.mem_def.mp (Array.mem_of_getElem? hv))
  · apply (keeps_position h index _ place).bind
    intro i m' hm' _
    refine keeps_pure hm'.holds (R.data_scalar _ ?_)
    split <;> rfl
  · exact keeps_fail h _ _

theorem keeps_writeIndex (h : R.Holds m.store) {target : Value} (htarget : R.data target)
    (index : Int32) {v : Value} (hv : R.data v) (place : Span) :
    (writeIndex target index v place).Keeps R m R.data := by
  unfold writeIndex
  split
  · rename_i cell
    have hcell := (R.data_array cell).mp htarget
    refine keeps_ask ?_
    apply (keeps_position h index _ place).bind
    intro i m' hm' _
    apply (keeps_change (R.settled_setItem hm'.holds hcell i hv)).bind
    intro _ m'' hm'' _
    exact keeps_pure hm''.holds hv
  · exact keeps_fail h _ _

theorem keeps_readMember (h : R.Holds m.store) {target : Value} (htarget : R.data target)
    (member : Name) (place : Span) : (readMember target member place).Keeps R m R.data := by
  unfold readMember
  split
  · rename_i cell
    have hfields := R.data_fields h ((R.data_struct cell).mp htarget)
    refine keeps_ask ?_
    cases hv : (m.store.fields cell).get? member.text with
    | none => exact keeps_fail h _ _
    | some v => exact keeps_pure h (hfields (member.text, v) (Entries.mem_of_get? hv))
  · exact keeps_fail h _ _

theorem keeps_writeMember (h : R.Holds m.store) {target : Value} (htarget : R.data target)
    (member : Name) {v : Value} (hv : R.data v) (place : Span) :
    (writeMember target member v place).Keeps R m R.data := by
  unfold writeMember
  split
  · rename_i cell
    have hcell := (R.data_struct cell).mp htarget
    refine keeps_ask ?_
    split
    · rename_i hname
      apply (keeps_change (R.settled_setField h hcell hname hv)).bind
      intro _ m' hm' _
      exact keeps_pure hm'.holds hv
    · exact keeps_fail h _ _
  · exact keeps_fail h _ _

theorem keeps_applyBinary (h : R.Holds m.store) (op : BinaryOp) (a b : Value) (place : Span) :
    (applyBinary op a b place).Keeps R m R.data := by
  unfold Keeps applyBinary
  cases hv : op.apply m.store a b with
  | ok v => exact ⟨.refl h, R.data_scalar v (BinaryOp.isScalar_apply hv)⟩
  | error fault => exact .refl h

/-! Calls -/

theorem data_fit (f : Native) {arguments : List Value} (harguments : ∀ v ∈ arguments, R.data v) :
    ∀ v ∈ f.fit arguments, R.data v := by
  intro v hv
  rcases List.mem_append.mp hv with hv | hv
  · exact harguments v (List.mem_of_mem_take hv)
  · obtain rfl := List.eq_of_mem_replicate hv
    exact R.data_scalar .null rfl

private theorem exists_of_map_eq_ok {ε γ δ : Type} {result : Except ε γ} {f : γ → δ} {b : δ}
    (h : result.map f = .ok b) : ∃ a, result = .ok a ∧ f a = b := by
  cases result with
  | ok a => exact ⟨a, rfl, Except.ok.inj h⟩
  | error fault => exact absurd h (by simp [Except.map])

/-- A native gives no callable back when it gets none, and changes no more than a script could. -/
theorem settled_run (h : R.Holds m.store) (action : NativeAction) {arguments : List Value}
    (harguments : ∀ v ∈ arguments, R.data v) :
    R.Settled m.store (action.run arguments m).2.store ∧
      ∀ v, (action.run arguments m).1 = .ok v → R.data v := by
  cases action with
  | print =>
    refine ⟨.refl h, fun v hv => ?_⟩
    obtain ⟨_, _, rfl⟩ := exists_of_map_eq_ok hv
    exact R.data_scalar _ rfl
  | read =>
    refine ⟨.refl h, fun v hv => ?_⟩
    obtain ⟨line, _, rfl⟩ := exists_of_map_eq_ok hv
    cases line <;> exact R.data_scalar _ rfl
  | readFile =>
    simp only [NativeAction.run, Machine.readFile]
    split
    · exact ⟨.refl h, fun v hv => absurd hv (by simp)⟩
    · refine ⟨.refl h, fun v hv => ?_⟩
      obtain ⟨_, _, rfl⟩ := exists_of_map_eq_ok hv
      exact R.data_scalar _ rfl
  | writeFile =>
    simp only [NativeAction.run, Machine.writeFile]
    split
    · exact ⟨.refl h, fun v hv => absurd hv (by simp)⟩
    · split
      · exact ⟨.refl h, fun v hv => absurd hv (by simp)⟩
      · split
        · exact ⟨.refl h, fun v hv => absurd hv (by simp)⟩
        · refine ⟨.refl h, fun v hv => ?_⟩
          obtain rfl := Except.ok.inj hv
          exact R.data_scalar _ rfl
  | length =>
    refine ⟨.refl h, fun v hv => ?_⟩
    obtain rfl := Except.ok.inj hv
    cases ((arguments.getD 0 .null).length? m.store) <;> exact R.data_scalar _ rfl
  | keys =>
    simp only [NativeAction.run, Machine.keys]
    split
    · rename_i cell _
      have hnames : ∀ v ∈ ((m.store.fields cell).names.map Value.string).toArray.toList,
          R.data v := by
        intro v hv
        obtain ⟨name, _, rfl⟩ := List.mem_map.mp hv
        exact R.data_scalar _ rfl
      obtain ⟨hdata, hstore⟩ := R.settled_newArray h hnames
      refine ⟨hstore, fun v hv => ?_⟩
      obtain rfl := Except.ok.inj hv
      exact hdata
    · refine ⟨.refl h, fun v hv => ?_⟩
      obtain rfl := Except.ok.inj hv
      exact R.data_scalar _ rfl
  | gather =>
    have hitems : ∀ v ∈ arguments.toArray.toList, R.data v := harguments
    obtain ⟨hdata, hstore⟩ := R.settled_newArray h hitems
    refine ⟨hstore, fun v hv => ?_⟩
    obtain rfl := Except.ok.inj hv
    exact hdata
  | typeOf | count =>
    refine ⟨.refl h, fun v hv => ?_⟩
    obtain rfl := Except.ok.inj hv
    exact R.data_scalar _ rfl
  | fail | failIo => exact ⟨.refl h, fun v hv => absurd hv (by simp [NativeAction.run])⟩

theorem keeps_callNative (h : R.Holds m.store) (f : Native) {arguments : List Value}
    (harguments : ∀ v ∈ arguments, R.data v) (place : Span) :
    (callNative f arguments place).Keeps R m R.data := by
  obtain ⟨hstore, hresult⟩ := settled_run h f.action (data_fit f harguments)
  unfold Keeps callNative Native.call
  cases hrun : f.action.run (f.fit arguments) m with
  | mk result m' =>
    rw [hrun] at hstore hresult
    cases result with
    | ok v => exact ⟨hstore, hresult v rfl⟩
    | error fault => exact hstore

theorem keeps_checkCall (h : R.Holds m.store) (limit : Nat) (f : Closure) (place : Span) :
    (checkCall limit f place).Keeps R m fun _ => True := by
  unfold Keeps checkCall
  split
  · exact .refl h
  · split
    · exact ⟨.refl h, trivial⟩
    · exact .refl h

theorem keeps_asCall {body : Eval Unit} (place : Span)
    (h : body.Keeps R { m with depth := m.depth + 1 } fun _ => True) :
    (asCall place body).Keeps R m R.data := by
  unfold Keeps at h ⊢
  unfold asCall
  cases hbody : body { m with depth := m.depth + 1 } with
  | done a m' =>
    rw [hbody] at h
    exact ⟨h.1, R.data_scalar .null rfl⟩
  | signalled s m' =>
    rw [hbody] at h
    obtain ⟨hstore, hvalue⟩ := h
    cases s with
    | jump j place' => exact hstore
    | transfer kind v place' =>
      cases kind with
      | «return» => exact ⟨hstore, hvalue v rfl⟩
      | exit => exact ⟨hstore, hvalue⟩
      | throw => exact ⟨hstore, hvalue⟩
  | failed fault place' m' =>
    rw [hbody] at h
    exact h
  | exhausted m' =>
    rw [hbody] at h
    exact h

/-! Statements around statements -/

theorem keeps_inChild {body : FrameId → Eval α} {ok : α → Prop} (h : R.Holds m.store)
    {parent : FrameId} (hparent : R.frames parent)
    (hbody : ∀ frame m', R.firstFrame ≤ frame → R.Holds m'.store → (body frame).Keeps R m' ok) :
    (inChild parent body).Keeps R m ok := by
  obtain ⟨-, hchild⟩ := R.onward_newChild h hparent
  have hrun := hbody m.store.frames.size { m with store := (m.store.newChild parent).2 }
    h.frameSize hchild.holds
  unfold Keeps at hrun ⊢
  unfold inChild
  change ((body m.store.frames.size { m with store := (m.store.newChild parent).2 }).mapMachine
    fun m' => { m' with store := m'.store.dropFrame m.store.frames.size }).Keeps R m.store ok
  cases hend : body m.store.frames.size { m with store := (m.store.newChild parent).2 } with
  | done a m' =>
    rw [hend] at hrun
    exact ⟨R.settled_dropFrame h hparent hrun.1, hrun.2⟩
  | signalled s m' =>
    rw [hend] at hrun
    exact ⟨R.settled_dropFrame h hparent hrun.1, hrun.2⟩
  | failed fault place m' =>
    rw [hend] at hrun
    exact R.settled_dropFrame h hparent hrun
  | exhausted m' =>
    rw [hend] at hrun
    exact R.settled_dropFrame h hparent hrun

theorem keeps_catching {body : Eval Unit} {handler : Value → Eval Unit}
    (h : body.Keeps R m fun _ => True)
    (hhandler : ∀ payload m', R.Settled m.store m'.store → R.data payload →
      (handler payload).Keeps R m' fun _ => True) :
    (catching body handler).Keeps R m fun _ => True := by
  unfold Keeps at h ⊢
  unfold catching
  cases hbody : body m with
  | done a m' =>
    rw [hbody] at h
    exact h
  | signalled s m' =>
    rw [hbody] at h
    obtain ⟨hstore, hvalue⟩ := h
    cases s with
    | jump j place => exact ⟨hstore, hvalue⟩
    | transfer kind v place =>
      cases kind with
      | throw => exact (hhandler v m' hstore (hvalue v rfl)).after hstore
      | «return» => exact ⟨hstore, hvalue⟩
      | exit => exact ⟨hstore, hvalue⟩
  | failed fault place m' =>
    rw [hbody] at h
    exact h
  | exhausted m' =>
    rw [hbody] at h
    exact h

theorem keeps_repeating {body again : Eval Unit} (h : body.Keeps R m fun _ => True)
    (hagain : ∀ m', R.Settled m.store m'.store → again.Keeps R m' fun _ => True) :
    (repeating body again).Keeps R m fun _ => True := by
  unfold Keeps at h ⊢
  unfold repeating
  cases hbody : body m with
  | done a m' =>
    rw [hbody] at h
    exact (hagain m' h.1).after h.1
  | signalled s m' =>
    rw [hbody] at h
    obtain ⟨hstore, hvalue⟩ := h
    cases s with
    | jump j place =>
      cases j with
      | «break» => exact ⟨hstore, trivial⟩
      | «continue» => exact (hagain m' hstore).after hstore
    | transfer kind v place => exact ⟨hstore, hvalue⟩
  | failed fault place m' =>
    rw [hbody] at h
    exact h
  | exhausted m' =>
    rw [hbody] at h
    exact h

end Eval

end ScriptEngine
