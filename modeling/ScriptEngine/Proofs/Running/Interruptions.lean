import ScriptEngine.Proofs.Running.Nodes
import ScriptEngine.Proofs.Running.Printing

/-!
What breaks evaluations off. A fault or a signal is raised at one moment, by what the evaluation that
begins there does itself, and then passes out through the evaluations around it, which hand it on as it
is: each of them is broken off by the same fault or signal, and nothing happens any more but that frames
go. A step inwards always leads to less fuel, so the way in comes to an end.
-/
namespace ScriptEngine

/-- What breaks an evaluation off. -/
inductive Interruption where
  | fault (fault : RuntimeFault) (place : Span)
  | signal (signal : Signal)

namespace Interruption

def place : Interruption → Span
  | fault _ place => place
  | signal s => s.place

end Interruption

/-- What breaks the evaluation off, and the machine that is left. -/
def Outcome.broken? {α : Type} : Outcome α → Option (Interruption × Machine)
  | failed fault place m => some (.fault fault place, m)
  | signalled s m => some (.signal s, m)
  | _ => none

/-- The second machine is the first one, except that frames may have gone and the depth of calls is
another one. -/
structure Machine.Unwound (m n : Machine) : Prop where
  console : n.console = m.console
  files : n.files = m.files
  cells : n.store.cells = m.store.cells
  identities : n.store.nextIdentity = m.store.nextIdentity
  frames : ∀ id, n.store.frame? id = m.store.frame? id ∨ n.store.frame? id = none

namespace Machine.Unwound

variable {m n k : Machine}

theorem refl (m : Machine) : m.Unwound m := ⟨rfl, rfl, rfl, rfl, fun _ => .inl rfl⟩

theorem trans (h : m.Unwound n) (h' : n.Unwound k) : m.Unwound k := by
  refine ⟨h'.console.trans h.console, h'.files.trans h.files, h'.cells.trans h.cells,
    h'.identities.trans h.identities, fun id => ?_⟩
  rcases h'.frames id with heq | hgone
  · rw [heq]
    exact h.frames id
  · exact .inr hgone

theorem dropFrame (m : Machine) (id : FrameId) :
    m.Unwound { m with store := m.store.dropFrame id } := by
  refine ⟨rfl, rfl, rfl, rfl, fun other => ?_⟩
  rw [Store.frame?_dropFrame]
  split
  · exact .inr rfl
  · exact .inl rfl

theorem depth (m : Machine) (depth : Nat) : m.Unwound { m with depth := depth } :=
  ⟨rfl, rfl, rfl, rfl, fun _ => .inl rfl⟩

end Machine.Unwound

/-- Texts depend only on what is in arrays and structs. -/
theorem Value.text_of_cells {σ σ' : Store} (h : σ'.cells = σ.cells) (v : Value) :
    v.text σ' = v.text σ := by
  have hwithin : ∀ depth around, Value.textWithin σ' depth around = Value.textWithin σ depth around := by
    intro depth
    induction depth with
    | zero => exact fun _ => rfl
    | succ depth ih =>
      intro around
      funext v
      cases v with
      | array cell => simp only [Value.textWithin, Store.items, h, ih]
      | struct cell => simp only [Value.textWithin, Store.fields, h, ih]
      | _ => rfl
  unfold Value.text
  rw [h, hwithin]

namespace Eval

variable {α β : Type} {limit fuel : Nat} {m : Machine} {spans : List Span}

/-! What evaluations do themselves -/

/-- Nothing breaks the evaluation off but faults at one of these places. -/
def Faults (x : Eval α) (spans : List Span) : Prop :=
  ∀ m i n, (x m).broken? = some (i, n) →
    ∃ fault place, i = .fault fault place ∧ place ∈ spans ∧ fault.kind ≠ .userThrow

theorem faults_of_done {x : Eval α} (h : ∀ m, ∃ a n, x m = .done a n) : x.Faults spans := by
  intro m i n hbroken
  obtain ⟨a, k, hx⟩ := h m
  rw [hx] at hbroken
  cases hbroken

theorem faults_pure (a : α) : (Pure.pure a : Eval α).Faults spans := faults_of_done fun _ => ⟨_, _, rfl⟩

theorem faults_ask (f : Store → α) : (ask f).Faults spans := faults_of_done fun _ => ⟨_, _, rfl⟩

theorem faults_change (f : Store → Store) : (change f).Faults spans :=
  faults_of_done fun _ => ⟨_, _, rfl⟩

theorem faults_add (f : Store → α × Store) : (add f).Faults spans :=
  faults_of_done fun _ => ⟨_, _, rfl⟩

theorem faults_of_failed {x : Eval α} (h : ∀ m, (∃ a n, x m = .done a n) ∨ ∃ fault place,
    x m = .failed fault place m ∧ place ∈ spans ∧ fault.kind ≠ .userThrow) : x.Faults spans := by
  intro m i n hbroken
  rcases h m with ⟨a, k, hx⟩ | ⟨fault, place, hx, hplace, hkind⟩
  · rw [hx] at hbroken
    cases hbroken
  · rw [hx] at hbroken
    obtain ⟨rfl, -⟩ := Prod.mk.inj (Option.some.inj hbroken)
    exact ⟨fault, place, rfl, hplace, hkind⟩

theorem faults_fail {fault : RuntimeFault} {place : Span} (hplace : place ∈ spans)
    (hkind : fault.kind ≠ .userThrow) : (fail fault place : Eval α).Faults spans :=
  faults_of_failed fun _ => .inr ⟨fault, place, rfl, hplace, hkind⟩

theorem broken?_bind {x : Eval α} {f : α → Eval β} {i : Interruption} {n : Machine}
    (h : ((x >>= f) m).broken? = some (i, n)) :
    (x m).broken? = some (i, n) ∨ ∃ a k, x m = .done a k ∧ (f a k).broken? = some (i, n) := by
  rw [bind_apply] at h
  cases hx : x m with
  | done a k =>
    rw [hx] at h
    exact .inr ⟨a, k, rfl, h⟩
  | exhausted k =>
    rw [hx] at h
    cases h
  | _ =>
    rw [hx] at h
    exact .inl h

theorem Faults.bind {x : Eval α} {f : α → Eval β} (h : x.Faults spans)
    (hf : ∀ a, (f a).Faults spans) : (x >>= f).Faults spans := by
  intro m i n hbroken
  rcases broken?_bind hbroken with hbroken | ⟨a, k, -, hbroken⟩
  · exact h m i n hbroken
  · exact hf a k i n hbroken

section Own

variable {scope frame : FrameId} {name : Name} {place : Span}

theorem faults_resolve (hname : name.span ∈ spans) : (resolve scope name).Faults spans := by
  refine faults_of_failed fun m => ?_
  unfold resolve
  split
  · exact .inl ⟨_, _, rfl⟩
  · exact .inr ⟨_, _, rfl, hname, by simp [RuntimeFault.kind]⟩

theorem faults_readVariable (hname : name.span ∈ spans) : (readVariable scope name).Faults spans := by
  refine faults_of_failed fun m => ?_
  unfold readVariable
  split
  · exact .inr ⟨_, _, rfl, hname, by simp [RuntimeFault.kind]⟩
  · split
    · exact .inr ⟨_, _, rfl, hname, by simp [RuntimeFault.kind]⟩
    · exact .inl ⟨_, _, rfl⟩

theorem faults_declare (hname : name.span ∈ spans) (v : Value) :
    (declare frame name v).Faults spans := by
  refine (faults_ask _).bind fun taken => ?_
  split
  · exact faults_fail hname (by simp [RuntimeFault.kind])
  · exact faults_change _

theorem faults_declareThrown {param : Option Name}
    (hparam : ∀ name ∈ param, name.span ∈ spans) (payload : Value) :
    (declareThrown frame param payload).Faults spans := by
  cases param with
  | none => exact faults_pure ()
  | some name => exact faults_declare (hparam name rfl) payload

theorem faults_bindParameters (params : List Name) :
    ∀ arguments, (bindParameters frame params arguments).Faults spans := by
  induction params with
  | nil => exact fun _ => faults_pure ()
  | cons param params ih => exact fun arguments => (faults_change _).bind fun _ => ih arguments.tail

theorem faults_adjust (hname : name.span ∈ spans) (step : Step) :
    (adjust scope name step).Faults spans := by
  refine (faults_readVariable hname).bind fun old => Faults.bind ?_ fun _ => faults_pure old
  exact (faults_resolve hname).bind fun _ => faults_change _

theorem faults_newArrayOfSize (hplace : place ∈ spans) (size : Int32) :
    (newArrayOfSize size place).Faults spans := by
  unfold newArrayOfSize
  split
  · exact faults_fail hplace (by simp [RuntimeFault.kind])
  · exact faults_add _

theorem faults_position (hplace : place ∈ spans) (index : Int32) (length : Nat) :
    (position index length place).Faults spans := by
  unfold position
  split
  · exact faults_pure _
  · exact faults_fail hplace (by simp [RuntimeFault.kind])

theorem faults_readIndex (hplace : place ∈ spans) (target : Value) (index : Int32) :
    (readIndex target index place).Faults spans := by
  cases target with
  | array cell =>
    exact (faults_ask _).bind fun _ => (faults_position hplace index _).bind fun _ => faults_pure _
  | string text => exact (faults_position hplace index _).bind fun _ => faults_pure _
  | _ => exact faults_fail hplace (by simp [RuntimeFault.kind])

theorem faults_writeIndex (hplace : place ∈ spans) (target : Value) (index : Int32) (v : Value) :
    (writeIndex target index v place).Faults spans := by
  cases target with
  | array cell =>
    refine (faults_ask _).bind fun _ => (faults_position hplace index _).bind fun _ => ?_
    exact (faults_change _).bind fun _ => faults_pure v
  | _ => exact faults_fail hplace (by simp [RuntimeFault.kind])

theorem faults_readMember (hplace : place ∈ spans) (hname : name.span ∈ spans) (target : Value) :
    (readMember target name place).Faults spans := by
  cases target with
  | struct cell =>
    refine (faults_ask _).bind fun found => ?_
    cases found with
    | none => exact faults_fail hname (by simp [RuntimeFault.kind])
    | some v => exact faults_pure v
  | _ => exact faults_fail hplace (by simp [RuntimeFault.kind])

theorem faults_writeMember (hplace : place ∈ spans) (hname : name.span ∈ spans) (target v : Value) :
    (writeMember target name v place).Faults spans := by
  cases target with
  | struct cell =>
    refine (faults_ask _).bind fun present => ?_
    split
    · exact (faults_change _).bind fun _ => faults_pure v
    · exact faults_fail hname (by simp [RuntimeFault.kind])
  | _ => exact faults_fail hplace (by simp [RuntimeFault.kind])

theorem faults_applyBinary (hplace : place ∈ spans) (op : BinaryOp) (a b : Value) :
    (applyBinary op a b place).Faults spans := by
  refine faults_of_failed fun m => ?_
  unfold applyBinary
  split
  · exact .inl ⟨_, _, rfl⟩
  · exact .inr ⟨_, _, rfl, hplace, by simp [RuntimeFault.kind]⟩

theorem faults_callNative (hplace : place ∈ spans) (f : Native) (arguments : List Value) :
    (callNative f arguments place).Faults spans := by
  intro m i n hbroken
  unfold callNative at hbroken
  split at hbroken
  · cases hbroken
  · obtain ⟨rfl, -⟩ := Prod.mk.inj (Option.some.inj hbroken)
    exact ⟨_, place, rfl, hplace, by simp [RuntimeFault.kind]⟩

theorem faults_checkCall (hplace : place ∈ spans) (f : Closure) :
    (checkCall limit f place).Faults spans := by
  refine faults_of_failed fun m => ?_
  unfold checkCall
  split
  · exact .inr ⟨_, _, rfl, hplace, by simp [RuntimeFault.kind]⟩
  · split
    · exact .inl ⟨_, _, rfl⟩
    · exact .inr ⟨_, _, rfl, hplace, by simp [RuntimeFault.kind]⟩

end Own

/-! What is around evaluations -/

/-- However the evaluation is broken off, this is so of what breaks it off and of what it leaves. -/
def Breaks (x : Eval α) (m : Machine) (P : Interruption → Machine → Prop) : Prop :=
  ∀ i n, (x m).broken? = some (i, n) → P i n

variable {P : Interruption → Machine → Prop}

theorem Breaks.bind {x : Eval α} {f : α → Eval β} (h : x.Breaks m P)
    (hf : ∀ a k, x m = .done a k → (f a).Breaks k P) : (x >>= f).Breaks m P := by
  intro i n hbroken
  rcases broken?_bind hbroken with hbroken | ⟨a, k, hx, hbroken⟩
  · exact h i n hbroken
  · exact hf a k hx i n hbroken

theorem breaks_inChild {parent : FrameId} {body : FrameId → Eval α}
    (hP : ∀ i k n, P i k → k.Unwound n → P i n)
    (h : (body m.store.frames.size).Breaks (m.below parent) P) : (inChild parent body).Breaks m P := by
  intro i n hbroken
  have hbroken : ((body m.store.frames.size (m.below parent)).mapMachine
      (fun n => { n with store := n.store.dropFrame m.store.frames.size })).broken? = some (i, n) :=
    hbroken
  unfold Breaks at h
  cases hbody : body m.store.frames.size (m.below parent) with
  | failed fault place k =>
    rw [hbody] at h hbroken
    obtain ⟨rfl, rfl⟩ := Prod.mk.inj (Option.some.inj hbroken)
    exact hP _ k _ (h _ k rfl) (.dropFrame k _)
  | signalled s k =>
    rw [hbody] at h hbroken
    obtain ⟨rfl, rfl⟩ := Prod.mk.inj (Option.some.inj hbroken)
    exact hP _ k _ (h _ k rfl) (.dropFrame k _)
  | _ =>
    rw [hbody] at hbroken
    cases hbroken

/-- A jump that comes out of the body of a call is a fault of the call. -/
theorem breaks_asCall {body : Eval Unit} {place : Span}
    (hP : ∀ i k n, P i k → k.Unwound n → P i n)
    (h : body.Breaks { m with depth := m.depth + 1 } P)
    (hjump : ∀ j : LoopJump, ∀ n, P (.fault (.misplaced j.keyword) place) n) :
    (asCall place body).Breaks m P := by
  intro i n hbroken
  unfold asCall at hbroken
  unfold Breaks at h
  cases hbody : body { m with depth := m.depth + 1 } with
  | failed fault at_ k =>
    rw [hbody] at h hbroken
    obtain ⟨rfl, rfl⟩ := Prod.mk.inj (Option.some.inj hbroken)
    exact hP _ k _ (h _ k rfl) (.depth k _)
  | signalled s k =>
    rw [hbody] at h hbroken
    cases s with
    | jump j at_ =>
      obtain ⟨rfl, rfl⟩ := Prod.mk.inj (Option.some.inj hbroken)
      exact hjump j _
    | transfer kind v at_ =>
      cases kind with
      | «return» => cases hbroken
      | _ =>
        obtain ⟨rfl, rfl⟩ := Prod.mk.inj (Option.some.inj hbroken)
        exact hP _ k _ (h _ k rfl) (.depth k _)
  | _ =>
    rw [hbody] at hbroken
    cases hbroken

theorem breaks_catching {body : Eval Unit} {handler : Value → Eval Unit} (h : body.Breaks m P)
    (hhandler : ∀ payload place n, body m = .signalled (.transfer .throw payload place) n →
      (handler payload).Breaks n P) : (catching body handler).Breaks m P := by
  intro i n hbroken
  unfold catching at hbroken
  cases hbody : body m with
  | signalled s k =>
    rw [hbody] at hbroken
    cases s with
    | jump j at_ => exact h i n (by rw [hbody]; exact hbroken)
    | transfer kind v at_ =>
      cases kind with
      | throw => exact hhandler v at_ k hbody i n hbroken
      | _ => exact h i n (by rw [hbody]; exact hbroken)
  | _ =>
    rw [hbody] at hbroken
    exact h i n (by rw [hbody]; exact hbroken)

theorem breaks_repeating {body again : Eval Unit} (h : body.Breaks m P)
    (hagain : ∀ n, (body m = .done () n ∨
      ∃ place, body m = .signalled (.jump .continue place) n) → again.Breaks n P) :
    (repeating body again).Breaks m P := by
  intro i n hbroken
  unfold repeating at hbroken
  cases hbody : body m with
  | done a k =>
    rw [hbody] at hbroken
    exact hagain k (.inl hbody) i n hbroken
  | signalled s k =>
    rw [hbody] at hbroken
    cases s with
    | jump j at_ =>
      cases j with
      | «continue» => exact hagain k (.inr ⟨at_, hbody⟩) i n hbroken
      | «break» => cases hbroken
    | transfer kind v at_ => exact h i n (by rw [hbody]; exact hbroken)
  | _ =>
    rw [hbody] at hbroken
    exact h i n (by rw [hbody]; exact hbroken)

end Eval

end ScriptEngine
