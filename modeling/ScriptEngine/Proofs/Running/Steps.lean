import ScriptEngine.Run.Program

/-!
The steps that evaluations are made of. All that is not a call and not a jump or transfer is plain: it
is done or it fails for a reason of its own, and it does not count as a call.
-/
namespace ScriptEngine

/-- The fault is one that only a call can have. -/
def RuntimeFault.isOfCall : RuntimeFault → Bool
  | misplaced _ | tooManyCalls _ | homeGone _ => true
  | _ => false

/-- The machine that is left, whatever the outcome is. -/
def Outcome.machine {α : Type} : Outcome α → Machine
  | done _ m => m
  | signalled _ m => m
  | failed _ _ m => m
  | exhausted m => m

theorem Outcome.machine_mapMachine {α : Type} (f : Machine → Machine) (outcome : Outcome α) :
    (outcome.mapMachine f).machine = f outcome.machine := by
  cases outcome <;> rfl

theorem Machine.machine_conclude (outcome : Outcome Value) :
    (conclude outcome).2 = outcome.machine := by
  cases outcome with
  | signalled s m =>
    cases s with
    | jump j place => rfl
    | transfer kind v place => cases kind <;> rfl
  | _ => rfl

namespace Eval

variable {α β : Type}

inductive PlainOutcome (m : Machine) : Outcome α → Prop where
  | done {a m'} (hdepth : m'.depth = m.depth) : PlainOutcome m (.done a m')
  | failed {fault place m'} (hfault : fault.isOfCall = false) (hdepth : m'.depth = m.depth) :
      PlainOutcome m (.failed fault place m')

def Plain (x : Eval α) : Prop := ∀ m, PlainOutcome m (x m)

theorem PlainOutcome.trans {m m' : Machine} {outcome : Outcome α} (h : PlainOutcome m' outcome)
    (hm : m'.depth = m.depth) : PlainOutcome m outcome := by
  cases h with
  | done hdepth => exact .done (hdepth.trans hm)
  | failed hfault hdepth => exact .failed hfault (hdepth.trans hm)

theorem Plain.depth {x : Eval α} (h : x.Plain) {a : α} {m m' : Machine} (hx : x m = .done a m') :
    m'.depth = m.depth := by
  have hplain := h m
  rw [hx] at hplain
  cases hplain with
  | done hdepth => exact hdepth

theorem plain_pure (a : α) : (Pure.pure a : Eval α).Plain := fun _ => .done rfl

theorem plain_ask (f : Store → α) : (ask f).Plain := fun _ => .done rfl

theorem plain_change (f : Store → Store) : (change f).Plain := fun _ => .done rfl

theorem plain_add (f : Store → α × Store) : (add f).Plain := fun _ => .done rfl

theorem plain_fail {fault : RuntimeFault} (hfault : fault.isOfCall = false) (place : Span) :
    (fail fault place : Eval α).Plain :=
  fun _ => .failed hfault rfl

theorem Plain.bind {x : Eval α} {f : α → Eval β} (h : x.Plain) (hf : ∀ a, (f a).Plain) :
    (x >>= f).Plain := by
  intro m
  have hx := h m
  rw [bind_apply]
  cases hout : x m with
  | done a m' =>
    rw [hout] at hx
    cases hx with
    | done hdepth => exact (hf a m').trans hdepth
  | failed fault place m' =>
    rw [hout] at hx
    cases hx with
    | failed hfault hdepth => exact .failed hfault hdepth
  | signalled s m' =>
    rw [hout] at hx
    cases hx
  | exhausted m' =>
    rw [hout] at hx
    cases hx

/-! Variables -/

theorem plain_resolve (scope : FrameId) (name : Name) : (resolve scope name).Plain := by
  intro m
  unfold resolve
  split
  · exact .done rfl
  · exact .failed rfl rfl

theorem resolve_eq_done {scope frame : FrameId} {name : Name} {m m' : Machine}
    (h : resolve scope name m = .done frame m') :
    m.store.resolve scope name.text = some frame ∧ m' = m := by
  unfold resolve at h
  split at h
  · rename_i found hfound
    injection h with hframe hm
    exact ⟨hframe ▸ hfound, hm.symm⟩
  · exact absurd h (by simp)

theorem plain_setLocal (frame : FrameId) (name : Name) (v : Value) : (setLocal frame name v).Plain :=
  plain_change _

theorem plain_declare (frame : FrameId) (name : Name) (v : Value) : (declare frame name v).Plain := by
  unfold declare
  apply (plain_ask _).bind
  intro taken
  split
  · exact plain_fail rfl _
  · exact plain_setLocal frame name v

theorem plain_declareFunction (scope : FrameId) (definition : FunctionDef) :
    (declareFunction scope definition).Plain :=
  (plain_add _).bind fun _ => plain_declare _ _ _

theorem plain_declareThrown (frame : FrameId) (param : Option Name) (payload : Value) :
    (declareThrown frame param payload).Plain := by
  cases param with
  | none => exact plain_pure ()
  | some name => exact plain_declare frame name payload

theorem plain_bindParameters (frame : FrameId) (params : List Name) :
    ∀ arguments, (bindParameters frame params arguments).Plain := by
  induction params with
  | nil => exact fun _ => plain_pure ()
  | cons param params ih =>
    intro arguments
    exact (plain_setLocal frame param _).bind fun _ => ih arguments.tail

theorem plain_readVariable (scope : FrameId) (name : Name) : (readVariable scope name).Plain := by
  intro m
  unfold readVariable
  split
  · exact .failed rfl rfl
  · split
    · exact .failed rfl rfl
    · exact .done rfl

theorem plain_adjust (scope : FrameId) (name : Name) (step : Step) :
    (adjust scope name step).Plain := by
  apply (plain_readVariable scope name).bind
  intro old
  refine Plain.bind ?_ fun _ => plain_pure old
  exact (plain_resolve scope name).bind fun frame => plain_setLocal frame name _

theorem plain_assigned (frame : FrameId) (target : Name) (v : Value) :
    (do setLocal frame target v; pure v : Eval Value).Plain :=
  (plain_setLocal frame target v).bind fun _ => plain_pure v

/-! Arrays and structs -/

theorem plain_newArrayOfSize (size : Int32) (place : Span) : (newArrayOfSize size place).Plain := by
  unfold newArrayOfSize
  split
  · exact plain_fail rfl place
  · exact plain_add _

theorem plain_position (index : Int32) (length : Nat) (place : Span) :
    (position index length place).Plain := by
  unfold position
  split
  · exact plain_pure _
  · exact plain_fail rfl place

theorem plain_readIndex (target : Value) (index : Int32) (place : Span) :
    (readIndex target index place).Plain := by
  unfold readIndex
  split
  · apply (plain_ask _).bind
    intro items
    exact (plain_position index _ place).bind fun i => plain_pure _
  · exact (plain_position index _ place).bind fun i => plain_pure _
  · exact plain_fail rfl place

theorem plain_writeIndex (target : Value) (index : Int32) (v : Value) (place : Span) :
    (writeIndex target index v place).Plain := by
  unfold writeIndex
  split
  · apply (plain_ask _).bind
    intro size
    apply (plain_position index size place).bind
    intro i
    exact (plain_change _).bind fun _ => plain_pure v
  · exact plain_fail rfl place

theorem plain_readMember (target : Value) (member : Name) (place : Span) :
    (readMember target member place).Plain := by
  unfold readMember
  split
  · apply (plain_ask _).bind
    intro found
    cases found with
    | none => exact plain_fail rfl _
    | some v => exact plain_pure v
  · exact plain_fail rfl place

theorem plain_writeMember (target : Value) (member : Name) (v : Value) (place : Span) :
    (writeMember target member v place).Plain := by
  unfold writeMember
  split
  · apply (plain_ask _).bind
    intro present
    split
    · exact (plain_change _).bind fun _ => plain_pure v
    · exact plain_fail rfl _
  · exact plain_fail rfl place

theorem plain_applyBinary (op : BinaryOp) (a b : Value) (place : Span) :
    (applyBinary op a b place).Plain := by
  intro m
  unfold applyBinary
  split
  · exact .done rfl
  · exact .failed rfl rfl

/-! Host functions -/

theorem depth_run (action : NativeAction) (arguments : List Value) (m : Machine) :
    (action.run arguments m).2.depth = m.depth := by
  cases action with
  | writeFile =>
    simp only [NativeAction.run, Machine.writeFile]
    split
    · rfl
    · split
      · rfl
      · split <;> rfl
  | readFile =>
    simp only [NativeAction.run, Machine.readFile]
    split <;> rfl
  | keys =>
    simp only [NativeAction.run, Machine.keys]
    split <;> rfl
  | _ => rfl

theorem frames_run (action : NativeAction) (arguments : List Value) (m : Machine) :
    (action.run arguments m).2.store.frames = m.store.frames := by
  cases action with
  | writeFile =>
    simp only [NativeAction.run, Machine.writeFile]
    split
    · rfl
    · split
      · rfl
      · split <;> rfl
  | readFile =>
    simp only [NativeAction.run, Machine.readFile]
    split <;> rfl
  | keys =>
    simp only [NativeAction.run, Machine.keys]
    split <;> rfl
  | _ => rfl

theorem plain_callNative (f : Native) (arguments : List Value) (place : Span) :
    (callNative f arguments place).Plain := by
  intro m
  have hdepth := depth_run f.action (f.fit arguments) m
  unfold callNative Native.call
  cases hrun : f.action.run (f.fit arguments) m with
  | mk result m' =>
    rw [hrun] at hdepth
    cases result with
    | ok v => exact .done hdepth
    | error fault => exact .failed rfl hdepth

end Eval

end ScriptEngine
