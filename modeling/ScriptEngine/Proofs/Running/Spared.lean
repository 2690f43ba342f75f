import ScriptEngine.Proofs.Running.Composition
import ScriptEngine.Proofs.Running.Rest

/-!
Frames that are spared. The bindings of a frame change when a name is assigned to that means one of
them, or when code that runs in the frame declares a name, and by nothing else. When a run comes to no
such moment the frame binds what it did.
-/
namespace ScriptEngine

namespace Moment

/-- A name is about to be assigned to, and it means a binding of the frame. -/
def Assigns (M : Moment) (id : FrameId) : Prop :=
  ∃ scope e name, M.task = .expr scope e ∧
    ((∃ value span, e = .assign name value span) ∨ ∃ step span, e = .adjust name step span) ∧
    M.machine.store.resolve scope name.text = some id

/-- What is said of moments: it is said of all moments inside, the frame was made before, no name of it
is assigned to, and no statement runs in it. -/
structure Sparing (limit : Nat) (At : Moment → Prop) (id : FrameId) : Prop where
  inward : Inward limit At
  made : ∀ M, At M → id < M.machine.store.frames.size
  assigns : ∀ M, At M → ¬ M.Assigns id
  scope : ∀ scope s m, At ⟨.stmt scope s, m⟩ → scope ≠ id

end Moment

/-- The frame is still there to be numbered, and binds what it did. -/
structure Store.Spared (id : FrameId) (σ σ' : Store) : Prop where
  made : id < σ'.frames.size
  bindings : σ'.bindings id = σ.bindings id

theorem Store.Spared.trans {id : FrameId} {σ σ' σ'' : Store} (h : Store.Spared id σ σ')
    (h' : Store.Spared id σ' σ'') : Store.Spared id σ σ'' :=
  ⟨h'.made, h'.bindings.trans h.bindings⟩

theorem Store.spared_of_frames {id : FrameId} {σ σ' : Store} (hid : id < σ.frames.size)
    (h : σ'.frames = σ.frames) : Store.Spared id σ σ' := by
  refine ⟨h ▸ hid, ?_⟩
  unfold Store.bindings Store.frame?
  rw [h]

namespace Eval

variable {α β : Type} {limit : Nat} {id : FrameId} {m : Machine}

/-- Whatever comes of it, the evaluation that begins here spares the frame. -/
def Spares (x : Eval α) (id : FrameId) (m : Machine) : Prop :=
  id < m.store.frames.size → Store.Spared id m.store (x m).machine.store

theorem spares_of_frames {x : Eval α} (h : (x m).machine.store.frames = m.store.frames) :
    x.Spares id m :=
  fun hid => Store.spared_of_frames hid h

theorem Inspects.spares {x : Eval α} (h : x.Inspects) : x.Spares id m := by
  apply spares_of_frames
  rcases h m.store with ⟨a, hdone⟩ | ⟨fault, place, -, hfailed⟩
  · rw [hdone m rfl]
    rfl
  · rw [hfailed m rfl]
    rfl

theorem Spares.bind {x : Eval α} {f : α → Eval β} (h : x.Spares id m)
    (hf : ∀ a n, x m = .done a n → (f a).Spares id n) : (x >>= f).Spares id m := by
  intro hid
  have hx := h hid
  rw [bind_apply]
  cases hfirst : x m with
  | done a n =>
    rw [hfirst] at hx
    exact hx.trans (hf a n hfirst hx.made)
  | signalled s n =>
    rw [hfirst] at hx
    exact hx
  | failed fault place n =>
    rw [hfirst] at hx
    exact hx
  | exhausted n =>
    rw [hfirst] at hx
    exact hx

theorem spares_callNative (f : Native) (arguments : List Value) (place : Span) :
    (callNative f arguments place).Spares id m := by
  apply spares_of_frames
  have hframes := frames_run f.action (f.fit arguments) m
  unfold callNative Native.call
  cases hrun : f.action.run (f.fit arguments) m with
  | mk result m' =>
    rw [hrun] at hframes
    cases result with
    | ok v => exact hframes
    | error fault => exact hframes

theorem spares_checkCall (f : Closure) (place : Span) : (checkCall limit f place).Spares id m := by
  apply spares_of_frames
  unfold checkCall
  split
  · rfl
  · split <;> rfl

theorem spares_setLocal {frame : FrameId} (hframe : frame ≠ id) (name : Name) (v : Value) :
    (setLocal frame name v).Spares id m :=
  fun hid => ⟨Nat.lt_of_lt_of_eq hid (Store.size_setLocal ..).symm,
    Store.bindings_setLocal_of_ne hframe _ _⟩

/-! What is around them -/

theorem spares_inChild {parent : FrameId} {body : FrameId → Eval α}
    (h : (body m.store.frames.size).Spares id (m.below parent)) : (inChild parent body).Spares id m := by
  intro hid
  have hbelow : id < (m.below parent).store.frames.size :=
    Nat.lt_of_lt_of_eq (Nat.lt_succ_of_lt hid) (Store.size_newChild ..).symm
  have hbody := h hbelow
  have hold : (m.below parent).store.bindings id = m.store.bindings id :=
    Store.bindings_newChild (Nat.ne_of_lt hid) parent
  have hdrop : ∀ n : Machine, Store.Spared id (m.below parent).store n.store →
      Store.Spared id m.store (n.store.dropFrame m.store.frames.size) := by
    intro n hn
    refine ⟨Nat.lt_of_lt_of_eq hn.made (Store.size_dropFrame ..).symm, ?_⟩
    rw [Store.bindings_dropFrame, if_neg (Nat.ne_of_gt hid), hn.bindings, hold]
  change Store.Spared id m.store ((body m.store.frames.size (m.below parent)).mapMachine
    fun n => { n with store := n.store.dropFrame m.store.frames.size }).machine.store
  cases hend : body m.store.frames.size (m.below parent) with
  | _ =>
    rw [hend] at hbody
    exact hdrop _ hbody

theorem spares_asCall (place : Span) {body : Eval Unit}
    (h : body.Spares id { m with depth := m.depth + 1 }) : (asCall place body).Spares id m := by
  intro hid
  have hbody := h hid
  unfold asCall
  cases hend : body { m with depth := m.depth + 1 } with
  | signalled s n =>
    rw [hend] at hbody
    cases s with
    | jump j at_ => exact hbody
    | transfer kind v at_ => cases kind <;> exact hbody
  | _ =>
    rw [hend] at hbody
    exact hbody

theorem spares_catching {body : Eval Unit} {handler : Value → Eval Unit} (h : body.Spares id m)
    (hhandler : ∀ payload place n, body m = .signalled (.transfer .throw payload place) n →
      (handler payload).Spares id n) : (catching body handler).Spares id m := by
  intro hid
  have hbody := h hid
  unfold catching
  cases hend : body m with
  | signalled s n =>
    rw [hend] at hbody
    cases s with
    | jump j at_ => exact hbody
    | transfer kind v at_ =>
      cases kind with
      | throw => exact hbody.trans (hhandler v at_ n hend hbody.made)
      | _ => exact hbody
  | _ =>
    rw [hend] at hbody
    exact hbody

theorem spares_repeating {body again : Eval Unit} (h : body.Spares id m)
    (hagain : ∀ n, (body m = .done () n ∨
      ∃ place, body m = .signalled (.jump .continue place) n) → again.Spares id n) :
    (repeating body again).Spares id m := by
  intro hid
  have hbody := h hid
  unfold repeating
  cases hend : body m with
  | done a n =>
    rw [hend] at hbody
    exact hbody.trans (hagain n (Or.inl hend) hbody.made)
  | signalled s n =>
    rw [hend] at hbody
    cases s with
    | jump j at_ =>
      cases j with
      | «continue» => exact hbody.trans (hagain n (Or.inr ⟨at_, hend⟩) hbody.made)
      | «break» => exact hbody
    | transfer kind v at_ => exact hbody
  | _ =>
    rw [hend] at hbody
    exact hbody

/-- It is so of all evaluations at such moments. -/
theorem composed_spares {At : Moment → Prop} (hAt : Moment.Sparing limit At id) :
    Composed limit At fun x m => x.Spares id m where
  inward := hAt.inward
  exhausted := spares_of_frames rfl
  signal _ := spares_of_frames rfl
  inspects h := h.spares
  adds h := spares_of_frames (h _)
  assigned hM hframe := by
    refine fun v n => spares_setLocal ?_ _ v
    rintro rfl
    exact hAt.assigns _ hM ⟨_, _, _, rfl, Or.inl ⟨_, _, rfl⟩, hframe⟩
  adjusted hM hframe := by
    refine fun v n => spares_setLocal ?_ _ v
    rintro rfl
    exact hAt.assigns _ hM ⟨_, _, _, rfl, Or.inr ⟨_, _, rfl⟩, hframe⟩
  declared hM := fun name v n => spares_setLocal (hAt.scope _ _ _ hM) name v
  passed hM := fun name v n => spares_setLocal (Nat.ne_of_gt (hAt.made _ hM)) name v
  caught hM hbody hthrown := by
    have hmade := (hbody (hAt.made _ hM)).made
    rw [hthrown] at hmade
    exact fun name v n => spares_setLocal (Nat.ne_of_gt hmade) name v
  admits _ := spares_checkCall _ _
  native _ := spares_callNative _ _ _
  bind := Spares.bind
  inChild := spares_inChild
  asCall _ _ _ := spares_asCall _
  catching := spares_catching
  repeating := spares_repeating

end Eval

/-- A run that assigns to no name of a standard function leaves them as they are. -/
theorem Machine.bindings_top_script {m : Machine} {layers : Layers} {program : Program}
    {limit : Nat} (hrested : m.store.Rested) (halive : layers.Alive m.store)
    (hassigns : ∀ N, (m.outset layers program).Reaches limit N → ¬ N.Assigns m.store.frames.size)
    (fuel : Nat) :
    (Eval.script limit fuel layers.bindings .null program.body
      (m.begin layers).2).machine.store.bindings m.store.frames.size =
        Store.standardEntries m.store.nextIdentity := by
  have hsize : m.store.frames.size < (m.begin layers).2.store.frames.size :=
    Nat.lt_of_lt_of_eq (Nat.lt_succ_self _) (size_begin layers m).symm
  have hsparing : Moment.Sparing limit ((m.outset layers program).Reaches limit)
      m.store.frames.size := by
    have hin : (m.outset layers program).task.In m.store.runRealm := bindings_ne_top halive
    have hkeeps := fun N (hN : (m.outset layers program).Reaches limit N) =>
      reaches_keeps hN (runRealm_holds hrested layers) hin
    refine ⟨Moment.inward_reaches limit _, fun N hN => ?_, hassigns, fun scope s n hN => ?_⟩
    · exact Nat.lt_of_lt_of_le hsize (hkeeps N hN).1.frames.size
    · exact (hkeeps _ hN).2
  have hscript := (Eval.composed_spares hsparing).script fuel layers.bindings program.body .null _
    .refl
  rw [(hscript hsize).bindings, bindings_begin_top]

end ScriptEngine
