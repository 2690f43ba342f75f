import ScriptEngine.Proofs.Running.Composition

/-!
Calls that fail. There are faults that only a call can have: it is refused, or a jump comes out of the
body. A run that fails for such a reason has come to the call that fails, for nothing around a call
changes or catches the fault.
-/
namespace ScriptEngine

namespace Moment

/-- The call that begins at the moment fails, and nothing inside it does. -/
inductive FailsAt (limit : Nat) (fault : RuntimeFault) (place : Span) : Moment → Prop where
  | refused {f arguments m m'} (hcheck : Eval.checkCall limit f place m = .failed fault place m') :
      FailsAt limit fault place ⟨.call f arguments place, m⟩
  | left {f arguments m m' m'' j at_} (fuel : Nat)
      (hcheck : Eval.checkCall limit f place m = .done () m)
      (hbind : Eval.bindParameters m.store.frames.size f.definition.params arguments
        (m.below f.home) = .done () m')
      (hbody : Eval.stmts limit fuel m.store.frames.size f.definition.body
        { m' with depth := m'.depth + 1 } = .signalled (.jump j at_) m'')
      (hfault : fault = .misplaced j.keyword) : FailsAt limit fault place ⟨.call f arguments place, m⟩

/-- From the moment the run comes to one at which a call fails. -/
def FailsIn (limit : Nat) (M : Moment) (fault : RuntimeFault) (place : Span) : Prop :=
  ∃ N, M.Reaches limit N ∧ N.FailsAt limit fault place

end Moment

namespace Eval

variable {α β : Type} {limit fuel : Nat} {m : Machine} {P : RuntimeFault → Span → Prop}

/-- When the evaluation fails as only a call can, this is so of the fault and its place. -/
def Blames (x : Eval α) (m : Machine) (P : RuntimeFault → Span → Prop) : Prop :=
  ∀ fault place m', x m = .failed fault place m' → fault.isOfCall → P fault place

theorem Plain.blames {x : Eval α} (h : x.Plain) : x.Blames m P := by
  intro fault place m' hx hfault
  have hplain := h m
  rw [hx] at hplain
  cases hplain with
  | failed hfault' => exact absurd (hfault'.symm.trans hfault) (by simp)

theorem Inspects.blames {x : Eval α} (h : x.Inspects) : x.Blames m P := by
  intro fault place m' hx hfault
  rcases h m.store with ⟨a, hdone⟩ | ⟨fault', place', hfault', hfailed⟩
  · exact absurd (hx.symm.trans (hdone m rfl)) (by simp)
  · obtain ⟨rfl, -, -⟩ := Outcome.failed.inj (hx.symm.trans (hfailed m rfl))
    exact absurd (hfault'.symm.trans hfault) (by simp)

theorem blames_exhausted : (exhausted : Eval α).Blames m P := by
  intro fault place m' h
  cases h

theorem blames_signal (s : Signal) : (signal s : Eval α).Blames m P := by
  intro fault place m' h
  cases h

theorem Blames.bind {x : Eval α} {f : α → Eval β} (h : x.Blames m P)
    (hf : ∀ a m', x m = .done a m' → (f a).Blames m' P) : (x >>= f).Blames m P := by
  intro fault place m' hfail
  rw [bind_apply] at hfail
  cases hx : x m with
  | done a m'' =>
    rw [hx] at hfail
    exact hf a m'' hx fault place m' hfail
  | signalled s m'' =>
    rw [hx] at hfail
    exact absurd hfail (by simp)
  | failed fault' place' m'' =>
    rw [hx] at hfail
    obtain ⟨rfl, rfl, -⟩ := Outcome.failed.inj hfail
    exact h fault' place' m'' hx
  | exhausted m'' =>
    rw [hx] at hfail
    exact absurd hfail (by simp)

/-! What is around them -/

theorem blames_inChild {parent : FrameId} {body : FrameId → Eval α}
    (h : (body m.store.frames.size).Blames (m.below parent) P) : (inChild parent body).Blames m P := by
  intro fault place m' hfail hfault
  have hfail : (body m.store.frames.size (m.below parent)).mapMachine
      (fun n => { n with store := n.store.dropFrame m.store.frames.size }) =
        .failed fault place m' := hfail
  cases hbody : body m.store.frames.size (m.below parent) with
  | failed fault' place' n =>
    rw [hbody] at hfail
    obtain ⟨rfl, rfl, -⟩ := Outcome.failed.inj hfail
    exact h fault' place' n hbody hfault
  | _ =>
    rw [hbody] at hfail
    exact absurd hfail (by simp [Outcome.mapMachine])

/-- A call makes one fault of its own: it fails when a jump comes out of the body. -/
theorem blames_asCall {body : Eval Unit} {place : Span}
    (h : body.Blames { m with depth := m.depth + 1 } P)
    (hjump : ∀ j at_ m', body { m with depth := m.depth + 1 } = .signalled (.jump j at_) m' →
      P (.misplaced j.keyword) place) : (asCall place body).Blames m P := by
  intro fault place' m' hfail hfault
  unfold asCall at hfail
  cases hbody : body { m with depth := m.depth + 1 } with
  | done a n =>
    rw [hbody] at hfail
    exact absurd hfail (by simp)
  | signalled s n =>
    rw [hbody] at hfail
    cases s with
    | jump j at_ =>
      obtain ⟨rfl, rfl, -⟩ := Outcome.failed.inj hfail
      exact hjump j at_ n hbody
    | transfer kind v at_ => cases kind <;> exact absurd hfail (by simp)
  | failed fault' at_ n =>
    rw [hbody] at hfail
    obtain ⟨rfl, rfl, -⟩ := Outcome.failed.inj hfail
    exact h fault' at_ n hbody hfault
  | exhausted n =>
    rw [hbody] at hfail
    exact absurd hfail (by simp)

theorem blames_catching {body : Eval Unit} {handler : Value → Eval Unit} (h : body.Blames m P)
    (hhandler : ∀ payload place m', body m = .signalled (.transfer .throw payload place) m' →
      (handler payload).Blames m' P) : (catching body handler).Blames m P := by
  intro fault place m' hfail hfault
  unfold catching at hfail
  cases hbody : body m with
  | signalled s n =>
    rw [hbody] at hfail
    cases s with
    | jump j at_ => exact absurd hfail (by simp)
    | transfer kind v at_ =>
      cases kind with
      | throw => exact hhandler v at_ n hbody fault place m' hfail hfault
      | _ => exact absurd hfail (by simp)
  | failed fault' at_ n =>
    rw [hbody] at hfail
    exact h fault place m' (hbody.trans hfail) hfault
  | _ =>
    rw [hbody] at hfail
    exact absurd hfail (by simp)

theorem blames_repeating {body again : Eval Unit} (h : body.Blames m P)
    (hagain : ∀ m', (body m = .done () m' ∨
      ∃ place, body m = .signalled (.jump .continue place) m') → again.Blames m' P) :
    (repeating body again).Blames m P := by
  intro fault place m' hfail hfault
  unfold repeating at hfail
  cases hbody : body m with
  | done a n =>
    rw [hbody] at hfail
    exact hagain n (Or.inl hbody) fault place m' hfail hfault
  | signalled s n =>
    rw [hbody] at hfail
    cases s with
    | jump j at_ =>
      cases j with
      | «continue» => exact hagain n (Or.inr ⟨at_, hbody⟩) fault place m' hfail hfault
      | «break» => exact absurd hfail (by simp)
    | transfer kind v at_ => exact absurd hfail (by simp)
  | failed fault' at_ n =>
    rw [hbody] at hfail
    exact h fault place m' (hbody.trans hfail) hfault
  | exhausted n =>
    rw [hbody] at hfail
    exact absurd hfail (by simp)

theorem blames_checkCall {M : Moment} {f : Closure} {arguments : List Value} {place : Span}
    (hM : M.Reaches limit ⟨.call f arguments place, m⟩) :
    (checkCall limit f place).Blames m (M.FailsIn limit) := by
  intro fault place' m' hfail _
  have hplace : place' = place := by
    unfold checkCall at hfail
    split at hfail
    · exact (Outcome.failed.inj hfail).2.1.symm
    · split at hfail
      · exact absurd hfail (by simp)
      · exact (Outcome.failed.inj hfail).2.1.symm
  subst hplace
  exact ⟨_, hM, .refused hfail⟩

/-- An evaluation in a run fails as calls do only at a call to which the run has come. -/
theorem composed_blames (limit : Nat) (M : Moment) :
    Composed limit (M.Reaches limit) fun x m => x.Blames m (M.FailsIn limit) where
  inward := Moment.inward_reaches limit M
  exhausted := blames_exhausted
  signal s := blames_signal s
  inspects h := h.blames
  adds _ := (plain_add _).blames
  assigned _ _ _ _ := (plain_setLocal _ _ _).blames
  adjusted _ _ _ _ := (plain_setLocal _ _ _).blames
  declared _ _ _ _ := (plain_setLocal _ _ _).blames
  passed _ _ _ _ := (plain_setLocal _ _ _).blames
  caught _ _ _ _ _ _ := (plain_setLocal _ _ _).blames
  admits := blames_checkCall
  native _ := (plain_callNative _ _ _).blames
  bind := Blames.bind
  inChild := blames_inChild
  asCall hM hcheck hbind h := blames_asCall h fun _ _ _ hbody =>
    ⟨_, hM, .left _ hcheck hbind hbody rfl⟩
  catching := blames_catching
  repeating := blames_repeating

/-- A run that fails as only a call can has come to a call that fails in this way. -/
theorem blames_script (limit fuel : Nat) (scope : FrameId) (body : List Stmt) (last : Value)
    (m : Machine) : (script limit fuel scope last body).Blames m
      (Moment.FailsIn limit ⟨.stmts scope body, m⟩) :=
  (composed_blames limit ⟨.stmts scope body, m⟩).script fuel scope body last m .refl

end Eval

end ScriptEngine
