import ScriptEngine.Proofs.Running.FailedCalls

/-!
Calls of functions whose home is gone. Such a call fails at once, with the name of the function, and
nothing else in a run fails in this way: a run that does has come to such a call.
-/
namespace ScriptEngine

/-- At the moment a function is called whose home is gone, and the call is not too deep. -/
def Moment.Stranded (limit : Nat) (name : String) (place : Span) (M : Moment) : Prop :=
  ∃ f arguments, M.task = .call f arguments place ∧ f.name = name ∧ M.machine.depth < limit ∧
    ¬ M.machine.store.isAlive f.home

/-! The call itself -/

/-- The new frame is counted, so the machine is not what it was. -/
theorem Eval.inChild_ne_failed {α : Type} {parent : FrameId} {body : FrameId → Eval α} {m : Machine}
    (h : (body m.store.frames.size).Keeps .whole (m.below parent) fun _ => True)
    (fault : RuntimeFault) (place : Span) : inChild parent body m ≠ .failed fault place m := by
  intro hfail
  have hfail : (body m.store.frames.size (m.below parent)).mapMachine
      (fun n => { n with store := n.store.dropFrame m.store.frames.size }) =
        .failed fault place m := hfail
  unfold Keeps at h
  cases hbody : body m.store.frames.size (m.below parent) with
  | failed fault' place' n =>
    rw [hbody] at h hfail
    injection hfail with _ _ hm
    have hsize : (m.below parent).store.frames.size ≤ n.store.frames.size := h.frames.size
    have hbelow : (m.below parent).store.frames.size = m.store.frames.size + 1 :=
      m.store.size_newChild parent
    have hdropped := congrArg (fun k : Machine => k.store.frames.size) hm
    simp only [Store.dropFrame, Array.size_setIfInBounds] at hdropped
    omega
  | _ =>
    rw [hbody] at hfail
    exact absurd hfail (by simp [Outcome.mapMachine])

/-- A call fails on the spot because the home is gone when that is so and the call is not too deep. -/
theorem Eval.call_eq_homeGone_iff (limit fuel : Nat) (f : Closure) (arguments : List Value)
    (place : Span) (m : Machine) :
    call limit (fuel + 1) f arguments place m = .failed (.homeGone f.name) place m ↔
      m.depth < limit ∧ ¬ m.store.isAlive f.home := by
  unfold call
  rw [bind_apply]
  unfold checkCall
  by_cases hdepth : limit ≤ m.depth
  · rw [if_pos hdepth]
    have hdepth' : ¬ m.depth < limit := Nat.not_lt_of_le hdepth
    simp [hdepth']
  · rw [if_neg hdepth]
    by_cases halive : m.store.isAlive f.home
    · rw [if_pos halive]
      refine ⟨fun hfail => ?_, fun h => absurd halive h.2⟩
      refine absurd hfail (inChild_ne_failed ?_ _ _)
      exact keeps_activation (evaluations .whole limit fuel) f place trivial (Nat.zero_le _)
        (Realm.whole_holds _) fun v _ => trivial
    · rw [if_neg halive]
      have hdepth' : m.depth < limit := Nat.lt_of_not_le hdepth
      simp [hdepth', halive]

/-- A run that fails because a home is gone has come to a call of a function whose home is gone. -/
theorem Eval.misses_script (limit fuel : Nat) (scope : FrameId) (body : List Stmt) (last : Value)
    (m : Machine) (name : String) (place : Span) (m' : Machine)
    (h : script limit fuel scope last body m = .failed (.homeGone name) place m') :
    ∃ N, Moment.Reaches limit ⟨.stmts scope body, m⟩ N ∧ N.Stranded limit name place := by
  obtain ⟨N, hN, hfails⟩ := blames_script limit fuel scope body last m _ place m' h rfl
  refine ⟨N, hN, ?_⟩
  cases hfails with
  | @refused f arguments n n' hcheck =>
    unfold checkCall at hcheck
    split at hcheck
    · exact absurd hcheck (by simp)
    · rename_i hdepth
      split at hcheck
      · exact absurd hcheck (by simp)
      · rename_i halive
        injection hcheck with hfault
        injection hfault with hname
        exact ⟨f, arguments, rfl, hname, Nat.lt_of_not_le hdepth, halive⟩
  | left _ _ _ _ hfault => exact absurd hfault (by simp)

end ScriptEngine
