import ScriptEngine.Proofs.Hosting.Sessions
import ScriptEngine.Proofs.Running.CallDepth

/-!
What the limit of the call depth does to a run and to a session. A run that does not come up against
the limit is the same with a higher one, no run goes beyond it, and whatever became of what a host did
before, the next call can go as deep as the first one could.
-/
namespace ScriptEngine

namespace Machine

theorem depth_run (limit fuel : Nat) (layers : Layers) (program : Program) (m : Machine) :
    (m.run limit fuel layers program).2.depth = 0 := by
  have hscript := (Eval.agrees_script (Nat.le_refl limit) fuel layers.bindings program.body .null
    (m.begin layers).2).depth
  rw [← machine_conclude] at hscript
  exact hscript

/-- What becomes of a run that does not fail because calls are too deep for the limit does not depend
on the limit. -/
theorem run_eq_of_le {limit higher fuel : Nat} {layers : Layers} {program : Program} {m : Machine}
    (hlimit : limit ≤ higher) (hrun : ∀ place, (m.run limit fuel layers program).1 ≠
      .error ((RuntimeFault.tooManyCalls limit).toError place)) :
    m.run higher fuel layers program = m.run limit fuel layers program := by
  have hscript := Eval.agrees_script hlimit fuel layers.bindings program.body .null
    (m.begin layers).2
  unfold run at hrun ⊢
  change ∀ place, (conclude (Eval.script limit fuel layers.bindings .null program.body
    (m.begin layers).2)).1 ≠ _ at hrun
  dsimp only
  generalize Eval.script limit fuel layers.bindings .null program.body (m.begin layers).2 = first,
    Eval.script higher fuel layers.bindings .null program.body (m.begin layers).2 = second
    at hscript hrun
  cases hscript with
  | same hdepth => rfl
  | @tooDeep place m' _ hdepth => exact absurd rfl (hrun place)

end Machine

namespace Session

variable {s s' : Session}

/-- The session after the host has called a function. -/
def afterCall (s : Session) (f : Closure) (arguments : List Value) (place : Span) : Session :=
  { s with machine := (s.call f arguments place).machine }

/-- What a host can do, calls of functions included. -/
inductive Serves : Session → Session → Prop where
  | step {s s' : Session} (h : s.Step s') : Serves s s'
  | call {s : Session} (f : Closure) (arguments : List Value) (place : Span) :
      Serves s (s.afterCall f arguments place)

theorem depth_call (limit fuel : Nat) (f : Closure) (arguments : List Value) (place : Span)
    (m : Machine) : (Eval.call limit fuel f arguments place m).machine.depth = m.depth :=
  ((Eval.agreements (Nat.le_refl limit) fuel).call f arguments place m).depth

theorem depth_set (s : Session) (name : String) :
    (s.set name).2.machine.depth = s.machine.depth := by
  unfold Session.set
  split <;> rfl

theorem depth_drop (s : Session) (name : String) :
    (s.drop name).machine.depth = s.machine.depth := by
  unfold Session.drop
  split <;> rfl

theorem Step.depth (h : s.Step s') (hs : s.machine.depth = 0) : s'.machine.depth = 0 := by
  cases h with
  | mention name => exact (s.depth_set name).trans hs
  | globals name hnone => exact (s.depth_set name).trans hs
  | run program console files hon => exact Machine.depth_run _ _ _ _ _
  | aggregate content hcontent => exact hs
  | insert name hon hv => exact hs
  | remove name hon => exact hs
  | share name hon => exact (depth_drop _ name).trans hs
  | drop name => exact (s.depth_drop name).trans hs

theorem depth_serves {limit : Nat} (hs : Relation.ReflTransGen Serves (fresh limit) s) :
    s.machine.depth = 0 := by
  induction hs with
  | refl => rfl
  | tail _ hlast ih =>
    cases hlast with
    | step h => exact h.depth ih
    | call f arguments place => exact (depth_call _ _ f arguments place _).trans ih

/-- The limit bounds the calls that are active at one time, and does nothing else. A run that does not
end because calls are too deep for a limit ends in the same way with every higher limit, with the same
machine. Every moment that a run comes to has some number of active calls around it; this is the depth,
and it is never above the limit. Whatever comes of a call, it leaves the depth as it found it. Whatever
a host has done in a session, no call is active afterwards, and a function that it calls can go as deep
as the limit says. -/
theorem callDepth_limit :
    (∀ (limit higher fuel : Nat) (layers : Layers) (program : Program) (m : Machine),
      limit ≤ higher →
      (∀ place, (m.run limit fuel layers program).1 ≠
        .error ((RuntimeFault.tooManyCalls limit).toError place)) →
      m.run higher fuel layers program = m.run limit fuel layers program) ∧
    (∀ (limit : Nat) (M N : Moment), M.Reaches limit N ↔ ∃ calls, M.Within limit calls N) ∧
    (∀ (limit : Nat) (layers : Layers) (program : Program) (m : Machine) (calls : Nat) (M : Moment),
      (m.outset layers program).Within limit calls M → M.machine.depth = calls ∧ calls ≤ limit) ∧
    (∀ (limit fuel : Nat) (f : Closure) (arguments : List Value) (place : Span) (m : Machine),
      (Eval.call limit fuel f arguments place m).machine.depth = m.depth) ∧
    ∀ (limit : Nat) (s : Session), Relation.ReflTransGen Serves (fresh limit) s →
      s.machine.depth = 0 ∧
        ∀ (f : Closure) (arguments : List Value) (place : Span) (calls : Nat) (M : Moment),
          Moment.Within s.limit ⟨.call f arguments place, s.machine⟩ calls M →
            M.machine.depth = calls ∧ calls ≤ s.limit := by
  have hactive : ∀ {limit calls M N}, Moment.Within limit M calls N → M.machine.depth = 0 →
      N.machine.depth = calls ∧ calls ≤ limit := by
    intro limit calls M N hN hM
    obtain ⟨hdepth, hle⟩ := depth_within hN (Nat.le_trans (Nat.le_of_eq hM) (Nat.zero_le limit))
    rw [hM, Nat.zero_add] at hdepth
    exact ⟨hdepth, hdepth ▸ hle⟩
  refine ⟨fun _ _ _ _ _ _ => Machine.run_eq_of_le, fun _ _ _ => Moment.reaches_iff_within,
    fun _ _ _ _ _ _ hM => hactive hM rfl, depth_call,
    fun limit s hs => ⟨depth_serves hs, fun _ _ _ _ _ hM => ?_⟩⟩
  exact hactive hM (depth_serves hs)

/-- A function without statements, in a set of its own. -/
def idleFunction : Closure := ⟨0, ⟨⟨"f", default⟩, [], [], default⟩, 0⟩

def idleMachine : Machine :=
  { Machine.start with store := ⟨#[some ⟨[("f", .function idleFunction)], none, 1⟩], #[], 1⟩ }

def idleProgram : Program := ⟨[.expression (.call ⟨"f", default⟩ [] default) default], default⟩

theorem callDepth_limit_idle :
    idleMachine.run 3 10 ⟨0, none⟩ idleProgram = idleMachine.run 1 10 ⟨0, none⟩ idleProgram ∧
      (∃ M, (idleMachine.outset ⟨0, none⟩ idleProgram).Within 1 1 M ∧ M.machine.depth = 1) ∧
      ((fresh 0).afterCall idleFunction [] default).machine.depth = 0 := by
  obtain ⟨hsame, -, hdepth, -, hsession⟩ := callDepth_limit
  refine ⟨hsame 1 3 10 ⟨0, none⟩ idleProgram idleMachine (by decide) ?_, ?_, ?_⟩
  · intro place hrun
    have hvalue : (idleMachine.run 1 10 ⟨0, none⟩ idleProgram).1 = .value .null := rfl
    rw [hvalue] at hrun
    exact absurd hrun (by simp)
  · have hcall : (idleMachine.outset ⟨0, none⟩ idleProgram).Within 1 0
        ⟨.call idleFunction [] default, (idleMachine.outset ⟨0, none⟩ idleProgram).machine⟩ :=
      .step (.step (.step .refl .first) (.part rfl)) (.call 1 rfl rfl rfl)
    have hbody := hcall.step (.activation rfl rfl)
    exact ⟨_, hbody, (hdepth 1 ⟨0, none⟩ idleProgram idleMachine 1 _ hbody).1⟩
  · exact (hsession 0 _ (.single (.call idleFunction [] default))).1

end Session

end ScriptEngine
