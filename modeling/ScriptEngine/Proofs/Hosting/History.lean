import ScriptEngine.Proofs.Hosting.Soundness
import ScriptEngine.Proofs.Running.Nesting

/-!
The runs that a session has had, and the functions that they have left. Each callable has a number, and
no number is given out twice, so the number of a function tells in which run it was declared. What a run
leaves behind of the functions that it declares are those that it declared in the set itself, outside
of all bodies of its program; and nothing that a host does between runs makes a function.
-/
namespace ScriptEngine

/-- A run that a session has had: the set that it was on, its program, and the numbers that it gave out,
from the first one to the one that came next. -/
structure Ran where
  on : FrameId
  program : Program
  first : Nat
  next : Nat

/-- The function was declared in the run: it has a number that was given out there. -/
def Ran.Declares (r : Ran) (f : Closure) : Prop := r.first ≤ f.identity ∧ f.identity < r.next

namespace Session

variable {s s' : Session} {on : FrameId} {limit : Nat} {history : List Ran}

/-! Functions that are new -/

/-- What a run makes of a session. Functions that come with it are bound where they were declared,
which is in a frame that the run has made, or in the set, outside of all bodies of the program. -/
def declaring (s : Session) (on : FrameId) (program : Program) : Realm where
  frames := fun _ => True
  scopes := fun _ => True
  cells := fun _ => True
  data := fun v => ∀ f, v = .function f → s.store.HasFunction f
  bound := fun id _ v => ∀ f, v = .function f → s.store.HasFunction f ∨
    s.store.nextIdentity ≤ f.identity ∧ f.home = id ∧
      (s.store.frames.size ≤ id ∨ id = on ∧ program.Encloses 0 (.stmt f.definition.declaration))
  code := fun scope c => s.store.frames.size ≤ scope ∨ scope = on ∧ program.Encloses 0 c
  callable := fun _ => True
  firstFrame := s.store.frames.size
  firstCell := 0
  firstIdentity := s.store.nextIdentity
  scope_of_new := fun _ _ => trivial
  frame_of_scope := fun _ _ => trivial
  cell_of_new := fun _ _ => trivial
  data_scalar := by
    rintro v hv f rfl
    exact absurd hv (by simp [Value.isScalar])
  data_array := fun cell => ⟨fun _ => trivial, fun _ f hf => absurd hf (by simp)⟩
  data_struct := fun cell => ⟨fun _ => trivial, fun _ f hf => absurd hf (by simp)⟩
  bound_of_new := fun _ _ _ _ hv f hf => Or.inl (hv f hf)
  bound_again := fun _ _ _ _ _ hv f hf => Or.inl (hv f hf)
  data_of_bound := by
    rintro id _ v hv hcallable f rfl
    exact absurd hcallable (by simp [Value.isCallable])
  callable_of_bound := fun _ _ _ _ _ => trivial
  scope_of_callable := fun _ _ => trivial
  code_of_callable := fun _ _ _ hnew => Or.inl hnew
  scope_of_code := fun _ _ _ => trivial
  code_of_part := fun _ _ _ h hpart => h.imp_right fun h => ⟨h.1, h.2.part hpart⟩
  code_of_opens := fun _ _ _ _ _ _ hnew => Or.inl hnew
  bound_of_declare := fun _ _ _ _ _ _ hv f hf => Or.inl (hv f hf)
  bound_of_function := by
    intro scope name params body span identity hscope hidentity f hf
    obtain rfl := Value.function.inj hf
    exact Or.inr ⟨hidentity, rfl, hscope⟩

theorem declaring_holds_begin (s : Session) (on : FrameId) (program : Program) (layers : Layers) :
    (s.declaring on program).Holds (s.machine.begin layers).2.store := by
  have hsize := Machine.size_begin layers s.machine
  refine ⟨?_, fun _ _ _ _ => trivial, ?_, ?_, Nat.zero_le _,
    Machine.nextIdentity_le_begin layers s.machine⟩
  · rintro id - ⟨name, v⟩ hentry f rfl
    exact Or.inl (Or.inl ⟨id, name, Machine.function_of_bindings_begin hentry⟩)
  · rintro cell content - hcontent v hv f rfl
    rw [Machine.cells_begin] at hcontent
    exact Or.inr ⟨cell, content, hcontent, hv⟩
  · exact Nat.le_trans (Nat.le_succ _) (Nat.le_of_eq hsize.symm)

theorem settled_declaring (s : Session) (on : FrameId) (program : Program) :
    (s.declaring on program).Settled (s.machine.begin ⟨on, s.globals⟩).2.store
      (Machine.conclude (Eval.script s.limit ampleFuel on .null program.body
        (s.machine.begin ⟨on, s.globals⟩).2)).2.store := by
  have hcode : (s.declaring on program).code on (.stmts program.body) := Or.inr ⟨rfl, .whole⟩
  exact (Outcome.Keeps.conclude (Eval.keeps_script s.limit ampleFuel program.body hcode .null
    (declaring_holds_begin s on program _) ((s.declaring on program).data_scalar .null rfl))).1

/-- A function that is there after a run was there before, or the program declares it in the set,
outside of all bodies. -/
theorem hasFunction_run {program : Program} {f : Closure}
    (hf : (s.run on program).2.store.HasFunction f) :
    s.store.HasFunction f ∨ s.store.nextIdentity ≤ f.identity ∧ f.home = on ∧
      program.Encloses 0 (.stmt f.definition.declaration) := by
  have hscript := settled_declaring s on program
  rcases hf with ⟨id, name, hf⟩ | ⟨cell, content, hcontent, hf⟩
  · have hunlink := Machine.settles_unlink hscript.settles
    have hid : id < s.store.frames.size := by
      apply Nat.lt_of_not_le
      intro hle
      have halive : (s.run on program).2.store.isAlive id := Store.isAlive_of_mem_bindings hf
      rw [Store.isAlive, show (s.run on program).2.store.frame? id = none from hunlink.gone id hle]
        at halive
      exact absurd halive (by simp)
    have hf := (Store.narrows_dropFrame _ _).bindings id _ hf
    rw [Layers.bindings_restore] at hf
    rcases hscript.holds.bindings id trivial _ hf f rfl with hold | ⟨hnumber, hhome, hplace⟩
    · exact Or.inl hold
    · rcases hplace with hnew | ⟨rfl, hencloses⟩
      · exact absurd hid (Nat.not_lt_of_le hnew)
      · exact Or.inr ⟨hnumber, hhome, hencloses⟩
  · have hcontent : (Layers.restore (Layers.parents ⟨on, s.globals⟩ s.store) _).cells[cell]? =
      some content := hcontent
    rw [Layers.cells_restore] at hcontent
    exact Or.inl (hscript.holds.cells cell content trivial hcontent _ hf f rfl)

theorem nextIdentity_le_run (s : Session) (on : FrameId) (program : Program) :
    s.store.nextIdentity ≤ (s.run on program).2.store.nextIdentity := by
  have hnext : (s.run on program).2.store.nextIdentity =
      (Machine.conclude (Eval.script s.limit ampleFuel on .null program.body
        (s.machine.begin ⟨on, s.globals⟩).2)).2.store.nextIdentity :=
    Layers.nextIdentity_restore _ _
  rw [hnext]
  exact Nat.le_trans (Machine.nextIdentity_le_begin _ s.machine)
    (settled_declaring s on program).identities

/-- Numbers are not given out twice, and functions that come have new ones. -/
theorem Step.functions (h : s.Step s') :
    s.store.nextIdentity ≤ s'.store.nextIdentity ∧ ∀ f, s'.store.HasFunction f →
      s.store.HasFunction f ∨ s.store.nextIdentity ≤ f.identity := by
  have narrow : ∀ {s s' : Session}, s.store.Narrows s'.store →
      s.store.nextIdentity ≤ s'.store.nextIdentity ∧ ∀ f, s'.store.HasFunction f →
        s.store.HasFunction f ∨ s.store.nextIdentity ≤ f.identity :=
    fun h => ⟨Nat.le_of_eq h.nextIdentity.symm, fun _ hf => Or.inl (h.hasFunction hf)⟩
  cases h with
  | mention name => exact narrow (s.narrows_set name)
  | globals name _ => exact narrow (s.narrows_withGlobals name)
  | share name _ => exact narrow (narrows_share s _ name)
  | drop name => exact narrow (s.narrows_drop name)
  | run program console files _ =>
    refine ⟨(s.equipped console files).nextIdentity_le_run _ program, fun f hf => ?_⟩
    exact (hasFunction_run hf).imp_right fun h => h.1
  | aggregate content hcontent =>
    exact ⟨Nat.le_refl _, fun f hf => Or.inl (hasFunction_aggregate hcontent hf)⟩
  | insert name _ hv => exact ⟨Nat.le_refl _, fun f hf => Or.inl (hasFunction_insert hv hf)⟩
  | remove name _ => exact ⟨Nat.le_refl _, fun f hf => Or.inl (hasFunction_remove hf)⟩

/-! Histories -/

/-- A session in which nothing had happened has come to be this one, and has had these runs, in this
order. Other steps give out no numbers. -/
inductive Came (limit : Nat) : List Ran → Session → Prop where
  | fresh : Came limit [] (fresh limit)
  | run {history : List Ran} {s : Session} {on : FrameId} (h : Came limit history s)
      (program : Program) (console : Console) (files : Files) (hon : s.Holds on) :
      Came limit
        (history ++ [⟨on, program, s.store.nextIdentity,
          ((s.equipped console files).run on program).2.store.nextIdentity⟩])
        ((s.equipped console files).run on program).2
  | other {history : List Ran} {s s' : Session} (h : Came limit history s) (hstep : s.Step s')
      (hnone : s'.store.nextIdentity = s.store.nextIdentity) : Came limit history s'

theorem Came.follows (h : Came limit history s) : (Session.fresh limit).Follows s := by
  induction h with
  | fresh => exact .refl
  | run _ program console files hon ih => exact ih.tail (.run program console files hon)
  | other _ hstep _ ih => exact ih.tail hstep

/-- A session has a history, whatever the host has done. -/
theorem exists_came (h : (fresh limit).Follows s) : ∃ history, Came limit history s := by
  induction h with
  | refl => exact ⟨[], .fresh⟩
  | tail _ hstep ih =>
    obtain ⟨history, hcame⟩ := ih
    cases hstep with
    | run program console files hon => exact ⟨_, hcame.run program console files hon⟩
    | mention name =>
      exact ⟨history, hcame.other (.mention name) (narrows_set _ name).nextIdentity⟩
    | globals name hnone =>
      exact ⟨history, hcame.other (.globals name hnone) (narrows_withGlobals _ name).nextIdentity⟩
    | share name hon =>
      exact ⟨history, hcame.other (.share name hon) (narrows_share _ _ name).nextIdentity⟩
    | drop name => exact ⟨history, hcame.other (.drop name) (narrows_drop _ name).nextIdentity⟩
    | aggregate content hcontent => exact ⟨history, hcame.other (.aggregate content hcontent) rfl⟩
    | insert name hon hv => exact ⟨history, hcame.other (.insert name hon hv) rfl⟩
    | remove name hon => exact ⟨history, hcame.other (.remove name hon) rfl⟩

theorem Came.next_le (h : Came limit history s) :
    ∀ r ∈ history, r.next ≤ s.store.nextIdentity := by
  induction h with
  | fresh => simp
  | @run history s on _ program console files hon ih =>
    have hlater := (s.equipped console files).nextIdentity_le_run on program
    intro r hr
    rcases List.mem_append.mp hr with hr | hr
    · exact Nat.le_trans (ih r hr) hlater
    · obtain rfl := List.mem_singleton.mp hr
      exact Nat.le_refl _
  | other _ _ hnone ih =>
    rw [hnone]
    exact ih

/-- A function that a run of the session has declared, and that is still there, was declared in the set
that the run was on, outside of all bodies of its program. -/
theorem Came.outermost (h : Came limit history s) {r : Ran} (hr : r ∈ history) {f : Closure}
    (hdeclares : r.Declares f) (hf : s.store.HasFunction f) :
    f.home = r.on ∧ r.program.Encloses 0 (.stmt f.definition.declaration) := by
  induction h with
  | fresh => simp at hr
  | @run history s on hcame program console files hon ih =>
    rcases List.mem_append.mp hr with hr | hr
    · -- the number was given out before the last run, so the function was there before it
      rcases hasFunction_run hf with hold | ⟨hnew, -⟩
      · exact ih hr hold
      · have hbefore := hcame.next_le r hr
        exact absurd (Nat.lt_of_lt_of_le hdeclares.2 hbefore) (Nat.not_lt_of_le hnew)
    · obtain rfl := List.mem_singleton.mp hr
      rcases hasFunction_run hf with hold | ⟨-, hplace⟩
      · obtain ⟨known, hsound, -⟩ := exists_sound hcame.follows
        exact absurd (hsound.functions f hold).2 (Nat.not_lt_of_le hdeclares.1)
      · exact hplace
  | other hcame hstep _ ih =>
    rcases hstep.functions.2 f hf with hold | hnew
    · exact ih hr hold
    · exact absurd (Nat.lt_of_lt_of_le hdeclares.2 (hcame.next_le r hr)) (Nat.not_lt_of_le hnew)

end Session

end ScriptEngine
