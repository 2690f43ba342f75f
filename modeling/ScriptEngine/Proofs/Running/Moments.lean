import Mathlib.Logic.Relation
import ScriptEngine.Proofs.Running.Evaluation
import ScriptEngine.Run.Program

/-!
The moments of a run. A moment is the beginning of an evaluation, with the machine that it begins on.
It is entered from the evaluation around it, once the parts that come before have been evaluated. The
machine at a moment is what evaluation makes of it, whatever becomes of the run afterwards.
-/
namespace ScriptEngine

/-- Something that a run evaluates. -/
inductive Task where
  | expr (scope : FrameId) (e : Expr)
  | call (f : Closure) (arguments : List Value) (place : Span)
  | native (f : Native) (arguments : List Value) (place : Span)
  | stmt (scope : FrameId) (s : Stmt)
  | stmts (scope : FrameId) (body : List Stmt)

structure Moment where
  task : Task
  machine : Machine

/-- Evaluates the task; statements give null. -/
def Task.eval (limit fuel : Nat) : Task → Eval Value
  | expr scope e => Eval.expr limit fuel scope e
  | call f arguments place => Eval.call limit fuel f arguments place
  | native f arguments place => Eval.callNative f arguments place
  | stmt scope s => do
    Eval.stmt limit fuel scope s
    pure .null
  | stmts scope body => do
    Eval.stmts limit fuel scope body
    pure .null

/-- The expressions are evaluated in turn, and each of them has a value. -/
inductive Eval.Passes (limit : Nat) (scope : FrameId) : List Expr → Machine → Machine → Prop where
  | nil {m} : Passes limit scope [] m m
  | cons {e rest m v m' m''} (fuel : Nat) (hfirst : Eval.expr limit fuel scope e m = .done v m')
      (hrest : Passes limit scope rest m' m'') : Passes limit scope (e :: rest) m m''

/-- The machine with a new frame below this one. -/
def Machine.below (m : Machine) (parent : FrameId) : Machine :=
  { m with store := (m.store.newChild parent).2 }

/-- From the beginning of one evaluation the run comes to the beginning of another one inside it. -/
inductive Enters (limit : Nat) : Moment → Moment → Prop where
  | operand {scope e before x after m m'}
      (hsubject : ∀ name ∈ e.subject?, (m.store.resolve scope name.text).isSome)
      (hoperands : e.operands = before ++ x :: after)
      (hbefore : Eval.Passes limit scope before m m') :
      Enters limit ⟨.expr scope e, m⟩ ⟨.expr scope x, m'⟩
  | call {scope callee arguments place m frame vs m' f} (fuel : Nat)
      (hframe : m.store.resolve scope callee.text = some frame)
      (harguments : Eval.exprs limit fuel scope arguments m = .done vs m')
      (hcallee : m'.store.getLocal? frame callee.text = some (.function f)) :
      Enters limit ⟨.expr scope (.call callee arguments place), m⟩ ⟨.call f vs place, m'⟩
  | native {scope callee arguments place m frame vs m' f} (fuel : Nat)
      (hframe : m.store.resolve scope callee.text = some frame)
      (harguments : Eval.exprs limit fuel scope arguments m = .done vs m')
      (hcallee : m'.store.getLocal? frame callee.text = some (.native f)) :
      Enters limit ⟨.expr scope (.call callee arguments place), m⟩ ⟨.native f vs place, m'⟩
  | activation {f arguments place m m'} (hcheck : Eval.checkCall limit f place m = .done () m)
      (hbind : Eval.bindParameters m.store.frames.size f.definition.params arguments
        (m.below f.home) = .done () m') :
      Enters limit ⟨.call f arguments place, m⟩
        ⟨.stmts m.store.frames.size f.definition.body, { m' with depth := m'.depth + 1 }⟩
  | part {scope s e m} (hoperand : s.operand? = some e) :
      Enters limit ⟨.stmt scope s, m⟩ ⟨.expr scope e, m⟩
  | block {scope body span m} :
      Enters limit ⟨.stmt scope (.block body span), m⟩
        ⟨.stmts m.store.frames.size body, m.below scope⟩
  | branch {scope condition thenBranch elseBranch span m v m' chosen} (fuel : Nat)
      (hcondition : Eval.expr limit fuel scope condition m = .done v m')
      (hchosen : (if v.truth then some thenBranch else elseBranch) = some chosen) :
      Enters limit ⟨.stmt scope (.branch condition thenBranch elseBranch span), m⟩
        ⟨.stmt scope chosen, m'⟩
  | pass {scope condition body span m v m'} (fuel : Nat)
      (hcondition : Eval.expr limit fuel scope condition m = .done v m') (htruth : v.truth) :
      Enters limit ⟨.stmt scope (.loop condition body span), m⟩ ⟨.stmt scope body, m'⟩
  | again {scope condition body span m v m' m''} (fuel : Nat)
      (hcondition : Eval.expr limit fuel scope condition m = .done v m') (htruth : v.truth)
      (hbody : Eval.stmt limit fuel scope body m' = .done () m'' ∨
        ∃ place, Eval.stmt limit fuel scope body m' = .signalled (.jump .continue place) m'') :
      Enters limit ⟨.stmt scope (.loop condition body span), m⟩
        ⟨.stmt scope (.loop condition body span), m''⟩
  | attempt {scope body bodySpan param handler handlerSpan span m} :
      Enters limit ⟨.stmt scope (.attempt body bodySpan param handler handlerSpan span), m⟩
        ⟨.stmts m.store.frames.size body, m.below scope⟩
  | handler {scope body bodySpan param handler handlerSpan span m payload place m' m''} (fuel : Nat)
      (hthrown : Eval.inChild scope (fun frame => Eval.stmts limit fuel frame body) m =
        .signalled (.transfer .throw payload place) m')
      (hparam : Eval.declareThrown m'.store.frames.size param payload (m'.below scope) =
        .done () m'') :
      Enters limit ⟨.stmt scope (.attempt body bodySpan param handler handlerSpan span), m⟩
        ⟨.stmts m'.store.frames.size handler, m''⟩
  | first {scope s rest m} :
      Enters limit ⟨.stmts scope (s :: rest), m⟩ ⟨.stmt scope s, m⟩
  | rest {scope s rest m m'} (fuel : Nat) (hfirst : Eval.stmt limit fuel scope s m = .done () m') :
      Enters limit ⟨.stmts scope (s :: rest), m⟩ ⟨.stmts scope rest, m'⟩

/-- One moment comes inside another one. -/
def Moment.Reaches (limit : Nat) : Moment → Moment → Prop := Relation.ReflTransGen (Enters limit)

/-- The first moment of a run. -/
def Machine.outset (m : Machine) (layers : Layers) (program : Program) : Moment :=
  ⟨.stmts layers.bindings program.body, (m.begin layers).2⟩

/-! Moments in a realm -/

/-- The task may be done in the realm, and its values are of the realm. -/
def Task.In (R : Realm) : Task → Prop
  | expr scope e => R.code scope (.expr e)
  | call f arguments _ => R.callable f ∧ ∀ v ∈ arguments, R.data v
  | native _ arguments _ => ∀ v ∈ arguments, R.data v
  | stmt scope s => R.code scope (.stmt s)
  | stmts scope body => R.code scope (.stmts body)

/-- Every task may be done where everything may be. -/
theorem Task.in_whole (task : Task) : task.In .whole := by
  cases task with
  | call f arguments place => exact ⟨trivial, fun _ _ => trivial⟩
  | native f arguments place => exact fun _ _ => trivial
  | _ => trivial

namespace Eval.Keeps

variable {α : Type} {R : Realm} {x : Eval α} {m m' : Machine} {ok : α → Prop}

theorem of_done {a : α} (h : x.Keeps R m ok) (hx : x m = .done a m') :
    R.Settled m.store m'.store ∧ ok a := by
  unfold Eval.Keeps at h
  rw [hx] at h
  exact h

theorem of_signalled {s : Signal} (h : x.Keeps R m ok) (hx : x m = .signalled s m') :
    R.Settled m.store m'.store ∧ ∀ v, s.value? = some v → R.data v := by
  unfold Eval.Keeps at h
  rw [hx] at h
  exact h

end Eval.Keeps

/-- What a run leaves and gives the host is of the realm when its outcome is. -/
theorem Outcome.Keeps.conclude {R : Realm} {σ : Store} {outcome : Outcome Value}
    (h : outcome.Keeps R σ R.data) :
    R.Settled σ (Machine.conclude outcome).2.store ∧
      ∀ v, (Machine.conclude outcome).1 = .value v → R.data v := by
  cases outcome with
  | done w m =>
    refine ⟨h.1, fun v hv => ?_⟩
    obtain rfl := Ending.value.inj hv
    exact h.2
  | signalled s m =>
    cases s with
    | jump j place => exact ⟨h.1, fun v hv => absurd hv (by simp [Machine.conclude])⟩
    | transfer kind w place =>
      cases kind with
      | exit =>
        refine ⟨h.1, fun v hv => ?_⟩
        obtain rfl := Ending.value.inj hv
        exact h.2 w rfl
      | «return» => exact ⟨h.1, fun v hv => absurd hv (by simp [Machine.conclude])⟩
      | throw => exact ⟨h.1, fun v hv => absurd hv (by simp [Machine.conclude])⟩
  | failed fault place m => exact ⟨h, fun v hv => absurd hv (by simp [Machine.conclude])⟩
  | exhausted m => exact ⟨h, fun v hv => absurd hv (by simp [Machine.conclude])⟩

variable {R : Realm} {limit : Nat} {M N : Moment}

theorem keeps_task (fuel : Nat) (hM : R.Holds M.machine.store) (hin : M.task.In R) :
    (M.task.eval limit fuel).Keeps R M.machine R.data := by
  obtain ⟨task, m⟩ := M
  have hall := Eval.evaluations R limit fuel
  cases task with
  | expr scope e => exact hall.expr e hin hM
  | call f arguments place => exact hall.call f arguments place hin.1 hM hin.2
  | native f arguments place => exact Eval.keeps_callNative hM f hin place
  | stmt scope s =>
    apply (hall.stmt s hin hM).bind
    intro _ m' hm' _
    exact Eval.keeps_pure hm'.holds (R.data_scalar .null rfl)
  | stmts scope body =>
    apply (hall.stmts body hin hM).bind
    intro _ m' hm' _
    exact Eval.keeps_pure hm'.holds (R.data_scalar .null rfl)

theorem settled_passes {scope : FrameId} {es : List Expr} {m m' : Machine}
    (h : Eval.Passes limit scope es m m') (hcode : ∀ e ∈ es, R.code scope (.expr e))
    (hm : R.Holds m.store) : R.Settled m.store m'.store := by
  induction h with
  | nil => exact .refl hm
  | cons fuel hfirst _ ih =>
    rw [List.forall_mem_cons] at hcode
    obtain ⟨hstore, -⟩ := ((Eval.evaluations R limit fuel).expr _ hcode.1 hm).of_done hfirst
    exact hstore.trans (ih hcode.2 hstore.holds)

/-- The code of a task and the scope that it is in; a call finds its own. -/
def Task.place? : Task → Option (FrameId × Code)
  | expr scope e => some (scope, .expr e)
  | call _ _ _ => none
  | native _ _ _ => none
  | stmt scope s => some (scope, .stmt s)
  | stmts scope body => some (scope, .stmts body)

def Task.scope? (task : Task) : Option FrameId := task.place?.map Prod.fst

/-- The code whose bodies the task runs, and the frame below which they get their frames. A call runs
the body of a function where the function was declared. -/
def Task.opener? : Task → Option (FrameId × Code)
  | call f _ _ => some (f.home, .stmt f.definition.declaration)
  | task => task.place?

/-- The code goes on in the scope that it was in, with itself or a part of it, or with a body of it in a
new frame below that one or, in a call, below the home of the function, which is there. -/
inductive Realm.Passage (R : Realm) (M N : Moment) : Prop where
  | within (hstore : R.Settled M.machine.store N.machine.store)
      (hplace : ∀ scope c, N.task.place? = some (scope, c) →
        ∃ whole, M.task.place? = some (scope, whole) ∧ (c = whole ∨ whole.Part c))
  | below {σ parent whole body} (hstore : R.Settled M.machine.store σ) (hparent : R.scopes parent)
      (hopener : M.task.opener? = some (parent, whole)) (hopens : whole.Opens body)
      (hground : M.task.scope? = some parent ∨ M.machine.store.isAlive parent)
      (hframe : R.Settled (σ.newChild parent).2 N.machine.store)
      (htask : N.task = .stmts σ.frames.size body)

theorem Realm.passage_of_part (hstore : R.Settled M.machine.store N.machine.store) {scope : FrameId}
    {whole c : Code} (hwhole : M.task.place? = some (scope, whole))
    (hc : N.task.place? = some (scope, c)) (hpart : c = whole ∨ whole.Part c) : R.Passage M N := by
  refine .within hstore fun scope' c' hc' => ?_
  obtain ⟨rfl, rfl⟩ := Prod.mk.inj (Option.some.inj (hc.symm.trans hc'))
  exact ⟨whole, hwhole, hpart⟩

/-- The arguments of a call come before it. -/
theorem Realm.passage_of_call (hstore : R.Settled M.machine.store N.machine.store)
    (hplace : N.task.place? = none) : R.Passage M N :=
  .within hstore fun _ _ hc => absurd (hplace.symm.trans hc) (by simp)

theorem Realm.Passage.onward (h : R.Passage M N) : R.Onward M.machine.store N.machine.store := by
  cases h with
  | within hstore hplace => exact hstore.toOnward
  | below hstore hparent hopener hopens hground hframe htask =>
    obtain ⟨-, hchild⟩ := R.onward_newChild hstore.holds (R.frame_of_scope _ hparent)
    exact (hstore.toOnward.trans hchild).trans hframe.toOnward

theorem Eval.checkCall_eq_done {f : Closure} {place : Span} {m m' : Machine}
    (h : Eval.checkCall limit f place m = .done () m') : m.store.isAlive f.home ∧ m' = m := by
  unfold Eval.checkCall at h
  split at h
  · exact absurd h (by simp)
  · split at h
    · rename_i halive
      injection h with _ hm
      exact ⟨halive, hm.symm⟩
    · exact absurd h (by simp)

/-- A moment that is entered from a moment in the realm is in the realm. -/
theorem enters_passage (h : Enters limit M N) (hM : R.Holds M.machine.store) (hin : M.task.In R) :
    N.task.In R ∧ R.Passage M N := by
  have hall := Eval.evaluations R limit
  have hnew := hM.frameSize
  cases h with
  | @operand _ e before x _ _ _ hsubject hoperands hbefore =>
    have hpart : ∀ y ∈ before ++ [x], Code.Part (.expr e) (.expr y) := fun y hy =>
      .operand (by rw [hoperands]; exact List.mem_append.mpr (by simpa [or_assoc] using Or.inl hy))
    have hstore := settled_passes hbefore (fun y hy =>
      R.code_of_part _ _ _ hin (hpart y (List.mem_append_left _ hy))) hM
    have hx := hpart x (by simp)
    exact ⟨R.code_of_part _ _ _ hin hx, R.passage_of_part hstore rfl rfl (Or.inr hx)⟩
  | call fuel hframe harguments hcallee =>
    have hoperand := fun x hx => R.code_of_part _ _ (.expr x) hin (.operand hx)
    obtain ⟨hstore, hvs⟩ := ((hall fuel).exprs _ hoperand hM).of_done harguments
    have hscope := R.frame_of_scope _ (R.scope_of_code _ _ hin)
    have hin' := R.frame_of_resolve hM hscope hframe
    have hbound := R.bound_of_getLocal? hstore.holds hin' hcallee
    exact ⟨⟨R.callable_of_bound _ _ _ hin' hbound, hvs⟩, R.passage_of_call hstore rfl⟩
  | native fuel hframe harguments hcallee =>
    have hoperand := fun x hx => R.code_of_part _ _ (.expr x) hin (.operand hx)
    obtain ⟨hstore, hvs⟩ := ((hall fuel).exprs _ hoperand hM).of_done harguments
    exact ⟨hvs, R.passage_of_call hstore rfl⟩
  | activation hcheck hbind =>
    obtain ⟨halive, -⟩ := Eval.checkCall_eq_done hcheck
    have hhome := R.scope_of_callable _ hin.1
    obtain ⟨-, hchild⟩ := R.onward_newChild hM (R.frame_of_scope _ hhome)
    obtain ⟨hstore, -⟩ := (Eval.keeps_bindParameters _ _ (m := Machine.below _ _) hchild.holds
      hnew hin.2).of_done hbind
    exact ⟨R.code_of_callable _ _ hin.1 hnew,
      .below (.refl hM) hhome rfl .function (Or.inr halive) hstore rfl⟩
  | part hoperand =>
    have hpart := Code.Part.evaluated hoperand
    exact ⟨R.code_of_part _ _ _ hin hpart, R.passage_of_part (.refl hM) rfl rfl (Or.inr hpart)⟩
  | block =>
    have hscope := R.scope_of_code _ _ hin
    obtain ⟨-, hchild⟩ := R.onward_newChild hM (R.frame_of_scope _ hscope)
    exact ⟨R.code_of_opens _ _ _ _ hin .block hnew,
      .below (.refl hM) hscope rfl .block (Or.inl rfl) (.refl hchild.holds) rfl⟩
  | @branch scope condition thenBranch elseBranch span _ v _ chosen fuel hcondition hchosen =>
    have hexpr := R.code_of_part _ _ _ hin (.evaluated rfl)
    obtain ⟨hstore, -⟩ := ((hall fuel).expr _ hexpr hM).of_done hcondition
    have hpart : Code.Part (.stmt (.branch condition thenBranch elseBranch span))
        (.stmt chosen) := by
      split at hchosen
      · obtain rfl := Option.some.inj hchosen
        exact .thenBranch
      · subst hchosen
        exact .elseBranch
    exact ⟨R.code_of_part _ _ _ hin hpart, R.passage_of_part hstore rfl rfl (Or.inr hpart)⟩
  | pass fuel hcondition htruth =>
    have hexpr := R.code_of_part _ _ _ hin (.evaluated rfl)
    obtain ⟨hstore, -⟩ := ((hall fuel).expr _ hexpr hM).of_done hcondition
    exact ⟨R.code_of_part _ _ _ hin .pass, R.passage_of_part hstore rfl rfl (Or.inr .pass)⟩
  | again fuel hcondition htruth hbody =>
    have hexpr := R.code_of_part _ _ _ hin (.evaluated rfl)
    have hcode := R.code_of_part _ _ _ hin .pass
    obtain ⟨hstore, -⟩ := ((hall fuel).expr _ hexpr hM).of_done hcondition
    have hpass := (hall fuel).stmt _ hcode hstore.holds
    refine ⟨hin, R.passage_of_part (hstore.trans ?_) rfl rfl (Or.inl rfl)⟩
    rcases hbody with hbody | ⟨place, hbody⟩
    · exact (hpass.of_done hbody).1
    · exact (hpass.of_signalled hbody).1
  | attempt =>
    have hscope := R.scope_of_code _ _ hin
    obtain ⟨-, hchild⟩ := R.onward_newChild hM (R.frame_of_scope _ hscope)
    exact ⟨R.code_of_opens _ _ _ _ hin .attempt hnew,
      .below (.refl hM) hscope rfl .attempt (Or.inl rfl) (.refl hchild.holds) rfl⟩
  | handler fuel hthrown hparam =>
    have hscope := R.scope_of_code _ _ hin
    have hframe := R.frame_of_scope _ hscope
    obtain ⟨hstore, hpayload⟩ := ((hall fuel).block hin .attempt hM).of_signalled hthrown
    obtain ⟨-, hchild⟩ := R.onward_newChild hstore.holds hframe
    have hnew' := hstore.holds.frameSize
    obtain ⟨hstore', -⟩ := (Eval.keeps_declareThrown (m := Machine.below _ _) hchild.holds
      hnew' _ (hpayload _ rfl)).of_done hparam
    exact ⟨R.code_of_opens _ _ _ _ hin .handler hnew',
      .below hstore hscope rfl .handler (Or.inl rfl) hstore' rfl⟩
  | first =>
    exact ⟨R.code_of_part _ _ _ hin .first, R.passage_of_part (.refl hM) rfl rfl (Or.inr .first)⟩
  | rest fuel hfirst =>
    have hcode := R.code_of_part _ _ _ hin .first
    obtain ⟨hstore, -⟩ := ((hall fuel).stmt _ hcode hM).of_done hfirst
    exact ⟨R.code_of_part _ _ _ hin .rest, R.passage_of_part hstore rfl rfl (Or.inr .rest)⟩

theorem enters_keeps (h : Enters limit M N) (hM : R.Holds M.machine.store) (hin : M.task.In R) :
    R.Onward M.machine.store N.machine.store ∧ N.task.In R := by
  obtain ⟨hin', hpassage⟩ := enters_passage h hM hin
  exact ⟨hpassage.onward, hin'⟩

/-- And so is every moment that is reached from it. -/
theorem reaches_keeps (h : M.Reaches limit N) (hM : R.Holds M.machine.store) (hin : M.task.In R) :
    R.Onward M.machine.store N.machine.store ∧ N.task.In R := by
  induction h with
  | refl => exact ⟨.refl hM, hin⟩
  | tail _ hlast ih =>
    obtain ⟨hway, hin'⟩ := ih
    obtain ⟨hstep, hin''⟩ := enters_keeps hlast hway.holds hin'
    exact ⟨hway.trans hstep, hin''⟩

theorem Moment.Reaches.onward (h : M.Reaches limit N) :
    Realm.whole.Onward M.machine.store N.machine.store :=
  (reaches_keeps h (Realm.whole_holds _) M.task.in_whole).1

/-! New frames -/

theorem bindings_below (m : Machine) (parent : FrameId) :
    (m.below parent).store.bindings m.store.frames.size = [] := by
  unfold Machine.below Store.bindings
  rw [Store.frame?_newChild_self]

theorem Eval.mem_bindings_bindParameters {frame : FrameId} (params : List Name) :
    ∀ (arguments : List Value) {m m' : Machine},
      Eval.bindParameters frame params arguments m = .done () m' →
      ∀ entry ∈ m'.store.bindings frame,
        entry ∈ m.store.bindings frame ∨ entry.2 ∈ arguments ∨ entry.2 = .null := by
  induction params with
  | nil =>
    intro arguments m m' h entry hentry
    injection h with _ h
    subst h
    exact Or.inl hentry
  | cons param params ih =>
    intro arguments m m' h entry hentry
    obtain ⟨_, k, hk, hrest⟩ := Eval.bind_eq_done_iff.mp h
    injection hk with _ hk
    subst hk
    rcases ih arguments.tail hrest entry hentry with hentry | hentry | hentry
    · rcases Store.mem_bindings_setLocal hentry with ⟨_, rfl⟩ | hentry
      · cases arguments with
        | nil => exact Or.inr (Or.inr rfl)
        | cons v rest => exact Or.inr (Or.inl List.mem_cons_self)
      · exact Or.inl hentry
    · exact Or.inr (Or.inl (List.mem_of_mem_tail hentry))
    · exact Or.inr (Or.inr hentry)

theorem Eval.mem_bindings_declareThrown {frame : FrameId} {param : Option Name} {payload : Value}
    {m m' : Machine} (h : Eval.declareThrown frame param payload m = .done () m') :
    ∀ entry ∈ m'.store.bindings frame, entry ∈ m.store.bindings frame ∨ entry.2 = payload := by
  intro entry hentry
  cases param with
  | none =>
    injection h with _ h
    subst h
    exact Or.inl hentry
  | some name =>
    obtain ⟨taken, k, hk, hrest⟩ := Eval.bind_eq_done_iff.mp h
    injection hk with htaken hk
    subst hk
    split at hrest
    · exact absurd hrest (by simp [Eval.fail])
    · injection hrest with _ hrest
      subst hrest
      rcases Store.mem_bindings_setLocal hentry with ⟨_, rfl⟩ | hentry
      · exact Or.inr rfl
      · exact Or.inl hentry

/-- Code that begins in a new frame finds only parameters and caught values there, which are values
of the realm. -/
theorem data_of_enters_new {frame : FrameId} {body : List Stmt} {m' : Machine}
    (h : Enters limit M ⟨.stmts frame body, m'⟩) (hM : R.Holds M.machine.store)
    (hin : M.task.In R) (hnew : M.machine.store.frames.size ≤ frame) :
    ∀ entry ∈ m'.store.bindings frame, R.data entry.2 := by
  intro entry hentry
  cases h with
  | activation hcheck hbind =>
    rcases Eval.mem_bindings_bindParameters _ _ hbind entry hentry with hentry | hentry | hentry
    · rw [bindings_below] at hentry
      exact absurd hentry (by simp)
    · exact hin.2 _ hentry
    · exact R.data_scalar _ (by rw [hentry]; rfl)
  | block =>
    rw [bindings_below] at hentry
    exact absurd hentry (by simp)
  | attempt =>
    rw [bindings_below] at hentry
    exact absurd hentry (by simp)
  | handler fuel hthrown hparam =>
    have hall := Eval.evaluations R limit fuel
    obtain ⟨-, hpayload⟩ := (hall.block hin .attempt hM).of_signalled hthrown
    rcases Eval.mem_bindings_declareThrown hparam entry hentry with hentry | hentry
    · rw [bindings_below] at hentry
      exact absurd hentry (by simp)
    · rw [hentry]
      exact hpayload _ rfl
  | rest fuel hfirst =>
    -- a frame that was never made has no bindings
    have hcode := R.code_of_part _ _ _ hin .first
    obtain ⟨hstore, -⟩ := ((Eval.evaluations R limit fuel).stmt _ hcode hM).of_done hfirst
    unfold Store.bindings at hentry
    rw [hstore.gone frame hnew] at hentry
    exact absurd hentry (by simp)

/-! Moments with what is inside them -/

namespace Moment

variable {At : Moment → Prop}

/-- With a moment there are all moments that are entered from it. -/
def Inward (limit : Nat) (At : Moment → Prop) : Prop := ∀ M N, At M → Enters limit M N → At N

/-- The expressions, evaluated in turn, begin at such moments. -/
def InTurn (limit : Nat) (At : Moment → Prop) (scope : FrameId) (es : List Expr) (m : Machine) : Prop :=
  ∀ before x after m', es = before ++ x :: after → Eval.Passes limit scope before m m' →
    At ⟨.expr scope x, m'⟩

theorem InTurn.head {scope : FrameId} {x : Expr} {rest : List Expr} {m : Machine}
    (h : InTurn limit At scope (x :: rest) m) : At ⟨.expr scope x, m⟩ :=
  h [] x rest m rfl .nil

theorem InTurn.tail {scope : FrameId} {x : Expr} {rest : List Expr} {m m' : Machine} {v : Value}
    {fuel : Nat} (h : InTurn limit At scope (x :: rest) m)
    (hfirst : Eval.expr limit fuel scope x m = .done v m') : InTurn limit At scope rest m' := by
  rintro before y after n rfl hbefore
  exact h (x :: before) y after n rfl (.cons fuel hfirst hbefore)

theorem Inward.operands (h : Inward limit At) {scope : FrameId} {e : Expr} {m : Machine}
    (hM : At ⟨.expr scope e, m⟩)
    (hsubject : ∀ name ∈ e.subject?, (m.store.resolve scope name.text).isSome) :
    InTurn limit At scope e.operands m :=
  fun _ _ _ _ hoperands hbefore => h _ _ hM (.operand hsubject hoperands hbefore)

/-- What follows the first statement of a script begins at such a moment when the script does. -/
theorem at_rest (hAt : Inward limit At) {scope : FrameId} {s : Stmt} {rest : List Stmt}
    {m n : Machine} {fuel : Nat} (hM : At ⟨.stmts scope (s :: rest), m⟩)
    (hfirst : (∃ e span v, s = .expression e span ∧ Eval.expr limit fuel scope e m = .done v n) ∨
      Eval.stmt limit fuel scope s m = .done () n) : At ⟨.stmts scope rest, n⟩ := by
  rcases hfirst with ⟨e, span, v, rfl, hfirst⟩ | hfirst
  · refine hAt _ _ hM (.rest (fuel + 1) ?_)
    unfold Eval.stmt
    exact Eval.bind_eq_done_iff.mpr ⟨v, n, hfirst, rfl⟩
  · exact hAt _ _ hM (.rest fuel hfirst)

/-- The moments that are reached from one. -/
theorem inward_reaches (limit : Nat) (M : Moment) : Inward limit (M.Reaches limit) :=
  fun _ _ hN hL => hN.tail hL

end Moment

end ScriptEngine
