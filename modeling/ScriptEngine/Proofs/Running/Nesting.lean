import ScriptEngine.Proofs.Running.SecondClass

/-!
Frames mirror the text. Code that runs was written somewhere: in the program itself, or, inside a call,
where the function was declared. That is a program from before when the function was there before the
run. Otherwise the body in which the run has declared it is still running when it is called, and so the
code was written where that body was. In the source around the code there is then one block, try body,
handler or function body for each frame on the way up from its scope to the bindings. What a function
adds is that it lies in the frame in which it was declared, and that a call puts the frame of its body
below that one.
-/
namespace ScriptEngine

namespace Code

/-- The code is a part of the whole, inside so many bodies that run in frames of their own. -/
inductive Encloses (whole : Code) : Nat → Code → Prop where
  | whole : Encloses whole 0 whole
  | part {depth c part} (hc : Encloses whole depth c) (hpart : c.Part part) :
      Encloses whole depth part
  | body {depth c body} (hc : Encloses whole depth c) (hopens : c.Opens body) :
      Encloses whole (depth + 1) (.stmts body)

theorem Encloses.trans {whole c part : Code} {outer inner : Nat} (h : whole.Encloses outer c)
    (h' : c.Encloses inner part) : whole.Encloses (outer + inner) part := by
  induction h' with
  | whole => exact h
  | part _ hpart ih => exact ih.part hpart
  | body _ hopens ih => exact ih.body hopens

end Code

def Program.Encloses (program : Program) (depth : Nat) (c : Code) : Prop :=
  (Code.stmts program.body).Encloses depth c

namespace Store

variable {σ σ' : Store} {source : Program} {base id scope : FrameId} {depth : Nat} {c : Code}

/-- On the way up from a frame there are so many frames before `base`. -/
inductive Nested (σ : Store) (base : FrameId) : Nat → FrameId → Prop where
  | base : Nested σ base 0 base
  | up {depth id parent} (hid : id ≠ base) (hparent : σ.parent? id = some parent)
      (hnested : Nested σ base depth parent) : Nested σ base (depth + 1) id

/-- The code is in the source, and above its scope there is one frame for each body around it. -/
def Mirrors (σ : Store) (source : Program) (base scope : FrameId) (c : Code) : Prop :=
  ∃ depth, source.Encloses depth c ∧ σ.Nested base depth scope

theorem Nested.extends (h : σ.Nested base depth id) (hstore : σ.Extends σ') :
    σ'.Nested base depth id := by
  induction h with
  | base => exact .base
  | up hid hparent _ ih =>
    refine .up hid ?_ ih
    rw [hstore.parent? (lt_size_of_isAlive (isAlive_of_parent? hparent))]
    exact hparent

/-- There is one way up. -/
theorem Nested.unique {depth' : Nat} (h : σ.Nested base depth id) (h' : σ.Nested base depth' id) :
    depth = depth' := by
  induction h generalizing depth' with
  | base =>
    cases h' with
    | base => rfl
    | up hid => exact absurd rfl hid
  | up hid hparent _ ih =>
    cases h' with
    | base => exact absurd rfl hid
    | up _ hparent' hnested =>
      obtain rfl := Option.some.inj (hparent.symm.trans hparent')
      rw [ih hnested]

theorem Mirrors.extends (h : σ.Mirrors source base scope c) (hstore : σ.Extends σ') :
    σ'.Mirrors source base scope c := by
  obtain ⟨depth, hencloses, hnested⟩ := h
  exact ⟨depth, hencloses, hnested.extends hstore⟩

theorem Mirrors.inside {part : Code} (h : σ.Mirrors source base scope c)
    (hpart : c.Encloses 0 part) : σ.Mirrors source base scope part := by
  obtain ⟨depth, hencloses, hnested⟩ := h
  exact ⟨depth, hencloses.trans hpart, hnested⟩

theorem Mirrors.opens {body : List Stmt} (h : σ.Mirrors source base scope c)
    (hopens : c.Opens body) (hid : id ≠ base) (hparent : σ.parent? id = some scope) :
    σ.Mirrors source base id (.stmts body) := by
  obtain ⟨depth, hencloses, hnested⟩ := h
  exact ⟨depth + 1, hencloses.body hopens, .up hid hparent hnested⟩

end Store

/-! Inside a call -/

def Task.isCall : Task → Bool
  | call _ _ _ => true
  | _ => false

namespace Moment

variable {limit : Nat} {M N C : Moment} {source : Program} {base : FrameId}

/-- The run comes to the second moment, and enters no function on the way. -/
def Stays (limit : Nat) : Moment → Moment → Prop :=
  Relation.ReflTransGen fun M N => M.task.isCall = false ∧ Enters limit M N

/-- The run calls the function at the first moment, and at the second one it is in the body, in no other
call inside that. -/
def InBody (limit : Nat) (f : Closure) (C M : Moment) : Prop :=
  ∃ arguments place A, C.task = .call f arguments place ∧ Enters limit C A ∧ A.Stays limit M

/-- The code at the moment is in the source, with a body around it for each frame. -/
def Mirrors (M : Moment) (source : Program) (base : FrameId) : Prop :=
  ∀ scope c, M.task.place? = some (scope, c) → M.machine.store.Mirrors source base scope c

theorem Stays.reaches (h : M.Stays limit N) : M.Reaches limit N := h.lift id fun _ _ h => h.2

theorem Stays.tail (h : M.Stays limit N) (hcall : N.task.isCall = false) {L : Moment}
    (hL : Enters limit N L) : M.Stays limit L :=
  Relation.ReflTransGen.tail h ⟨hcall, hL⟩

theorem InBody.reaches {f : Closure} (h : C.InBody limit f M) : C.Reaches limit M := by
  obtain ⟨_, _, _, -, hA, hM⟩ := h
  exact hM.reaches.head hA

theorem opener?_of_place? {scope : FrameId} {c : Code} (h : M.task.place? = some (scope, c)) :
    M.task.opener? = some (scope, c) := by
  obtain ⟨task, m⟩ := M
  cases task with
  | call f arguments place => exact absurd h (by simp [Task.place?])
  | _ => exact h

/-- When code at a moment opens bodies in the source that has it, code that is entered from there is in
the same source. -/
theorem mirrors_of_enters (h : Enters limit M N) (hbase : base < M.machine.store.frames.size)
    (hopener : ∀ parent whole, M.task.opener? = some (parent, whole) →
      M.machine.store.Mirrors source base parent whole) : N.Mirrors source base := by
  intro scope c hc
  obtain ⟨-, hpassage⟩ := enters_passage h (Realm.whole_holds _) M.task.in_whole
  cases hpassage with
  | within hstore hplace =>
    obtain ⟨whole, hwhole, hpart⟩ := hplace scope c hc
    have hscope := (hopener scope whole (opener?_of_place? hwhole)).extends hstore.frames
    rcases hpart with rfl | hpart
    · exact hscope
    · exact hscope.inside (.part .whole hpart)
  | @below σ parent whole body hstore hparent hopened hopens hground hframe htask =>
    rw [htask] at hc
    obtain ⟨rfl, rfl⟩ := Prod.mk.inj (Option.some.inj hc)
    have hnew : σ.frames.size < (σ.newChild parent).2.frames.size := by
      rw [Store.size_newChild]
      exact Nat.lt_succ_self _
    have hup : N.machine.store.parent? σ.frames.size = some parent := by
      rw [hframe.frames.parent? hnew, Store.parent?, Store.frame?_newChild_self]
      rfl
    have hway := (hstore.frames.trans (σ.extends_newChild parent)).trans hframe.frames
    have hne : σ.frames.size ≠ base := Nat.ne_of_gt (Nat.lt_of_lt_of_le hbase hstore.frames.size)
    exact ((hopener parent whole hopened).extends hway).opens hopens hne hup

theorem Mirrors.stays (h : M.Mirrors source base) (hbase : base < M.machine.store.frames.size)
    (hN : M.Stays limit N) : N.Mirrors source base := by
  induction hN with
  | refl => exact h
  | @tail K L hK hlast ih =>
    have hsize := (Stays.reaches hK).onward.frames.size
    refine mirrors_of_enters hlast.2 (Nat.lt_of_lt_of_le hbase hsize) fun parent whole hopener => ?_
    obtain ⟨task, m⟩ := K
    cases task with
    | call f arguments place => exact absurd hlast.1 (by simp [Task.isCall])
    | _ => exact ih parent whole hopener

/-- In a call of a function whose declaration is in the source, so is the code. -/
theorem InBody.mirrors {f : Closure} (hM : C.InBody limit f M)
    (hbase : base < C.machine.store.frames.size)
    (hf : C.machine.store.Mirrors source base f.home (.stmt f.definition.declaration)) :
    M.Mirrors source base := by
  obtain ⟨arguments, place, A, hcall, hA, hM⟩ := hM
  have hsize := (Reaches.onward (.single hA)).frames.size
  refine Mirrors.stays (mirrors_of_enters hA hbase ?_) (Nat.lt_of_lt_of_le hbase hsize) hM
  intro parent whole hopener
  rw [hcall] at hopener
  obtain ⟨rfl, rfl⟩ := Prod.mk.inj (Option.some.inj hopener)
  exact hf

end Moment

/-- The function lies in the frame, and some program has declared it; whichever has, did so outside of all
its bodies. -/
structure Closure.Outermost (declares : Closure → Program → Prop) (base : FrameId) (f : Closure) :
    Prop where
  home : f.home = base
  known : ∃ source, declares f source
  lies : ∀ source, declares f source → source.Encloses 0 (.stmt f.definition.declaration)

/-- A run of a program on a machine, and what is told of the functions that it finds: which programs
have declared them. -/
structure Account where
  limit : Nat
  machine : Machine
  layers : Layers
  program : Program
  declares : Closure → Program → Prop

namespace Account

variable (X : Account)

def outset : Moment := X.machine.outset X.layers X.program

/-- The code at the moment was written in the source. That is the program, as long as the run has entered
no function. Inside a call it is a program that has declared the function, or, when the run itself has
declared it, the source of the body that had the declaration in it and runs in the frame where the
function lies. -/
inductive WrittenIn : Moment → Program → Prop where
  | own {M} (h : X.outset.Stays X.limit M) : WrittenIn M X.program
  | found {f source C M} (hC : X.outset.Reaches X.limit C) (hM : C.InBody X.limit f M)
      (hf : X.declares f source) : WrittenIn M source
  | declared {f body source E C M} (hE : WrittenIn E source) (hbody : E.task = .stmts f.home body)
      (hdeclares : (Code.stmts body).Encloses 0 (.stmt f.definition.declaration))
      (hC : E.Reaches X.limit C) (hM : C.InBody X.limit f M)
      (hnew : X.machine.store.nextIdentity ≤ f.identity) : WrittenIn M source

/-- On the way to the moment the body runs in the frame. -/
def Runs (M : Moment) (id : FrameId) (body : List Stmt) : Prop :=
  ∃ E source, X.WrittenIn E source ∧ E.Reaches X.limit M ∧ E.task = .stmts id body

/-- Code that is in a body that runs in the frame, inside no body of that. -/
def Sites (M : Moment) (scope : FrameId) (c : Code) : Prop :=
  ∃ body, X.Runs M scope body ∧ (Code.stmts body).Encloses 0 c

/-- The cell was made in the run, or it is in something that the layers harbour. -/
def HarboursCell (cell : CellId) : Prop :=
  X.machine.store.cells.size ≤ cell ∨
    ∃ id v, (id = X.layers.bindings ∨ X.layers.globals = some id) ∧
      X.machine.store.Harbours id v ∧ v.cell? = some cell

/-- Functions that code can come by as values were there before the run. -/
def Hands : Value → Prop :=
  Value.HoldsOnly X.HarboursCell (Closure.Outermost X.declares X.layers.bindings)

variable {X} {M N C : Moment} {source : Program}

theorem WrittenIn.reaches (h : X.WrittenIn M source) : X.outset.Reaches X.limit M := by
  induction h with
  | own h => exact h.reaches
  | found hC hM _ => exact hC.trans hM.reaches
  | declared _ _ _ hC hM _ ih => exact (ih.trans hC).trans hM.reaches

/-- What is entered from code was written where the code was, unless it is a function. -/
theorem WrittenIn.stays (h : X.WrittenIn M source) (hcall : M.task.isCall = false)
    (hN : Enters X.limit M N) : X.WrittenIn N source := by
  have hinside : ∀ {f : Closure} {C : Moment}, C.InBody X.limit f M → C.InBody X.limit f N := by
    rintro f C ⟨arguments, place, A, hC, hA, hM⟩
    exact ⟨arguments, place, A, hC, hA, hM.tail hcall hN⟩
  cases h with
  | own h => exact .own (h.tail hcall hN)
  | found hC hM hf => exact .found hC (hinside hM) hf
  | declared hE hbody hdeclares hC hM hnew =>
    exact .declared hE hbody hdeclares hC (hinside hM) hnew

theorem Sites.enters {scope : FrameId} {c : Code} (h : X.Sites M scope c)
    (hN : Enters X.limit M N) : X.Sites N scope c := by
  obtain ⟨body, ⟨E, source, hE, hM, htask⟩, hc⟩ := h
  exact ⟨body, ⟨E, source, hE, hM.tail hN, htask⟩, hc⟩

theorem Sites.part {scope : FrameId} {c part : Code} (h : X.Sites M scope c) (hpart : c.Part part) :
    X.Sites M scope part := by
  obtain ⟨body, hbody, hc⟩ := h
  exact ⟨body, hbody, hc.part hpart⟩

/-! The realm at a moment -/

/-- What a run can come to from a moment. In the frames that are there at the moment, code is in the
bodies that run there; the frames that are made later only have to be gone when the next moment that
matters begins. -/
def realm (X : Account) (M : Moment)
    (hlater : X.machine.store.frames.size ≤ M.machine.store.frames.size) : Realm where
  frames := X.layers.Owns X.machine.store.frames.size
  scopes := X.layers.Owns X.machine.store.frames.size
  cells := X.HarboursCell
  data := X.Hands
  bound := fun id _ v => X.Hands v ∨ ∃ f, v = .function f ∧ f.home = id ∧
    X.machine.store.nextIdentity ≤ f.identity ∧
      (M.machine.store.frames.size ≤ id ∨ X.Sites M id (.stmt f.definition.declaration))
  code := fun scope c => X.layers.Owns X.machine.store.frames.size scope ∧
    (M.machine.store.frames.size ≤ scope ∨ X.Sites M scope c)
  callable := fun f => X.layers.Owns X.machine.store.frames.size f.home ∧
    (f.Outermost X.declares X.layers.bindings ∨
      X.machine.store.nextIdentity ≤ f.identity ∧ (M.machine.store.frames.size ≤ f.home ∨
        (M.machine.store.isAlive f.home → X.Sites M f.home (.stmt f.definition.declaration))))
  firstFrame := M.machine.store.frames.size
  firstCell := X.machine.store.cells.size
  firstIdentity := X.machine.store.nextIdentity
  scope_of_new := fun _ h => Or.inr (Or.inr (Nat.le_trans hlater h))
  frame_of_scope := fun _ h => h
  cell_of_new := fun _ h => Or.inl h
  data_scalar := fun _ hv => Value.holdsOnly_of_isScalar hv
  data_array := fun _ => Value.holdsOnly_array
  data_struct := fun _ => Value.holdsOnly_struct
  bound_of_new := fun _ _ _ _ hv => Or.inl hv
  bound_again := fun _ _ _ _ _ hv => Or.inl hv
  data_of_bound := by
    rintro id name v hcase hcallable
    rcases hcase with hv | ⟨f, rfl, -⟩
    · exact hv
    · exact absurd hcallable (by simp [Value.isCallable])
  callable_of_bound := by
    rintro id name f hid hcase
    rcases hcase with hf | ⟨g, hg, rfl, hnew, hplace⟩
    · exact ⟨Or.inl (hf.2 f rfl).home, Or.inl (hf.2 f rfl)⟩
    · obtain rfl := Value.function.inj hg
      exact ⟨hid, Or.inr ⟨hnew, hplace.imp_right fun h _ => h⟩⟩
  scope_of_callable := fun _ h => h.1
  code_of_callable := fun _ _ _ hnew =>
    ⟨Or.inr (Or.inr (Nat.le_trans hlater hnew)), Or.inl hnew⟩
  scope_of_code := fun _ _ h => h.1
  code_of_part := fun _ _ _ h hpart => ⟨h.1, h.2.imp_right fun h => h.part hpart⟩
  code_of_opens := fun _ _ _ _ _ _ hnew =>
    ⟨Or.inr (Or.inr (Nat.le_trans hlater hnew)), Or.inl hnew⟩
  bound_of_declare := fun _ _ _ _ _ _ hv => Or.inl hv
  bound_of_function := fun _ _ _ _ _ _ h hnew => Or.inr ⟨_, rfl, rfl, hnew, h.2⟩

/-- At the next moment its own frames take the place of those of the moment before. What the frames bind
that have come since are values. -/
theorem realm_holds_enters {hlater : X.machine.store.frames.size ≤ M.machine.store.frames.size}
    {hlater' : X.machine.store.frames.size ≤ N.machine.store.frames.size} (hN : Enters X.limit M N)
    (h : (X.realm M hlater).Holds N.machine.store)
    (hnew : ∀ id, M.machine.store.frames.size ≤ id → ∀ entry ∈ N.machine.store.bindings id,
      X.Hands entry.2) : (X.realm N hlater').Holds N.machine.store := by
  refine ⟨fun id hid entry hentry => ?_, h.parents, h.cells, Nat.le_refl _, h.cellSize,
    h.identitySize⟩
  by_cases hsize : M.machine.store.frames.size ≤ id
  · exact Or.inl (hnew id hsize entry hentry)
  · rcases h.bindings id hid entry hentry with hv | ⟨f, hf, hhome, hnumber, hplace⟩
    · exact Or.inl hv
    · refine Or.inr ⟨f, hf, hhome, hnumber, Or.inr ?_⟩
      exact (hplace.resolve_left hsize).enters hN

/-! From moment to moment -/

/-- The moment is one of the run, the code at it is in a body that runs in its scope, and it is known
where it was written. -/
structure Follows (X : Account) (M : Moment) : Prop where
  reached : X.outset.Reaches X.limit M
  later : X.machine.store.frames.size ≤ M.machine.store.frames.size
  holds : (X.realm M later).Holds M.machine.store
  task : M.task.In (X.realm M later)
  place : ∀ scope c, M.task.place? = some (scope, c) → X.Sites M scope c
  source : ∃ source, X.WrittenIn M source

namespace Follows

/-- A function that is called was there before the run, or a body that runs where it lies has its
declaration. -/
theorem callee (h : X.Follows M) {f : Closure} {arguments : List Value} {place : Span}
    (hcall : M.task = .call f arguments place) :
    f.Outermost X.declares X.layers.bindings ∨ X.machine.store.nextIdentity ≤ f.identity ∧
      (M.machine.store.isAlive f.home → X.Sites M f.home (.stmt f.definition.declaration)) := by
  have hin := h.task
  rw [hcall] at hin
  rcases hin.1.2 with hf | ⟨hnew, hgone | hsites⟩
  · exact Or.inl hf
  · exact Or.inr ⟨hnew, fun halive =>
      absurd (Store.lt_size_of_isAlive halive) (Nat.not_lt_of_le hgone)⟩
  · exact Or.inr ⟨hnew, hsites⟩

theorem source_enters (h : X.Follows M) (hN : Enters X.limit M N) : ∃ source, X.WrittenIn N source := by
  cases hcall : M.task.isCall with
  | false =>
    obtain ⟨source, hsource⟩ := h.source
    exact ⟨source, hsource.stays hcall hN⟩
  | true =>
    obtain ⟨task, m⟩ := M
    cases task with
    | call f arguments place =>
      have hinside : Moment.InBody X.limit f ⟨.call f arguments place, m⟩ N :=
        ⟨arguments, place, N, rfl, hN, .refl⟩
      rcases h.callee rfl with hf | ⟨hnew, hsites⟩
      · obtain ⟨source, hsource⟩ := hf.known
        exact ⟨source, .found h.reached hinside hsource⟩
      · -- a call is only entered while the home of the function is there
        have halive : m.store.isAlive f.home := by
          cases hN with
          | activation hcheck _ => exact (Eval.checkCall_eq_done hcheck).1
        obtain ⟨body, ⟨E, source, hE, hway, hbody⟩, hdeclares⟩ := hsites halive
        exact ⟨source, .declared hE hbody hdeclares hway hinside hnew⟩
    | _ => exact absurd hcall (by simp [Task.isCall])

theorem within (h : X.Follows M) (hN : Enters X.limit M N)
    (hin : N.task.In (X.realm M h.later))
    (hstore : (X.realm M h.later).Settled M.machine.store N.machine.store)
    (hplace : ∀ scope c, N.task.place? = some (scope, c) →
      ∃ whole, M.task.place? = some (scope, whole) ∧ (c = whole ∨ whole.Part c)) : X.Follows N := by
  have hsites : ∀ scope c, N.task.place? = some (scope, c) → X.Sites N scope c := by
    intro scope c hc
    obtain ⟨whole, hwhole, hpart⟩ := hplace scope c hc
    have hscope := (h.place scope whole hwhole).enters hN
    rcases hpart with rfl | hpart
    · exact hscope
    · exact hscope.part hpart
  refine ⟨h.reached.tail hN, Nat.le_trans h.later hstore.frames.size, ?_, ?_, hsites,
    h.source_enters hN⟩
  · refine realm_holds_enters hN hstore.holds fun id hid entry hentry => ?_
    unfold Store.bindings at hentry
    rw [hstore.gone id hid] at hentry
    exact absurd hentry (by simp)
  · obtain ⟨task, m⟩ := N
    cases task with
    | expr scope e => exact ⟨hin.1, Or.inr (hsites scope _ rfl)⟩
    | stmt scope s => exact ⟨hin.1, Or.inr (hsites scope _ rfl)⟩
    | stmts scope body => exact ⟨hin.1, Or.inr (hsites scope _ rfl)⟩
    | native f arguments place => exact hin
    | call f arguments place =>
      refine ⟨⟨hin.1.1, hin.1.2.imp_right fun hnew => ⟨hnew.1, Or.inr fun halive => ?_⟩⟩, hin.2⟩
      have hhome : f.home < M.machine.store.frames.size := by
        apply Nat.lt_of_not_le
        intro hnew
        rw [Store.isAlive, hstore.gone f.home hnew] at halive
        exact absurd halive (by simp)
      rw [hstore.frames.isAlive hhome] at halive
      exact ((hnew.2.resolve_left (Nat.not_le_of_lt hhome)) halive).enters hN

theorem below (h : X.Follows M) (hN : Enters X.limit M N) {σ : Store} {parent : FrameId}
    {body : List Stmt} (hin : N.task.In (X.realm M h.later))
    (hstore : (X.realm M h.later).Settled M.machine.store σ)
    (hframe : (X.realm M h.later).Settled (σ.newChild parent).2 N.machine.store)
    (htask : N.task = .stmts σ.frames.size body)
    (hdata : ∀ entry ∈ N.machine.store.bindings σ.frames.size, X.Hands entry.2) : X.Follows N := by
  have hway := (hstore.frames.trans (σ.extends_newChild parent)).trans hframe.frames
  have hsource := h.source_enters hN
  have hsites : X.Sites N σ.frames.size (.stmts body) := by
    obtain ⟨source, hsource⟩ := hsource
    exact ⟨body, ⟨N, source, hsource, .refl, htask⟩, .whole⟩
  refine ⟨h.reached.tail hN, Nat.le_trans h.later hway.size, ?_, ?_, ?_, hsource⟩
  · refine realm_holds_enters hN hframe.holds fun id hid entry hentry => ?_
    by_cases hid' : id = σ.frames.size
    · subst hid'
      exact hdata entry hentry
    · -- no other frame has come that is still there
      have halive := Store.isAlive_of_mem_bindings hentry
      have hlt : id < (σ.newChild parent).2.frames.size := by
        apply Nat.lt_of_not_le
        intro hle
        rw [Store.isAlive, hframe.gone id hle] at halive
        exact absurd halive (by simp)
      rw [hframe.frames.isAlive hlt, Store.isAlive, Store.frame?_newChild hid',
        hstore.gone id hid] at halive
      exact absurd halive (by simp)
  · obtain ⟨task, m⟩ := N
    obtain rfl : task = _ := htask
    exact ⟨hin.1, Or.inr hsites⟩
  · intro scope c hc
    rw [htask] at hc
    obtain ⟨rfl, rfl⟩ := Prod.mk.inj (Option.some.inj hc)
    exact hsites

theorem enters (h : X.Follows M) (hN : Enters X.limit M N) : X.Follows N := by
  obtain ⟨hin, hpassage⟩ := enters_passage hN h.holds h.task
  cases hpassage with
  | within hstore hplace => exact h.within hN hin hstore hplace
  | @below σ parent whole body hstore hparent hopener hopens hground hframe htask =>
    refine h.below hN hin hstore hframe htask ?_
    obtain ⟨task, m⟩ := N
    obtain rfl : task = _ := htask
    exact data_of_enters_new hN h.holds h.task hstore.frames.size

theorem reaches (h : X.Follows X.outset) (hM : X.outset.Reaches X.limit M) : X.Follows M := by
  induction hM with
  | refl => exact h
  | tail _ hlast ih => exact ih.enters hlast

end Follows

/-- What is told of the functions that are there is right: they were declared in the bindings, in no body
of the programs, and they have numbers. -/
structure Faithful (X : Account) : Prop where
  base : X.layers.bindings < X.machine.store.frames.size
  numbers : ∀ f source, X.declares f source → f.identity < X.machine.store.nextIdentity
  functions : ∀ id f, (id = X.layers.bindings ∨ X.layers.globals = some id) →
    X.machine.store.Harbours id (.function f) → f.Outermost X.declares X.layers.bindings

namespace Faithful

theorem hands (h : X.Faithful) {id : FrameId} {v : Value}
    (hid : id = X.layers.bindings ∨ X.layers.globals = some id)
    (hv : X.machine.store.Harbours id v) : X.Hands v := by
  refine ⟨fun cell hcell => Or.inr ⟨id, v, hid, hv, hcell⟩, ?_⟩
  rintro f rfl
  exact h.functions id f hid hv

theorem outset (h : X.Faithful) : X.Follows X.outset := by
  have hsize := Machine.size_begin X.layers X.machine
  have hlater : X.machine.store.frames.size ≤ X.outset.machine.store.frames.size :=
    Nat.le_trans (Nat.le_succ _) (Nat.le_of_eq hsize.symm)
  have hsource : X.WrittenIn X.outset X.program := .own .refl
  have hbody : X.Sites X.outset X.layers.bindings (.stmts X.program.body) :=
    ⟨X.program.body, ⟨X.outset, X.program, hsource, .refl, rfl⟩, .whole⟩
  refine ⟨.refl, hlater, ?_, ⟨Or.inl rfl, Or.inr hbody⟩, fun scope c hc => ?_, X.program, hsource⟩
  · refine ⟨fun id hid entry hentry => ?_,
      fun id parent hid hparent => Machine.owns_parent_begin hid hparent,
      fun cell content hcell hcontent v hv => ?_, Nat.le_refl _, ?_,
      Machine.nextIdentity_le_begin X.layers X.machine⟩
    · refine Or.inl ?_
      rcases Machine.mem_bindings_begin hentry with hentry | ⟨f, hf⟩
      · rcases hid with hid | hid | hid
        · exact h.hands (Or.inl hid) ⟨entry, hentry, .refl⟩
        · exact h.hands (Or.inr hid) ⟨entry, hentry, .refl⟩
        · rw [Store.bindings_eq_nil hid] at hentry
          exact absurd hentry (by simp)
      · rw [hf]
        exact Value.holdsOnly_native f
    · have hcontent : (X.machine.begin X.layers).2.store.cells[cell]? = some content := hcontent
      rw [Machine.cells_begin] at hcontent
      rcases hcell with hcell | ⟨id, u, hid, ⟨entry, hentry, hway⟩, hucell⟩
      · rw [Array.getElem?_eq_none hcell] at hcontent
        exact absurd hcontent (by simp)
      · refine h.hands hid ⟨entry, hentry, hway.tail ?_⟩
        exact ⟨cell, content, hucell, hcontent, hv⟩
    · exact Nat.le_of_eq (congrArg Array.size (Machine.cells_begin X.layers X.machine)).symm
  · obtain ⟨rfl, rfl⟩ := Prod.mk.inj (Option.some.inj hc)
    exact hbody

/-- The code at every moment was written somewhere. -/
theorem exists_source (h : X.Faithful) (hM : X.outset.Reaches X.limit M) :
    ∃ source, X.WrittenIn M source :=
  (h.outset.reaches hM).source

theorem base_lt (h : X.Faithful) (hM : X.outset.Reaches X.limit M) :
    X.layers.bindings < M.machine.store.frames.size :=
  Nat.lt_of_lt_of_le h.base (h.outset.reaches hM).later

/-- And where it was written there is a body around it for each frame above its scope. -/
theorem mirrors (h : X.Faithful) (hM : X.WrittenIn M source) : M.Mirrors source X.layers.bindings := by
  induction hM with
  | own hM =>
    refine Moment.Mirrors.stays (fun scope c hc => ?_) (h.base_lt .refl) hM
    obtain ⟨rfl, rfl⟩ := Prod.mk.inj (Option.some.inj hc)
    exact ⟨0, .whole, .base⟩
  | @found f source C M hC hM hf =>
    refine hM.mirrors (h.base_lt hC) ?_
    obtain ⟨arguments, place, A, hcall, -, -⟩ := hM
    rcases (h.outset.reaches hC).callee hcall with houtermost | ⟨hnew, -⟩
    · exact ⟨0, houtermost.lies source hf, houtermost.home ▸ .base⟩
    · exact absurd (h.numbers f source hf) (Nat.not_lt_of_le hnew)
  | @declared f body source E C M hE hbody hdeclares hC hM hnew ih =>
    refine hM.mirrors (h.base_lt (hE.reaches.trans hC)) ?_
    have hhome := ih f.home (.stmts body) (by rw [hbody]; rfl)
    exact (hhome.inside hdeclares).extends hC.onward.frames

end Faithful

end Account

/-- The frame of a call is below the home of the function, whoever calls it. -/
theorem parent?_of_activation {limit : Nat} {M N : Moment} {f : Closure} {arguments : List Value}
    {place : Span} (hcall : M.task = .call f arguments place) (hN : Enters limit M N) :
    ∃ frame, N.task = .stmts frame f.definition.body ∧
      N.machine.store.parent? frame = some f.home := by
  obtain ⟨task, m⟩ := M
  obtain rfl : task = _ := hcall
  cases hN with
  | @activation _ _ _ _ m' hcheck hbind =>
    have hnew : m.store.frames.size < (m.below f.home).store.frames.size := by
      rw [Machine.below, Store.size_newChild]
      exact Nat.lt_succ_self _
    obtain ⟨hstore, -⟩ := (Eval.keeps_bindParameters (R := .whole) _ _ (m := m.below f.home)
      (Realm.whole_holds _) (Nat.zero_le _) fun _ _ => trivial).of_done hbind
    refine ⟨m.store.frames.size, rfl, (hstore.frames.parent? hnew).trans ?_⟩
    rw [Machine.below, Store.parent?, Store.frame?_newChild_self]
    rfl

end ScriptEngine
