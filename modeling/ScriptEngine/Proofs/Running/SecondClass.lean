import ScriptEngine.Proofs.Running.Layers
import ScriptEngine.Proofs.Running.Moments
import ScriptEngine.Proofs.Running.Supply

/-!
Functions are no values. A run that starts from bindings in which callables are only bound, each
script function in the frame that it was declared in, never comes by a callable in any other way: not
as the value of an expression, not in an array or a struct, not as an argument, nor as anything that
is thrown, returned or handed to the host.
-/
namespace ScriptEngine

namespace Store

/-- The value is no callable, and there is none in it, however deep. -/
def Plain (σ : Store) (v : Value) : Prop :=
  ∀ u, Relation.ReflTransGen σ.Contains v u → u.isCallable = false

/-- What a frame binds is plain or callable, and its script functions were declared in it. -/
def Tidy (σ : Store) (id : FrameId) : Prop :=
  ∀ entry ∈ σ.bindings id, match entry.2 with
    | .function f => f.home = id
    | .native _ => True
    | v => σ.Plain v

end Store

/-- The frames of a run: those of its layers and those that are made from some point on. -/
def Layers.Owns (layers : Layers) (first : Nat) (id : FrameId) : Prop :=
  id = layers.bindings ∨ layers.globals = some id ∨ first ≤ id

/-- The frames of a run that started from one store are tidy in another one, and all other frames are
what they were. -/
structure Layers.KeepTidy (layers : Layers) (before after : Store) : Prop where
  tidy : ∀ id, layers.Owns before.frames.size id → after.Tidy id
  others : ∀ id, ¬ layers.Owns before.frames.size id → after.frame? id = before.frame? id

def Task.arguments : Task → List Value
  | call _ arguments _ => arguments
  | native _ arguments _ => arguments
  | _ => []

/-- At the moment no callable is a value. Arguments are plain, and so is what comes of the evaluation
that begins, whatever it is. Code in a new frame finds only plain values there, and as long as a frame
is there a name in it that is bound to a plain value is bound to a plain value. -/
structure Moment.SecondClass (limit : Nat) (layers : Layers) (before : Store) (M : Moment) : Prop where
  store : layers.KeepTidy before M.machine.store
  arguments : ∀ v ∈ M.task.arguments, M.machine.store.Plain v
  outcome : ∀ fuel, match M.task.eval limit fuel M.machine with
    | .done v m => layers.KeepTidy before m.store ∧ m.store.Plain v
    | .signalled s m => layers.KeepTidy before m.store ∧ ∀ v ∈ s.value?, m.store.Plain v
    | .failed _ _ m => layers.KeepTidy before m.store
    | .exhausted m => layers.KeepTidy before m.store
  newFrames : ∀ frame body m, Enters limit M ⟨.stmts frame body, m⟩ →
    M.machine.store.frames.size ≤ frame → ∀ entry ∈ m.store.bindings frame, m.store.Plain entry.2
  values : ∀ N, M.Reaches limit N → ∀ id name v, layers.Owns before.frames.size id →
    M.machine.store.getLocal? id name = some v → v.isCallable = false →
    ∃ v', N.machine.store.getLocal? id name = some v' ∧ N.machine.store.Plain v'

/-! The realm of a run -/

namespace Layers

/-- The cell is in a value that was bound in a frame of the layers, or was made since. -/
def OwnsCell (layers : Layers) (before : Store) (cell : CellId) : Prop :=
  before.cells.size ≤ cell ∨ ∃ id, layers.Owns before.frames.size id ∧
    ∃ entry ∈ before.bindings id, entry.2.isCallable = false ∧
      ∃ u, Relation.ReflTransGen before.Contains entry.2 u ∧ u.cell? = some cell

def OwnsValue (layers : Layers) (before : Store) (v : Value) : Prop :=
  v.isCallable = false ∧ ∀ cell, v.cell? = some cell → layers.OwnsCell before cell

/-- Script functions are bound where they were declared, everything else is a native or a value of
the run. -/
def Binds (layers : Layers) (before : Store) (id : FrameId) : Value → Prop
  | .function f => f.home = id
  | .native _ => True
  | v => layers.OwnsValue before v

theorem binds_of_ownsValue {layers : Layers} {before : Store} {id : FrameId} {v : Value}
    (hv : layers.OwnsValue before v) : layers.Binds before id v := by
  cases v with
  | function f => exact absurd hv.1 (by simp [Value.isCallable])
  | native f => trivial
  | _ => exact hv

def realm (layers : Layers) (before : Store) : Realm where
  frames := layers.Owns before.frames.size
  scopes := layers.Owns before.frames.size
  cells := layers.OwnsCell before
  data := layers.OwnsValue before
  bound := fun id _ v => layers.Binds before id v
  code := fun scope _ => layers.Owns before.frames.size scope
  callable := fun f => layers.Owns before.frames.size f.home
  firstFrame := before.frames.size
  firstCell := before.cells.size
  firstIdentity := 0
  scope_of_new := fun _ h => Or.inr (Or.inr h)
  frame_of_scope := fun _ h => h
  cell_of_new := fun _ h => Or.inl h
  data_scalar := by
    intro v hv
    cases v with
    | array cell => exact absurd hv (by simp [Value.isScalar])
    | struct cell => exact absurd hv (by simp [Value.isScalar])
    | function f => exact absurd hv (by simp [Value.isScalar])
    | native f => exact absurd hv (by simp [Value.isScalar])
    | _ => exact ⟨rfl, fun cell hcell => absurd hcell (by simp [Value.cell?])⟩
  data_array := fun cell =>
    ⟨fun h => h.2 cell rfl, fun h => ⟨rfl, fun _ hcell => Option.some.inj hcell ▸ h⟩⟩
  data_struct := fun cell =>
    ⟨fun h => h.2 cell rfl, fun h => ⟨rfl, fun _ hcell => Option.some.inj hcell ▸ h⟩⟩
  bound_of_new := fun _ _ _ _ => binds_of_ownsValue
  bound_again := fun _ _ _ _ _ => binds_of_ownsValue
  data_of_bound := by
    intro id _ v hv hcallable
    cases v with
    | function f => exact absurd hcallable (by simp [Value.isCallable])
    | native f => exact absurd hcallable (by simp [Value.isCallable])
    | _ => exact hv
  callable_of_bound := by
    intro id _ f hid hf
    have hf : f.home = id := hf
    rw [hf]
    exact hid
  scope_of_callable := fun _ h => h
  code_of_callable := fun _ _ _ h => Or.inr (Or.inr h)
  scope_of_code := fun _ _ h => h
  code_of_part := fun _ _ _ h _ => h
  code_of_opens := fun _ _ _ _ _ _ h => Or.inr (Or.inr h)
  bound_of_declare := fun _ _ _ _ _ _ => binds_of_ownsValue
  bound_of_function := fun _ _ _ _ _ _ _ _ => rfl

variable {layers : Layers} {before σ : Store}

theorem plain_of_data (h : (layers.realm before).Holds σ) {v : Value}
    (hv : (layers.realm before).data v) : σ.Plain v := by
  intro u hu
  have hdata : (layers.realm before).data u := by
    induction hu with
    | refl => exact hv
    | tail _ hlast ih =>
      obtain ⟨cell, content, hcell, hcontent, hmem⟩ := hlast
      exact h.cells cell content (ih.2 cell hcell) hcontent _ hmem
  exact hdata.1

theorem keepTidy_of_onward {τ : Store} (hτ : ∀ id, ¬ layers.Owns before.frames.size id →
    τ.frame? id = before.frame? id) (h : (layers.realm before).Onward τ σ) :
    layers.KeepTidy before σ := by
  refine ⟨fun id hid entry hentry => ?_, fun id hid => (h.outside id hid).trans (hτ id hid)⟩
  have hbound : layers.Binds before id entry.2 := h.holds.bindings id hid entry hentry
  cases hv : entry.2 with
  | function f =>
    rw [hv] at hbound
    exact hbound
  | native f => trivial
  | _ =>
    rw [hv] at hbound
    exact plain_of_data h.holds hbound

/-- A value that is bound at the start is a value of the run when it is plain. -/
theorem binds_of_tidy {id : FrameId} (hid : layers.Owns before.frames.size id)
    (htidy : before.Tidy id) : ∀ entry ∈ before.bindings id, layers.Binds before id entry.2 := by
  intro entry hentry
  have hv := htidy entry hentry
  have hdata : entry.2.isCallable = false → layers.OwnsValue before entry.2 := fun hcallable =>
    ⟨hcallable, fun cell hcell => Or.inr ⟨id, hid, entry, hentry, hcallable, entry.2, .refl, hcell⟩⟩
  cases hvalue : entry.2 with
  | function f =>
    rw [hvalue] at hv
    exact hv
  | native f => trivial
  | _ =>
    rw [hvalue] at hdata
    exact hdata rfl

/-- What is in a cell of the run is a value of the run. -/
theorem ownsValue_of_cell (htidy : ∀ id, layers.Owns before.frames.size id → before.Tidy id)
    {cell : CellId} {content : Cell} {v : Value} (hcell : layers.OwnsCell before cell)
    (hcontent : before.cells[cell]? = some content) (hv : v ∈ content.values) :
    layers.OwnsValue before v := by
  rcases hcell with hcell | ⟨id, hid, entry, hentry, hcallable, u, hu, hucell⟩
  · rw [Array.getElem?_eq_none hcell] at hcontent
    exact absurd hcontent (by simp)
  · have hv' : Relation.ReflTransGen before.Contains entry.2 v :=
      hu.tail ⟨cell, content, hucell, hcontent, hv⟩
    constructor
    · have hplain := htidy id hid entry hentry
      cases hvalue : entry.2 with
      | function f => exact absurd hcallable (by simp [hvalue, Value.isCallable])
      | native f => exact absurd hcallable (by simp [hvalue, Value.isCallable])
      | _ =>
        rw [hvalue] at hplain hv'
        exact hplain v hv'
    · intro cell' hcell'
      exact Or.inr ⟨id, hid, entry, hentry, hcallable, v, hv', hcell'⟩

end Layers

namespace Machine

variable {m : Machine} {layers : Layers} {σ : Store}

theorem owns_parent_begin {id parent : FrameId} (hid : layers.Owns m.store.frames.size id)
    (hparent : (m.begin layers).2.store.parent? id = some parent) :
    layers.Owns m.store.frames.size parent := by
  rcases parent?_begin hparent with rfl | hupper | ⟨hne, hne', hparent⟩
  · exact Or.inr (Or.inr (Nat.le_refl _))
  · exact Or.inr (Or.inl (Layers.globals_of_upper? hupper))
  · rcases hid with rfl | hid | hid
    · exact absurd rfl hne
    · refine absurd ?_ hne'
      unfold Layers.upper?
      rw [hid, Option.filter_some, if_pos (by simpa using hne)]
    · rw [Store.parent?, Store.frame?_eq_none hid] at hparent
      exact absurd hparent (by simp)

theorem realm_holds_begin (hbindings : m.store.Tidy layers.bindings)
    (hglobals : ∀ id ∈ layers.globals, m.store.Tidy id) :
    (layers.realm m.store).Holds (m.begin layers).2.store := by
  have htidy : ∀ id, layers.Owns m.store.frames.size id → m.store.Tidy id := by
    intro id hid
    rcases hid with rfl | hid | hid
    · exact hbindings
    · exact hglobals id hid
    · intro entry hentry
      rw [Store.bindings_eq_nil hid] at hentry
      exact absurd hentry (by simp)
  refine ⟨?_, fun id parent hid hparent => owns_parent_begin hid hparent, ?_, ?_, ?_,
    Nat.zero_le _⟩
  · intro id hid entry hentry
    rcases mem_bindings_begin hentry with hentry | ⟨f, hf⟩
    · exact Layers.binds_of_tidy hid (htidy id hid) entry hentry
    · rw [hf]
      trivial
  · intro cell content hcell hcontent v hv
    rw [cells_begin] at hcontent
    exact Layers.ownsValue_of_cell htidy hcell hcontent hv
  · show m.store.frames.size ≤ _
    rw [size_begin]
    omega
  · exact Nat.le_of_eq (congrArg Array.size (cells_begin layers m)).symm

theorem frame?_begin_of_not_owns {id : FrameId} (h : ¬ layers.Owns m.store.frames.size id) :
    (m.begin layers).2.store.frame? id = m.store.frame? id := by
  refine frame?_begin ?_ ?_ ?_
  · rintro rfl
    exact h (Or.inr (Or.inr (Nat.le_refl _)))
  · rintro rfl
    exact h (Or.inl rfl)
  · intro hupper
    exact h (Or.inr (Or.inl (Layers.globals_of_upper? hupper)))

theorem keepTidy_of_onward (hway : (layers.realm m.store).Onward (m.begin layers).2.store σ) :
    layers.KeepTidy m.store σ :=
  Layers.keepTidy_of_onward (fun _ h => frame?_begin_of_not_owns h) hway

end Machine

theorem Store.Plain.congr {σ τ : Store} {v : Value} (h : σ.Plain v) (hcells : τ.cells = σ.cells) :
    τ.Plain v := by
  have hsame : τ.Contains = σ.Contains := by
    funext a b
    unfold Store.Contains
    rw [hcells]
  intro u hu
  rw [hsame] at hu
  exact h u hu

theorem Store.Tidy.congr {σ τ : Store} {id : FrameId} (h : σ.Tidy id)
    (hbindings : ∀ entry ∈ τ.bindings id, entry ∈ σ.bindings id) (hcells : τ.cells = σ.cells) :
    τ.Tidy id := by
  intro entry hentry
  have hvalue := h entry (hbindings entry hentry)
  cases hv : entry.2 with
  | function f =>
    rw [hv] at hvalue
    exact hvalue
  | native f => trivial
  | _ =>
    rw [hv] at hvalue
    exact hvalue.congr hcells

/-- Unlinking the layers leaves the frames of a run as tidy as they were. -/
theorem Layers.KeepTidy.unlink {layers : Layers} {before σ : Store}
    (h : layers.KeepTidy before σ) :
    layers.KeepTidy before
      ((Layers.restore (layers.parents before) σ).dropFrame before.frames.size) := by
  have hcells := Layers.cells_restore (layers.parents before) σ
  refine ⟨fun id hid => (h.tidy id hid).congr (fun entry hentry => ?_) hcells, fun id hid => ?_⟩
  · rw [Store.bindings_dropFrame] at hentry
    split at hentry
    · exact absurd hentry (by simp)
    · rwa [Layers.bindings_restore] at hentry
  · have htop : before.frames.size ≠ id := by
      rintro rfl
      exact hid (Or.inr (Or.inr (Nat.le_refl _)))
    have hparents : ∀ frame ∈ layers.parents before, frame.1 ≠ id := by
      rintro frame hframe rfl
      rcases Layers.mem_parents hframe with heq | hupper
      · exact hid (Or.inl heq)
      · exact hid (Or.inr (Or.inl (Layers.globals_of_upper? hupper)))
    rw [Store.frame?_dropFrame, if_neg htop, Layers.frame?_restore hparents, h.others id hid]

theorem Moment.secondClass_of_onward {limit : Nat} {layers : Layers} {m : Machine} {M : Moment}
    (hway : (layers.realm m.store).Onward (m.begin layers).2.store M.machine.store)
    (hin : M.task.In (layers.realm m.store)) : M.SecondClass limit layers m.store := by
  refine ⟨Machine.keepTidy_of_onward hway, ?_, ?_, ?_, ?_⟩
  · intro v hv
    obtain ⟨task, machine⟩ := M
    cases task with
    | call f arguments place => exact Layers.plain_of_data hway.holds (hin.2 v hv)
    | native f arguments place => exact Layers.plain_of_data hway.holds (hin v hv)
    | _ => exact absurd hv (by simp [Task.arguments])
  · intro fuel
    have hkeeps : (M.task.eval limit fuel M.machine).Keeps (layers.realm m.store) M.machine.store
        (layers.realm m.store).data := keeps_task fuel hway.holds hin
    cases hout : M.task.eval limit fuel M.machine with
    | done v m' =>
      rw [hout] at hkeeps
      exact ⟨Machine.keepTidy_of_onward (hway.trans hkeeps.1.toOnward),
        Layers.plain_of_data hkeeps.1.holds hkeeps.2⟩
    | signalled s m' =>
      rw [hout] at hkeeps
      exact ⟨Machine.keepTidy_of_onward (hway.trans hkeeps.1.toOnward),
        fun v hv => Layers.plain_of_data hkeeps.1.holds (hkeeps.2 v hv)⟩
    | failed fault place m' =>
      rw [hout] at hkeeps
      exact Machine.keepTidy_of_onward (hway.trans hkeeps.toOnward)
    | exhausted m' =>
      rw [hout] at hkeeps
      exact Machine.keepTidy_of_onward (hway.trans hkeeps.toOnward)
  · intro frame body m' henters hnew entry hentry
    have hdata := data_of_enters_new henters hway.holds hin hnew entry hentry
    obtain ⟨hstep, -⟩ := enters_keeps henters hway.holds hin
    exact Layers.plain_of_data hstep.holds hdata
  · intro N hN id name v hid hv hcallable
    obtain ⟨hstep, -⟩ := reaches_keeps hN hway.holds hin
    have hbound := Realm.bound_of_getLocal? hway.holds hid hv
    have hdata := (layers.realm m.store).data_of_bound id name v hbound hcallable
    obtain ⟨v', hv', hdata'⟩ := hstep.values id name v hv hdata
    exact ⟨v', hv', Layers.plain_of_data hstep.holds hdata'⟩

/-- Functions are second-class in every run that starts from tidy bindings and globals: at every
moment of it, and in what it leaves and gives the host. -/
theorem run_secondClass (limit : Nat) (layers : Layers) (program : Program) (m : Machine)
    (hbindings : m.store.Tidy layers.bindings)
    (hglobals : ∀ id ∈ layers.globals, m.store.Tidy id) :
    (∀ M, (m.outset layers program).Reaches limit M → M.SecondClass limit layers m.store) ∧
      ∀ fuel, layers.KeepTidy m.store (m.run limit fuel layers program).2.store ∧
        ∀ v, (m.run limit fuel layers program).1 = .value v →
          (m.run limit fuel layers program).2.store.Plain v := by
  have hstart := Machine.realm_holds_begin hbindings hglobals
  have hscope : layers.Owns m.store.frames.size layers.bindings := Or.inl rfl
  constructor
  · intro M hM
    obtain ⟨hway, hin⟩ := reaches_keeps (R := layers.realm m.store) hM hstart hscope
    exact Moment.secondClass_of_onward hway hin
  · intro fuel
    have hscript := Eval.keeps_script limit fuel program.body hscope .null hstart
      ((layers.realm m.store).data_scalar .null rfl)
    obtain ⟨hstore, hvalue⟩ := Outcome.Keeps.conclude hscript
    refine ⟨(Machine.keepTidy_of_onward hstore.toOnward).unlink, fun v hv => ?_⟩
    exact (Layers.plain_of_data hstore.holds (hvalue v hv)).congr (Layers.cells_restore _ _)

/-- A set with a function that gives back its argument, and with an array. -/
def echoFunction : Closure :=
  ⟨0, ⟨⟨"f", default⟩, [⟨"x", default⟩],
    [.transfer .return (some (.variable ⟨"x", default⟩)) default], default⟩, 0⟩

def echoMachine : Machine :=
  { Machine.start with store := ⟨#[some ⟨[("f", .function echoFunction), ("xs", .array 0)], none, 1⟩],
      #[.array #[.integer 1, .null]], 1⟩ }

theorem echoMachine_tidy : echoMachine.store.Tidy 0 := by
  have hinside : ∀ u, Relation.ReflTransGen echoMachine.store.Contains (.array 0) u →
      u = .array 0 ∨ u = .integer 1 ∨ u = .null := by
    intro u hu
    induction hu with
    | refl => exact Or.inl rfl
    | tail _ hlast ih =>
      obtain ⟨cell, content, hcell, hcontent, hmem⟩ := hlast
      rcases ih with rfl | rfl | rfl
      · obtain rfl := Option.some.inj hcell
        obtain rfl := Option.some.inj hcontent
        rcases List.mem_cons.mp hmem with rfl | hmem
        · exact Or.inr (Or.inl rfl)
        · exact Or.inr (Or.inr (List.mem_singleton.mp hmem))
      · exact absurd hcell (by simp [Value.cell?])
      · exact absurd hcell (by simp [Value.cell?])
  intro entry hentry
  have hentry : entry ∈ [("f", Value.function echoFunction), ("xs", Value.array 0)] := hentry
  rcases List.mem_cons.mp hentry with rfl | hentry
  · rfl
  · obtain rfl := List.mem_singleton.mp hentry
    intro u hu
    rcases hinside u hu with rfl | rfl | rfl <;> rfl

theorem run_secondClass_echo :
    echoMachine.store.Tidy 0 ∧
      Moment.SecondClass 5 ⟨0, none⟩ echoMachine.store
        ⟨.call echoFunction [.array 0] default, (echoMachine.begin ⟨0, none⟩).2⟩ := by
  have hcall : Moment.Reaches 5
      (echoMachine.outset ⟨0, none⟩
        ⟨[.expression (.call ⟨"f", default⟩ [.variable ⟨"xs", default⟩] default) default], default⟩)
      ⟨.call echoFunction [.array 0] default, (echoMachine.begin ⟨0, none⟩).2⟩ := by
    have hframe : (echoMachine.begin ⟨0, none⟩).2.store.resolve 0 "f" = some 0 := rfl
    refine .tail (.tail (.single .first) (.part rfl)) ?_
    exact .call 3 hframe rfl rfl
  refine ⟨echoMachine_tidy, ?_⟩
  exact (run_secondClass 5 ⟨0, none⟩ _ echoMachine echoMachine_tidy (by simp)).1 _ hcall

end ScriptEngine
