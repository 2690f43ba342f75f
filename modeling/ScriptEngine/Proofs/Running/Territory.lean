import ScriptEngine.Proofs.Running.Series
import ScriptEngine.Proofs.Running.Supply

/-!
What a run can change. Bindings lead to values, values to what is in them, functions to the frames that
they were declared in, and these to what they bind and to the frames above them. Where the way does not
lead, a run leaves every frame and every array and struct as it is, at every moment and in the end.
-/
namespace ScriptEngine

namespace Layers

/-- The frame is one of the layers. -/
def Has (layers : Layers) (id : FrameId) : Prop := id = layers.bindings ∨ layers.globals = some id

/-- What the bindings of the layers lead to. What lies above a layer between runs is left out, as a run
links the layers below a frame of its own. -/
inductive Reaches (layers : Layers) (σ : Store) : Node → Prop where
  | layer {id : FrameId} (hid : layers.Has id) : Reaches layers σ (.frame id)
  | binding {id : FrameId} {entry : String × Value} (h : Reaches layers σ (.frame id))
      (hentry : entry ∈ σ.bindings id) : Reaches layers σ (.value entry.2)
  | above {id parent : FrameId} (h : Reaches layers σ (.frame id)) (hid : ¬ layers.Has id)
      (hparent : σ.parent? id = some parent) : Reaches layers σ (.frame parent)
  | content {v u : Value} (h : Reaches layers σ (.value v)) (hu : σ.Contains v u) :
      Reaches layers σ (.value u)
  | home {f : Closure} (h : Reaches layers σ (.value (.function f))) :
      Reaches layers σ (.frame f.home)

/-- The cell is that of an array or a struct that the bindings lead to. -/
def ReachesCell (layers : Layers) (σ : Store) (cell : CellId) : Prop :=
  ∃ v, layers.Reaches σ (.value v) ∧ v.cell? = some cell

/-- Where the layers do not lead, what was there is the same. -/
structure Spares (layers : Layers) (σ σ' : Store) : Prop where
  frames : ∀ id < σ.frames.size, ¬ layers.Reaches σ (.frame id) → σ'.frame? id = σ.frame? id
  cells : ∀ cell < σ.cells.size, ¬ layers.ReachesCell σ cell → σ'.cells[cell]? = σ.cells[cell]?

theorem has_iff {layers : Layers} {id : FrameId} :
    layers.Has id ↔ id = layers.bindings ∨ layers.upper? = some id := by
  refine ⟨fun h => ?_, fun h => h.imp_right globals_of_upper?⟩
  by_cases hid : id = layers.bindings
  · exact Or.inl hid
  · exact Or.inr (Option.filter_eq_some_iff.mpr ⟨h.resolve_left hid, by simpa using hid⟩)

end Layers

/-! Parts of the store -/

/-- A part of the store. -/
structure Territory where
  frames : FrameId → Prop
  cells : CellId → Prop

namespace Territory

/-- The value does not lead out of the part. -/
def Owns (T : Territory) (v : Value) : Prop := v.HoldsOnly T.cells fun f => T.frames f.home

/-- Nothing that a run on the layers comes to leads out of the part. -/
structure Closed (T : Territory) (layers : Layers) (σ : Store) : Prop where
  layer : ∀ id, layers.Has id → T.frames id
  bindings : ∀ id, T.frames id → ∀ entry ∈ σ.bindings id, T.Owns entry.2
  above : ∀ id parent, T.frames id → ¬ layers.Has id → σ.parent? id = some parent → T.frames parent
  content : ∀ cell content, T.cells cell → σ.cells[cell]? = some content →
    ∀ v ∈ content.values, T.Owns v

/-- The part with everything that will be new. -/
def grown (T : Territory) (σ : Store) : Territory where
  frames := fun id => σ.frames.size ≤ id ∨ T.frames id
  cells := fun cell => σ.cells.size ≤ cell ∨ T.cells cell

theorem Owns.grown {T : Territory} {v : Value} (h : T.Owns v) (σ : Store) : (T.grown σ).Owns v :=
  ⟨fun cell hcell => Or.inr (h.1 cell hcell), fun f hf => Or.inr (h.2 f hf)⟩

/-- What a run can come by that stays in the part. -/
def realm (T : Territory) (σ : Store) : Realm where
  frames := (T.grown σ).frames
  scopes := (T.grown σ).frames
  cells := (T.grown σ).cells
  data := (T.grown σ).Owns
  bound := fun _ _ => (T.grown σ).Owns
  code := fun scope _ => (T.grown σ).frames scope
  callable := fun f => (T.grown σ).frames f.home
  firstFrame := σ.frames.size
  firstCell := σ.cells.size
  firstIdentity := 0
  scope_of_new := fun _ h => Or.inl h
  frame_of_scope := fun _ h => h
  cell_of_new := fun _ h => Or.inl h
  data_scalar := fun _ hv => Value.holdsOnly_of_isScalar hv
  data_array := fun _ => Value.holdsOnly_array
  data_struct := fun _ => Value.holdsOnly_struct
  bound_of_new := fun _ _ _ _ hv => hv
  bound_again := fun _ _ _ _ _ hv => hv
  data_of_bound := fun _ _ _ hv _ => hv
  callable_of_bound := fun _ _ f _ hf => hf.2 f rfl
  scope_of_callable := fun _ h => h
  code_of_callable := fun _ _ _ hnew => Or.inl hnew
  scope_of_code := fun _ _ h => h
  code_of_part := fun _ _ _ h _ => h
  code_of_opens := fun _ _ _ _ _ _ hnew => Or.inl hnew
  bound_of_declare := fun _ _ _ _ _ _ hv => hv
  bound_of_function := fun _ _ _ _ _ _ hscope _ => Value.holdsOnly_function.mpr hscope

variable {T : Territory} {m n : Machine} {layers : Layers} {job : Job}

theorem Closed.holds_begin (h : T.Closed layers m.store) :
    (T.realm m.store).Holds (m.begin layers).2.store := by
  refine ⟨fun id hid entry hentry => ?_, fun id parent hid hparent => ?_,
    fun cell content hcell hcontent v hv => ?_, ?_, ?_, Nat.zero_le _⟩
  · rcases Machine.mem_bindings_begin hentry with hentry | ⟨f, hf⟩
    · rcases hid with hid | hid
      · rw [Store.bindings_eq_nil hid] at hentry
        exact absurd hentry List.not_mem_nil
      · exact (h.bindings id hid entry hentry).grown m.store
    · rw [hf]
      exact Value.holdsOnly_native f
  · rcases Machine.parent?_begin hparent with rfl | hupper | ⟨hbindings, hupper, hparent⟩
    · exact Or.inl (Nat.le_refl _)
    · exact Or.inr (h.layer parent (Layers.has_iff.mpr (Or.inr hupper)))
    · rcases hid with hid | hid
      · rw [Store.parent?, Store.frame?_eq_none hid] at hparent
        exact absurd hparent (by simp)
      · have hlayer : ¬ layers.Has id := by
          rw [Layers.has_iff]
          exact not_or.mpr ⟨hbindings, hupper⟩
        exact Or.inr (h.above id parent hid hlayer hparent)
  · rw [Machine.cells_begin] at hcontent
    rcases hcell with hcell | hcell
    · rw [Array.getElem?_eq_none hcell] at hcontent
      exact absurd hcontent (by simp)
    · exact (h.content cell content hcell hcontent v hv).grown m.store
  · show m.store.frames.size ≤ _
    rw [Machine.size_begin]
    omega
  · exact Nat.le_of_eq (congrArg Array.size (Machine.cells_begin layers m)).symm

theorem Closed.code (h : T.Closed layers m.store) (body : List Stmt) :
    (T.realm m.store).code layers.bindings (.stmts body) :=
  Or.inr (h.layer layers.bindings (Or.inl rfl))

theorem Closed.frame?_begin (h : T.Closed layers m.store) {id : FrameId}
    (hid : ¬ (T.grown m.store).frames id) :
    (m.begin layers).2.store.frame? id = m.store.frame? id := by
  obtain ⟨hlt, hfree⟩ := not_or.mp hid
  have hlayer : ¬ layers.Has id := fun hlayer => hfree (h.layer id hlayer)
  rw [Layers.has_iff, not_or] at hlayer
  exact Machine.frame?_begin (Nat.ne_of_lt (Nat.lt_of_not_le hlt)) hlayer.1 hlayer.2

/-- At every moment of a run everything else is as it was. -/
theorem Closed.spared (h : T.Closed job.layers m.store) (hvisit : m.Visits job n) :
    (∀ id, ¬ (T.grown m.store).frames id → n.store.frame? id = m.store.frame? id) ∧
      ∀ cell : CellId, ¬ (T.grown m.store).cells cell → n.store.cells[cell]? = m.store.cells[cell]? := by
  have hway := hvisit.onward_of_holds (R := T.realm m.store)
    (Closed.holds_begin (m := m.equipped job) h) (Closed.code (m := m.equipped job) h _)
  refine ⟨fun id hid => ?_, fun cell hcell => ?_⟩
  · exact (hway.outside id hid).trans (Closed.frame?_begin (m := m.equipped job) h hid)
  · rw [hway.cellsOutside cell hcell, Machine.cells_begin]
    rfl

/-- And so it is after the run. -/
theorem Closed.spared_perform (h : T.Closed job.layers m.store) :
    (∀ id, ¬ (T.grown m.store).frames id →
        (m.perform job).2.store.frame? id = m.store.frame? id) ∧
      ∀ cell : CellId, ¬ (T.grown m.store).cells cell →
        (m.perform job).2.store.cells[cell]? = m.store.cells[cell]? := by
  obtain ⟨σ, hσ, hsettled⟩ := Machine.settled_perform (R := T.realm m.store)
    (Closed.holds_begin (m := m.equipped job) h) (Closed.code (m := m.equipped job) h _)
  rw [hσ]
  refine ⟨fun id hid => ?_, fun cell hcell => ?_⟩
  · obtain ⟨hlt, hfree⟩ := not_or.mp hid
    have htop : (m.equipped job).store.frames.size ≠ id := fun heq => hlt (Nat.le_of_eq heq)
    have hlayer : ∀ frame ∈ job.layers.parents (m.equipped job).store, frame.1 ≠ id := by
      rintro frame hframe rfl
      exact hfree (h.layer _ (Layers.has_iff.mpr (Layers.mem_parents hframe)))
    unfold Machine.unlink
    rw [Store.frame?_dropFrame, if_neg htop, Layers.frame?_restore hlayer, hsettled.outside id hid]
    exact Closed.frame?_begin (m := m.equipped job) h hid
  · rw [Machine.cells_unlink, hsettled.cellsOutside cell hcell, Machine.cells_begin]
    rfl

end Territory

/-- What the bindings of the layers lead to. -/
def Layers.territory (layers : Layers) (σ : Store) : Territory where
  frames := fun id => layers.Reaches σ (.frame id)
  cells := layers.ReachesCell σ

theorem Layers.owns_of_reaches {layers : Layers} {σ : Store} {v : Value}
    (h : layers.Reaches σ (.value v)) : (layers.territory σ).Owns v := by
  refine ⟨fun cell hcell => ⟨v, h, hcell⟩, ?_⟩
  rintro f rfl
  exact h.home

theorem Layers.closed_territory (layers : Layers) (σ : Store) :
    (layers.territory σ).Closed layers σ where
  layer := fun _ hid => .layer hid
  bindings := fun _ hid _ hentry => owns_of_reaches (hid.binding hentry)
  above := fun _ _ hid hlayer hparent => hid.above hlayer hparent
  content := by
    rintro cell content ⟨u, hu, hcell⟩ hcontent v hv
    exact owns_of_reaches (hu.content ⟨cell, content, hcell, hcontent, hv⟩)

theorem Layers.spares_of_grown {layers : Layers} {σ σ' : Store}
    (h : (∀ id, ¬ ((layers.territory σ).grown σ).frames id → σ'.frame? id = σ.frame? id) ∧
      ∀ cell : CellId, ¬ ((layers.territory σ).grown σ).cells cell → σ'.cells[cell]? = σ.cells[cell]?) :
    layers.Spares σ σ' := by
  refine ⟨fun id hid hfree => h.1 id ?_, fun cell hcell hfree => h.2 cell ?_⟩
  · exact not_or.mpr ⟨Nat.not_le_of_lt hid, hfree⟩
  · exact not_or.mpr ⟨Nat.not_le_of_lt hcell, hfree⟩

namespace Machine

variable {m n : Machine} {job : Job}

/-- What was there before a run is the same at every moment of it, where its layers do not lead. -/
theorem Visits.spares (h : m.Visits job n) : job.layers.Spares m.store n.store :=
  Layers.spares_of_grown ((job.layers.closed_territory m.store).spared h)

theorem perform_spares (m : Machine) (job : Job) :
    job.layers.Spares m.store (m.perform job).2.store :=
  Layers.spares_of_grown (job.layers.closed_territory m.store).spared_perform

end Machine

end ScriptEngine
