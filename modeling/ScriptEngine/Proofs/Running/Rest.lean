import ScriptEngine.Proofs.Running.Moments
import ScriptEngine.Proofs.Running.Opening

/-!
Stores between runs. At rest every callable has a number that was given out, and every script function
was declared in a frame that was made. What a run adds has higher numbers: callables that were there
stay what they were, the functions that are declared stay in the frames that they are declared in, and
when the run is over the store is at rest again.
-/
namespace ScriptEngine

/-- The callable has a number that was given out before, and so has its home. -/
def Value.Predates (σ : Store) : Value → Prop
  | .function f => f.identity < σ.nextIdentity ∧ f.home < σ.frames.size
  | .native f => f.identity < σ.nextIdentity
  | _ => True

theorem Value.predates_of_not_isCallable {σ : Store} {v : Value} (h : v.isCallable = false) :
    v.Predates σ := by
  cases v with
  | function f => exact absurd h (by simp [isCallable])
  | native f => exact absurd h (by simp [isCallable])
  | _ => trivial

theorem Value.Predates.mono {σ σ' : Store} {v : Value} (h : v.Predates σ)
    (hframes : σ.frames.size ≤ σ'.frames.size) (hidentities : σ.nextIdentity ≤ σ'.nextIdentity) :
    v.Predates σ' := by
  cases v with
  | function f => exact ⟨Nat.lt_of_lt_of_le h.1 hidentities, Nat.lt_of_lt_of_le h.2 hframes⟩
  | native f => exact Nat.lt_of_lt_of_le h hidentities
  | _ => trivial

namespace Store

/-- Nothing is numbered that was not given its number. -/
structure Rested (σ : Store) : Prop where
  bindings : ∀ id, ∀ entry ∈ σ.bindings id, entry.2.Predates σ
  cells : ∀ (cell : CellId) (content : Cell), σ.cells[cell]? = some content →
    ∀ v ∈ content.values, v.Predates σ
  parents : ∀ id parent, σ.parent? id = some parent → parent < σ.frames.size

/-- What a run that begins on the store can come by and bind. Code runs everywhere but in the frame of
the standard functions, and a function that is declared is bound where it is declared only. -/
def runRealm (σ : Store) : Realm where
  frames := fun _ => True
  scopes := fun id => id ≠ σ.frames.size
  cells := fun _ => True
  data := fun v => v.Predates σ
  bound := fun id _ v => v.Predates σ ∨ if id = σ.frames.size then ∃ f, v = .native f
    else ∃ f, v = .function f ∧ f.home = id ∧ σ.nextIdentity + standardNatives.length ≤ f.identity
  code := fun id _ => id ≠ σ.frames.size
  callable := fun f => (Value.function f).Predates σ ∨
    f.home ≠ σ.frames.size ∧ σ.nextIdentity + standardNatives.length ≤ f.identity
  firstFrame := σ.frames.size + 1
  firstCell := 0
  firstIdentity := σ.nextIdentity + standardNatives.length
  scope_of_new := fun _ hid => Nat.ne_of_gt hid
  frame_of_scope := fun _ _ => trivial
  cell_of_new := fun _ _ => trivial
  data_scalar := fun v hv => by
    cases v with
    | function f => exact absurd hv (by simp [Value.isScalar])
    | native f => exact absurd hv (by simp [Value.isScalar])
    | _ => trivial
  data_array := fun _ => Iff.rfl
  data_struct := fun _ => Iff.rfl
  bound_of_new := fun _ _ _ _ hv => Or.inl hv
  bound_again := fun _ _ _ _ _ hv => Or.inl hv
  data_of_bound := fun _ _ _ _ hv => Value.predates_of_not_isCallable hv
  callable_of_bound := fun id _ f _ hf => by
    rcases hf with hf | hf
    · exact Or.inl hf
    · split at hf
      · obtain ⟨g, hg⟩ := hf
        exact absurd hg (by simp)
      · rename_i hid
        obtain ⟨g, hg, rfl, hidentity⟩ := hf
        obtain rfl := Value.function.inj hg
        exact Or.inr ⟨hid, hidentity⟩
  scope_of_callable := fun _ hf => hf.elim (fun hf => Nat.ne_of_lt hf.2) And.left
  code_of_callable := fun _ _ _ hid => Nat.ne_of_gt hid
  scope_of_code := fun _ _ h => h
  code_of_part := fun _ _ _ h _ => h
  code_of_opens := fun _ _ _ _ _ _ hid => Nat.ne_of_gt hid
  bound_of_declare := fun _ _ _ _ _ _ hv => Or.inl hv
  bound_of_function := fun scope _ _ _ _ _ hscope hidentity =>
    Or.inr ((if_neg hscope).mpr ⟨_, rfl, rfl, hidentity⟩)

end Store

namespace Machine

variable {m : Machine} {layers : Layers}

theorem bindings_ne_top (halive : layers.Alive m.store) : layers.bindings ≠ m.store.frames.size :=
  Nat.ne_of_lt (Store.lt_size_of_isAlive halive.bindings)

theorem runRealm_holds (h : m.store.Rested) (layers : Layers) :
    m.store.runRealm.Holds (m.begin layers).2.store := by
  refine ⟨fun id _ entry hentry => ?_, fun _ _ _ _ => trivial, ?_, ?_, Nat.zero_le _, ?_⟩
  · by_cases hid : id = m.store.frames.size
    · subst hid
      exact Or.inr ((if_pos rfl).mpr (native_of_bindings_begin hentry))
    · rw [bindings_begin layers hid] at hentry
      exact Or.inl (h.bindings id entry hentry)
  · rw [cells_begin]
    exact fun cell content _ => h.cells cell content
  · exact Nat.le_of_eq (size_begin layers m).symm
  · exact Nat.le_of_eq (nextIdentity_begin layers m).symm

theorem numbered_begin (h : m.store.Rested) (layers : Layers) :
    (m.begin layers).2.store.Numbered := by
  intro id name f hf
  have hold := h.bindings id _ (function_of_bindings_begin hf)
  exact Nat.lt_of_lt_of_le hold.1 (nextIdentity_le_begin layers m)

/-- What a run has done to a store when its statements are through. -/
structure Ran (m : Machine) (layers : Layers) (σ : Store) : Prop where
  settled : m.store.runRealm.Settled (m.begin layers).2.store σ
  numbered : σ.Numbered

theorem Ran.of_settled (h : m.store.Rested) {σ : Store}
    (hσ : m.store.runRealm.Settled (m.begin layers).2.store σ) : m.Ran layers σ := by
  refine ⟨hσ, hσ.numbered (fun f hf => ?_) (numbered_begin h layers)⟩
  exact Nat.lt_of_lt_of_le hf.1 (nextIdentity_le_begin layers m)

theorem keeps_run (h : m.store.Rested) (halive : layers.Alive m.store) (limit fuel : Nat)
    (body : List Stmt) : (Eval.script limit fuel layers.bindings .null body).Keeps m.store.runRealm
      (m.begin layers).2 m.store.runRealm.data :=
  Eval.keeps_script limit fuel body (bindings_ne_top halive) .null (runRealm_holds h layers) trivial

namespace Ran

variable {σ : Store} (h : m.Ran layers σ)

include h

theorem size_le : m.store.frames.size + 1 ≤ σ.frames.size :=
  Nat.le_trans (Nat.le_of_eq (size_begin layers m).symm) h.settled.frames.size

theorem identity_le : m.store.nextIdentity + Store.standardNatives.length ≤ σ.nextIdentity :=
  Nat.le_trans (Nat.le_of_eq (nextIdentity_begin layers m).symm) h.settled.identities

/-- A value in a frame other than that of the standard functions was there, or it is a function that
was declared in the frame. -/
theorem predates_or_declared {id : FrameId} (hid : id ≠ m.store.frames.size)
    {entry : String × Value} (hentry : entry ∈ σ.bindings id) : entry.2.Predates m.store ∨
      ∃ f, entry.2 = .function f ∧ f.home = id ∧ f.identity < σ.nextIdentity ∧
        m.store.nextIdentity + Store.standardNatives.length ≤ f.identity := by
  rcases h.settled.holds.bindings id trivial entry hentry with hold | hnew
  · exact Or.inl hold
  · rw [if_neg hid] at hnew
    obtain ⟨f, hf, hhome, hidentity⟩ := hnew
    refine Or.inr ⟨f, hf, hhome, h.numbered id entry.1 f ?_, hidentity⟩
    rw [← hf]
    exact hentry

theorem isAlive (id : FrameId) :
    σ.isAlive id = if id = m.store.frames.size then true else m.store.isAlive id := by
  rw [h.settled.settles.isAlive, isAlive_begin]

theorem parent? (halive : layers.Alive m.store) (id : FrameId) :
    σ.parent? id = layers.parentBelow m.store.frames.size m.store id := by
  rw [Store.parent?_congr (h.settled.settles.links id), parent?_begin_eq halive]

theorem settles : m.store.Settles (m.unlink layers σ) := settles_unlink h.settled.settles

/-- The store after the end of the run is at rest. -/
theorem rested (hrested : m.store.Rested) : (m.unlink layers σ).Rested := by
  have hlater : ∀ v : Value, v.Predates m.store → v.Predates (m.unlink layers σ) := by
    intro v hv
    refine hv.mono h.settles.size ?_
    rw [nextIdentity_unlink]
    exact Nat.le_trans (Nat.le_add_right _ _) h.identity_le
  refine ⟨fun id entry hentry => ?_, fun cell content hcell v hv => ?_, fun id parent hparent => ?_⟩
  · have hlt := Store.lt_size_of_isAlive (Store.isAlive_of_mem_bindings hentry)
    rw [bindings_unlink] at hentry
    split at hentry
    · exact absurd hentry (by simp)
    · rename_i hid
      rcases h.predates_or_declared (Ne.symm hid) hentry with hold | ⟨f, hf, hhome, hnumber, -⟩
      · exact hlater _ hold
      · rw [hf]
        exact ⟨nextIdentity_unlink m layers σ ▸ hnumber, hhome ▸ hlt⟩
  · rw [cells_unlink] at hcell
    exact hlater v (h.settled.holds.cells cell content trivial hcell v hv)
  · have halive := Store.isAlive_of_parent? hparent
    rw [h.settles.isAlive] at halive
    rw [h.settles.parent? (Store.lt_size_of_isAlive halive)] at hparent
    exact Nat.lt_of_lt_of_le (hrested.parents id parent hparent) h.settles.size

end Ran

/-- Stores between runs are at rest. -/
theorem rested_run (hrested : m.store.Rested) (halive : layers.Alive m.store) (limit fuel : Nat)
    (program : Program) : (m.run limit fuel layers program).2.store.Rested := by
  have hkeeps := keeps_run hrested halive limit fuel program.body
  exact (Ran.of_settled hrested (Outcome.Keeps.conclude hkeeps).1).rested hrested

/-- One empty set of bindings. -/
def lone : Machine := { Machine.start with store := ⟨#[some ⟨[], none, 1⟩], #[], 0⟩ }

theorem bindings_lone (id : FrameId) : lone.store.bindings id = [] := by
  cases id <;> simp [lone, Store.bindings, Store.frame?]

theorem parent?_lone (id : FrameId) : lone.store.parent? id = none := by
  cases id <;> simp [lone, Store.parent?, Store.frame?]

theorem lone_rested : lone.store.Rested := by
  refine ⟨fun id entry hentry => ?_, fun cell content hcell => ?_, fun id parent hparent => ?_⟩
  · rw [bindings_lone] at hentry
    exact absurd hentry List.not_mem_nil
  · exact absurd hcell (by simp [lone])
  · rw [parent?_lone] at hparent
    exact absurd hparent (by simp)

theorem lone_alive : Layers.Alive ⟨0, none⟩ lone.store :=
  ⟨rfl, fun _ h => absurd h (by simp [Layers.upper?])⟩

end Machine

end ScriptEngine
