import ScriptEngine.Proofs.Running.Lookup
import ScriptEngine.Proofs.Running.Renaming
import ScriptEngine.Run.Outcome

/-!
A machine under other numbers. Every frame has a counterpart that binds the same names to the same
values and lies below the counterpart of its parent, with at most a frame between them that binds
nothing. The next frame and the next callable on one side are the next ones on the other. Whatever
changes in the same way on both sides leaves this so, and a name is found in the counterpart of the
frame in which it is found.
-/
namespace ScriptEngine

namespace Store

variable {σ σ' : Store} {name : String}

/-! What a name means -/

/-- From the first frame the name is found in the second one. -/
inductive Means (σ : Store) (name : String) : FrameId → FrameId → Prop where
  | here {id} (hhas : σ.hasLocal id name) : Means σ name id id
  | above {id parent frame} (hhas : σ.hasLocal id name = false) (hparent : σ.parent? id = some parent)
      (hframe : Means σ name parent frame) : Means σ name id frame

theorem FindsAt.means {n : Nat} :
    ∀ {id frame : FrameId}, σ.FindsAt name id n frame → σ.Means name id frame := by
  induction n with
  | zero =>
    intro id frame h
    obtain rfl := Option.some.inj h.at_
    exact .here h.has
  | succ n ih =>
    intro id frame h
    obtain ⟨parent, hparent, hat⟩ := Option.bind_eq_some_iff.mp h.at_
    refine .above (h.first 0 (Nat.succ_pos n) id rfl) hparent (ih ⟨hat, h.has, ?_⟩)
    intro k hk other hother
    refine h.first (k + 1) (Nat.succ_lt_succ hk) other ?_
    rw [ancestor?, hparent]
    exact hother

theorem Means.findsAt {id frame : FrameId} (h : σ.Means name id frame) :
    ∃ n, σ.FindsAt name id n frame := by
  induction h with
  | here hhas => exact ⟨0, rfl, hhas, fun k hk => absurd hk (Nat.not_lt_zero k)⟩
  | above hhas hparent _ ih =>
    obtain ⟨n, hat, hframe, hfirst⟩ := ih
    refine ⟨n + 1, ?_, hframe, fun k hk other hother => ?_⟩
    · rw [ancestor?, hparent]
      exact hat
    · cases k with
      | zero =>
        obtain rfl := Option.some.inj hother
        exact hhas
      | succ k =>
        rw [ancestor?, hparent] at hother
        exact hfirst k (Nat.lt_of_succ_lt_succ hk) other hother

theorem resolve_eq_some_iff {id frame : FrameId} :
    σ.resolve id name = some frame ↔ σ.Means name id frame := by
  rw [resolve, resolveWithin_eq_some_iff]
  constructor
  · rintro ⟨n, -, hfinds⟩
    exact hfinds.means
  · intro h
    obtain ⟨n, hfinds⟩ := h.findsAt
    exact ⟨n, hfinds.lt_size, hfinds⟩

theorem bindings_setLocal_eq (σ : Store) (id other : FrameId) (name : String) (v : Value) :
    (σ.setLocal id name v).bindings other =
      if id = other ∧ σ.isAlive id then (σ.bindings id).put name v else σ.bindings other := by
  by_cases hid : id = other
  · subst hid
    by_cases halive : σ.isAlive id
    · rw [bindings_setLocal halive, if_pos ⟨rfl, halive⟩]
    · have hgone : σ.frame? id = none := by simpa [isAlive] using halive
      rw [if_neg fun h => halive h.2, bindings, setLocal, frame?_modifyFrame, bindings]
      simp [hgone]
  · rw [bindings_setLocal_of_ne hid, if_neg fun h => hid h.1]

theorem size_setLocal (σ : Store) (id : FrameId) (name : String) (v : Value) :
    (σ.setLocal id name v).frames.size = σ.frames.size :=
  Array.size_modify ..

theorem size_dropFrame (σ : Store) (id : FrameId) :
    (σ.dropFrame id).frames.size = σ.frames.size :=
  Array.size_setIfInBounds ..

theorem isAlive_setLocal (σ : Store) (id other : FrameId) (name : String) (v : Value) :
    (σ.setLocal id name v).isAlive other = σ.isAlive other := by
  unfold isAlive setLocal
  rw [frame?_modifyFrame]
  split
  · rw [Option.isSome_map]
  · rfl

theorem isAlive_dropFrame (σ : Store) (id other : FrameId) :
    (σ.dropFrame id).isAlive other = if id = other then false else σ.isAlive other := by
  unfold isAlive
  rw [frame?_dropFrame]
  split <;> rfl

theorem parent?_dropFrame (σ : Store) (id other : FrameId) :
    (σ.dropFrame id).parent? other = if id = other then none else σ.parent? other := by
  unfold parent?
  rw [frame?_dropFrame]
  split <;> rfl

theorem isAlive_newChild (σ : Store) (parent id : FrameId) :
    (σ.newChild parent).2.isAlive id = if id = σ.frames.size then true else σ.isAlive id := by
  unfold isAlive newChild
  rw [frame?_addFrame]
  split <;> rfl

theorem parent?_newChild (σ : Store) (parent id : FrameId) :
    (σ.newChild parent).2.parent? id =
      if id = σ.frames.size then some parent else σ.parent? id := by
  unfold parent? newChild
  rw [frame?_addFrame]
  split <;> rfl

theorem bindings_newChild_eq (σ : Store) (parent id : FrameId) :
    (σ.newChild parent).2.bindings id = if id = σ.frames.size then [] else σ.bindings id := by
  unfold newChild
  rw [bindings_addFrame]

/-- A frame that has the same links binds other values to the same names. -/
theorem frame?_eq_map {σ' : Store} {id : FrameId} {f : Value → Value}
    (hlinks : (σ'.frame? id).map Frame.links = (σ.frame? id).map Frame.links)
    (hbindings : σ'.bindings id = (σ.bindings id).mapValues f) :
    σ'.frame? id =
      (σ.frame? id).map fun frame => { frame with bindings := frame.bindings.mapValues f } := by
  unfold bindings at hbindings
  cases h : σ.frame? id with
  | none => simpa [h] using hlinks
  | some frame =>
    rw [h] at hlinks hbindings
    obtain ⟨frame', hframe', hlinks⟩ := Option.map_eq_some_iff.mp hlinks
    rw [hframe'] at hbindings ⊢
    obtain ⟨bindings, parent, handles⟩ := frame
    obtain ⟨bindings', parent', handles'⟩ := frame'
    simp_all [Frame.links]

/-- A store is its frames, its cells and its counter. -/
theorem ext_frame? {σ' : Store} (hsize : σ.frames.size = σ'.frames.size)
    (hframes : ∀ id, σ.frame? id = σ'.frame? id) (hcells : σ.cells = σ'.cells)
    (hidentity : σ.nextIdentity = σ'.nextIdentity) : σ = σ' := by
  obtain ⟨frames, cells, next⟩ := σ
  obtain ⟨frames', cells', next'⟩ := σ'
  obtain rfl : cells = cells' := hcells
  obtain rfl : next = next' := hidentity
  congr
  refine Array.ext hsize fun i hi hi' => ?_
  have hframe : frames[i]?.join = frames'[i]?.join := hframes i
  rwa [Array.getElem?_eq_getElem hi, Array.getElem?_eq_getElem hi'] at hframe

end Store

namespace Renaming

/-- This is what lies above the frame, when one passes over a hollow frame. -/
def Above (ρ : Renaming) (σ : Store) (id : FrameId) (above : Option FrameId) : Prop :=
  σ.parent? id = above ∨
    ∃ between, ρ.hollow between ∧ σ.parent? id = some between ∧ σ.bindings between = [] ∧
      σ.parent? between = above

/-- The second store is the first one with other numbers. -/
structure Image (ρ : Renaming) (σ σ' : Store) : Prop where
  cells : σ'.cells = σ.cells.map ρ.cell
  alive : ∀ id, σ'.isAlive (ρ.frame id) = σ.isAlive id
  bindings : ∀ id, σ'.bindings (ρ.frame id) = (σ.bindings id).mapValues ρ.value
  parents : ∀ id, ρ.Above σ' (ρ.frame id) ((σ.parent? id).map ρ.frame)
  frames : ∀ k, ρ.frame (σ.frames.size + k) = σ'.frames.size + k
  identities : ∀ k, ρ.identity (σ.nextIdentity + k) = σ'.nextIdentity + k
  kept : ρ.kept ≤ σ.nextIdentity

namespace Image

variable {ρ : Renaming} {σ σ' : Store}

theorem next (h : ρ.Image σ σ') : ρ.frame σ.frames.size = σ'.frames.size := h.frames 0

theorem nextIdentity (h : ρ.Image σ σ') : ρ.identity σ.nextIdentity = σ'.nextIdentity :=
  h.identities 0

theorem getLocal? (h : ρ.Image σ σ') (id : FrameId) (name : String) :
    σ'.getLocal? (ρ.frame id) name = (σ.getLocal? id name).map ρ.value := by
  unfold Store.getLocal?
  rw [h.bindings, Entries.get?_mapValues]

theorem hasLocal (h : ρ.Image σ σ') (id : FrameId) (name : String) :
    σ'.hasLocal (ρ.frame id) name = σ.hasLocal id name := by
  unfold Store.hasLocal
  rw [h.bindings, Entries.has_mapValues]

/-! Names -/

theorem means (h : ρ.Image σ σ') {name : String} {id frame : FrameId} (hmeans : σ.Means name id frame) :
    σ'.Means name (ρ.frame id) (ρ.frame frame) := by
  induction hmeans with
  | here hhas => exact .here ((h.hasLocal _ name).trans hhas)
  | @above id parent frame hhas hparent _ ih =>
    have hhas' := (h.hasLocal id name).trans hhas
    rcases h.parents id with habove | ⟨between, -, hbetween, hempty, habove⟩
    · rw [hparent] at habove
      exact .above hhas' habove ih
    · rw [hparent] at habove
      refine .above hhas' hbetween (.above ?_ habove ih)
      rw [Store.hasLocal, hempty]
      rfl

/-- The way up on the other side passes the counterparts of the frames on this side, and hollow frames
between them. -/
theorem of_means (h : ρ.Image σ σ') {name : String} {place frame' : FrameId}
    (hmeans : σ'.Means name place frame') :
    ∀ id, (place = ρ.frame id ∨ σ.hasLocal id name = false ∧ σ'.bindings place = [] ∧
      σ'.parent? place = (σ.parent? id).map ρ.frame) →
      ∃ frame, σ.Means name id frame ∧ ρ.frame frame = frame' := by
  induction hmeans with
  | @here place hhas =>
    rintro id (rfl | ⟨-, hempty, -⟩)
    · rw [h.hasLocal] at hhas
      exact ⟨id, .here hhas, rfl⟩
    · rw [Store.hasLocal, hempty] at hhas
      exact absurd hhas (by simp [Entries.has, Entries.get?])
  | @above place parent' frame' hhas hparent' _ ih =>
    have hup : ∀ id, σ.hasLocal id name = false → (σ.parent? id).map ρ.frame = some parent' →
        ∃ frame, σ.Means name id frame ∧ ρ.frame frame = frame' := by
      intro id hfree habove
      obtain ⟨parent, hparent, hsame⟩ := Option.map_eq_some_iff.mp habove
      obtain ⟨frame, hframe, hsame'⟩ := ih parent (Or.inl hsame.symm)
      exact ⟨frame, .above hfree hparent hframe, hsame'⟩
    rintro id (rfl | ⟨hfree, -, habove⟩)
    · have hfree : σ.hasLocal id name = false := (h.hasLocal id name).symm.trans hhas
      rcases h.parents id with habove | ⟨between, -, hbetween, hempty, habove⟩
      · exact hup id hfree (habove.symm.trans hparent')
      · obtain rfl := Option.some.inj (hbetween.symm.trans hparent')
        exact ih id (Or.inr ⟨hfree, hempty, habove⟩)
    · exact hup id hfree (habove.symm.trans hparent')

theorem resolve (h : ρ.Image σ σ') (id : FrameId) (name : String) :
    σ'.resolve (ρ.frame id) name = (σ.resolve id name).map ρ.frame := by
  ext frame'
  rw [Store.resolve_eq_some_iff, Option.map_eq_some_iff]
  simp only [Store.resolve_eq_some_iff]
  constructor
  · exact fun hmeans => h.of_means hmeans id (Or.inl rfl)
  · rintro ⟨frame, hframe, rfl⟩
    exact h.means hframe

theorem read (h : ρ.Image σ σ') (id : FrameId) (name : String) :
    σ'.read (ρ.frame id) name = (σ.read id name).map ρ.value := by
  unfold Store.read
  rw [h.resolve]
  cases σ.resolve id name with
  | none => rfl
  | some frame =>
    rw [Option.map_some, Option.bind_some, Option.bind_some, h.getLocal?]
    cases σ.getLocal? frame name <;> rfl

/-! Changes -/

/-- A frame is hollow as long as nothing is done to the counterparts. -/
theorem above_congr {τ : Store} {id : FrameId} {above : Option FrameId} (h : ρ.Above σ id above)
    (hparent : τ.parent? id = σ.parent? id)
    (hhollow : ∀ other, ρ.hollow other →
      τ.bindings other = σ.bindings other ∧ τ.parent? other = σ.parent? other) :
    ρ.Above τ id above := by
  rcases h with habove | ⟨between, hbetween, hparent', hempty, habove⟩
  · exact Or.inl (hparent.trans habove)
  · obtain ⟨hbindings, hup⟩ := hhollow between hbetween
    exact Or.inr ⟨between, hbetween, hparent.trans hparent', hbindings.trans hempty,
      hup.trans habove⟩

theorem ne_of_hollow {other : FrameId} (hother : ρ.hollow other) (id : FrameId) :
    ρ.frame id ≠ other := by
  rintro rfl
  exact ρ.not_hollow id hother

theorem setLocal (h : ρ.Image σ σ') (id : FrameId) (name : String) (v : Value) :
    ρ.Image (σ.setLocal id name v) (σ'.setLocal (ρ.frame id) name (ρ.value v)) := by
  refine ⟨h.cells, fun other => ?_, fun other => ?_, fun other => ?_, fun k => ?_, h.identities,
    h.kept⟩
  · rw [Store.isAlive_setLocal, Store.isAlive_setLocal, h.alive]
  · rw [Store.bindings_setLocal_eq, Store.bindings_setLocal_eq, h.alive, h.bindings, h.bindings]
    simp only [ρ.frame_injective.eq_iff]
    split
    · exact Entries.put_mapValues ρ.value name v _
    · rfl
  · rw [Store.parent?_setLocal]
    refine above_congr (h.parents other) (Store.parent?_setLocal ..) fun between hbetween => ?_
    exact ⟨Store.bindings_setLocal_of_ne (ne_of_hollow hbetween id) _ _, Store.parent?_setLocal ..⟩
  · rw [Store.size_setLocal, Store.size_setLocal]
    exact h.frames k

theorem newChild (h : ρ.Image σ σ') (parent : FrameId) :
    ρ.Image (σ.newChild parent).2 (σ'.newChild (ρ.frame parent)).2 := by
  have hnew : ∀ id, ρ.frame id = σ'.frames.size ↔ id = σ.frames.size := fun id => by
    rw [← h.next, ρ.frame_injective.eq_iff]
  refine ⟨h.cells, fun id => ?_, fun id => ?_, fun id => ?_, fun k => ?_, h.identities, h.kept⟩
  · rw [Store.isAlive_newChild, Store.isAlive_newChild, h.alive]
    simp only [hnew]
  · rw [Store.bindings_newChild_eq, Store.bindings_newChild_eq, h.bindings]
    simp only [hnew]
    split <;> rfl
  · rw [Store.parent?_newChild]
    by_cases hid : id = σ.frames.size
    · rw [if_pos hid]
      exact Or.inl ((Store.parent?_newChild ..).trans (if_pos ((hnew id).mpr hid)))
    · rw [if_neg hid]
      refine above_congr (h.parents id) ?_ fun between hbetween => ?_
      · exact (Store.parent?_newChild ..).trans (if_neg fun hsame => hid ((hnew id).mp hsame))
      · have hne : between ≠ σ'.frames.size := h.next ▸ (ne_of_hollow hbetween _).symm
        exact ⟨(Store.bindings_newChild_eq ..).trans (if_neg hne),
          (Store.parent?_newChild ..).trans (if_neg hne)⟩
  · rw [Store.size_newChild, Store.size_newChild, Nat.add_assoc, Nat.add_assoc]
    exact h.frames (1 + k)

theorem dropFrame (h : ρ.Image σ σ') (id : FrameId) :
    ρ.Image (σ.dropFrame id) (σ'.dropFrame (ρ.frame id)) := by
  refine ⟨h.cells, fun other => ?_, fun other => ?_, fun other => ?_, fun k => ?_, h.identities,
    h.kept⟩
  · rw [Store.isAlive_dropFrame, Store.isAlive_dropFrame, h.alive]
    simp only [ρ.frame_injective.eq_iff]
  · rw [Store.bindings_dropFrame, Store.bindings_dropFrame, h.bindings]
    simp only [ρ.frame_injective.eq_iff]
    split <;> rfl
  · rw [Store.parent?_dropFrame]
    by_cases hid : id = other
    · rw [if_pos hid, hid]
      exact Or.inl ((Store.parent?_dropFrame ..).trans (if_pos rfl))
    · rw [if_neg hid]
      refine above_congr (h.parents other) ?_ fun between hbetween => ?_
      · exact (Store.parent?_dropFrame ..).trans
          (if_neg fun hsame => hid (ρ.frame_injective hsame))
      · have hne := ne_of_hollow hbetween id
        exact ⟨(Store.bindings_dropFrame ..).trans (if_neg hne),
          (Store.parent?_dropFrame ..).trans (if_neg hne)⟩
  · rw [Store.size_dropFrame, Store.size_dropFrame]
    exact h.frames k

theorem addCell (h : ρ.Image σ σ') (cell : Cell) :
    ρ.Image (σ.addCell cell).2 (σ'.addCell (ρ.cell cell)).2 := by
  refine { h with cells := ?_ }
  change σ'.cells.push (ρ.cell cell) = (σ.cells.push cell).map ρ.cell
  rw [Array.map_push, h.cells]

theorem newArray (h : ρ.Image σ σ') (items : Array Value) :
    (σ'.newArray (items.map ρ.value)).1 = ρ.value (σ.newArray items).1 ∧
      ρ.Image (σ.newArray items).2 (σ'.newArray (items.map ρ.value)).2 := by
  refine ⟨?_, h.addCell (.array items)⟩
  change Value.array σ'.cells.size = .array σ.cells.size
  rw [h.cells, Array.size_map]

theorem newStruct (h : ρ.Image σ σ') (fields : Entries Value) :
    (σ'.newStruct (fields.mapValues ρ.value)).1 = ρ.value (σ.newStruct fields).1 ∧
      ρ.Image (σ.newStruct fields).2 (σ'.newStruct (fields.mapValues ρ.value)).2 := by
  refine ⟨?_, h.addCell (.struct fields)⟩
  change Value.struct σ'.cells.size = .struct σ.cells.size
  rw [h.cells, Array.size_map]

theorem modifyCell (h : ρ.Image σ σ') (c : CellId) {f g : Cell → Cell}
    (hfg : ∀ cell, g (ρ.cell cell) = ρ.cell (f cell)) :
    ρ.Image { σ with cells := σ.cells.modify c f } { σ' with cells := σ'.cells.modify c g } := by
  refine { h with cells := ?_ }
  change σ'.cells.modify c g = (σ.cells.modify c f).map ρ.cell
  rw [h.cells]
  ext i hi hi' : 1
  · simp
  · simp only [Array.getElem_modify, Array.getElem_map]
    split
    · exact hfg _
    · rfl

theorem setItem (h : ρ.Image σ σ') (c : CellId) (i : Nat) (v : Value) :
    ρ.Image (σ.setItem c i v) (σ'.setItem c i (ρ.value v)) := by
  refine h.modifyCell c fun cell => ?_
  cases cell with
  | array items =>
    change Cell.array ((items.map ρ.value).setIfInBounds i (ρ.value v)) =
      .array ((items.setIfInBounds i v).map ρ.value)
    rw [Array.map_setIfInBounds]
  | struct fields => rfl

theorem setField (h : ρ.Image σ σ') (c : CellId) (name : String) (v : Value) :
    ρ.Image (σ.setField c name v) (σ'.setField c name (ρ.value v)) := by
  refine h.modifyCell c fun cell => ?_
  cases cell with
  | array items => rfl
  | struct fields => exact congrArg Cell.struct (Entries.put_mapValues ρ.value name v fields)

theorem newIdentity (h : ρ.Image σ σ') : ρ.Image σ.newIdentity.2 σ'.newIdentity.2 := by
  refine { h with identities := fun k => ?_, kept := Nat.le_succ_of_le h.kept }
  change ρ.identity (σ.nextIdentity + 1 + k) = σ'.nextIdentity + 1 + k
  rw [Nat.add_assoc, Nat.add_assoc]
  exact h.identities (1 + k)

end Image

end Renaming

end ScriptEngine
