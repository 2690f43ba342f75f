import ScriptEngine.Proofs.Running.Code
import ScriptEngine.Proofs.Running.Frames

/-!
The part of the store that a run can get at, and what stays true of it. The part is closed: frames
lead to parents in it, values to cells in it, script functions to homes in it, and code to code that
may run. A frame in it binds only what it may. All that a run does to the store is put together from a
few changes, and each of them leaves this so.
-/
namespace ScriptEngine

def Cell.values : Cell → List Value
  | array items => items.toList
  | struct fields => fields.map Prod.snd

/-- What no assignment changes: how long an array is, and which fields a struct has, in their order. -/
def Cell.shape : Cell → Nat ⊕ List String
  | array items => .inl items.size
  | struct fields => .inr fields.names

def Value.isScalar : Value → Bool
  | null | boolean _ | integer _ | float _ | string _ => true
  | _ => false

/-- Frames, scopes among them in which code can run, cells, the values that code can come by, what a
frame may bind to a name, the code that may run in a scope, and the functions that may be called. What
is made from some point on belongs to it. -/
structure Realm where
  frames : FrameId → Prop
  scopes : FrameId → Prop
  cells : CellId → Prop
  data : Value → Prop
  bound : FrameId → String → Value → Prop
  code : FrameId → Code → Prop
  callable : Closure → Prop
  firstFrame : Nat
  firstCell : Nat
  firstIdentity : Nat
  scope_of_new : ∀ id, firstFrame ≤ id → scopes id
  frame_of_scope : ∀ id, scopes id → frames id
  cell_of_new : ∀ cell, firstCell ≤ cell → cells cell
  data_scalar : ∀ v, v.isScalar → data v
  data_array : ∀ cell, data (.array cell) ↔ cells cell
  data_struct : ∀ cell, data (.struct cell) ↔ cells cell
  bound_of_new : ∀ id name v, firstFrame ≤ id → data v → bound id name v
  bound_again : ∀ id name u v, bound id name u → data v → bound id name v
  data_of_bound : ∀ id name v, bound id name v → v.isCallable = false → data v
  callable_of_bound : ∀ id name f, frames id → bound id name (.function f) → callable f
  scope_of_callable : ∀ f, callable f → scopes f.home
  code_of_callable : ∀ f id, callable f → firstFrame ≤ id → code id (.stmts f.definition.body)
  scope_of_code : ∀ scope c, code scope c → scopes scope
  code_of_part : ∀ scope c part, code scope c → c.Part part → code scope part
  code_of_opens : ∀ scope c body id, code scope c → c.Opens body → firstFrame ≤ id →
    code id (.stmts body)
  bound_of_declare : ∀ scope name init span v, code scope (.stmt (.declare name init span)) →
    data v → bound scope name.text v
  bound_of_function : ∀ scope name params body span identity,
    code scope (.stmt (.function name params body span)) → firstIdentity ≤ identity →
      bound scope name.text (.function ⟨identity, ⟨name, params, body, span⟩, scope⟩)

namespace Store

/-- The arrays and structs that are there stay, with the shapes that they have. -/
def Retains (σ σ' : Store) : Prop :=
  ∀ (cell : CellId) (content : Cell), σ.cells[cell]? = some content →
    ∃ content', σ'.cells[cell]? = some content' ∧ content'.shape = content.shape

theorem Retains.of_cells {σ σ' : Store} (h : σ'.cells = σ.cells) : σ.Retains σ' :=
  fun _ content hcell => ⟨content, h ▸ hcell, rfl⟩

theorem Retains.refl (σ : Store) : σ.Retains σ := .of_cells rfl

theorem Retains.trans {σ σ' σ'' : Store} (h : σ.Retains σ') (h' : σ'.Retains σ'') :
    σ.Retains σ'' := by
  intro cell content hcell
  obtain ⟨content', hcell', hshape⟩ := h cell content hcell
  obtain ⟨content'', hcell'', hshape'⟩ := h' cell content' hcell'
  exact ⟨content'', hcell'', hshape'.trans hshape⟩

theorem Retains.size {σ σ' : Store} (h : σ.Retains σ') : σ.cells.size ≤ σ'.cells.size := by
  apply Nat.le_of_not_lt
  intro hlt
  obtain ⟨content, hcontent, -⟩ := h σ'.cells.size _ (Array.getElem?_eq_getElem hlt)
  exact absurd hcontent (by simp)

/-- The script functions that are bound have numbers that were given out. -/
def Numbered (σ : Store) : Prop :=
  ∀ id name f, (name, .function f) ∈ σ.bindings id → f.identity < σ.nextIdentity

end Store

namespace Realm

variable {R : Realm} {σ σ' σ'' : Store}

/-- So have the script functions that code can come by. -/
def Numbers (R : Realm) (σ : Store) : Prop :=
  ∀ f, R.data (.function f) → f.identity < σ.nextIdentity

structure Holds (R : Realm) (σ : Store) : Prop where
  bindings : ∀ id, R.frames id → ∀ entry ∈ σ.bindings id, R.bound id entry.1 entry.2
  parents : ∀ id parent, R.frames id → σ.parent? id = some parent → R.frames parent
  cells : ∀ cell content, R.cells cell → σ.cells[cell]? = some content →
    ∀ v ∈ content.values, R.data v
  frameSize : R.firstFrame ≤ σ.frames.size
  cellSize : R.firstCell ≤ σ.cells.size
  identitySize : R.firstIdentity ≤ σ.nextIdentity

/-- From `σ` a run in the realm can come to `σ'`. Whatever is outside the realm is as it was, no name
is lost, and one that is bound to a value that code can come by is bound to such a value. Arrays and
structs keep their shapes. -/
structure Onward (R : Realm) (σ σ' : Store) : Prop where
  holds : R.Holds σ'
  frames : σ.Extends σ'
  names : ∀ id, id < σ.frames.size → (σ.bindings id).Grows (σ'.bindings id)
  values : ∀ id name v, σ.getLocal? id name = some v → R.data v →
    ∃ v', σ'.getLocal? id name = some v' ∧ R.data v'
  identities : σ.nextIdentity ≤ σ'.nextIdentity
  numbered : R.Numbers σ → σ.Numbered → σ'.Numbered
  outside : ∀ id, ¬ R.frames id → σ'.frame? id = σ.frame? id
  cellsOutside : ∀ cell : CellId, ¬ R.cells cell → σ'.cells[cell]? = σ.cells[cell]?
  shapes : σ.Retains σ'

/-- And the frames that came after those of `σ` are gone. -/
structure Settled (R : Realm) (σ σ' : Store) : Prop extends R.Onward σ σ' where
  gone : ∀ id, σ.frames.size ≤ id → σ'.frame? id = none

/-! One after the other -/

theorem Onward.refl (h : R.Holds σ) : R.Onward σ σ :=
  ⟨h, .refl σ, fun _ _ => .refl _, fun _ _ v hv hdata => ⟨v, hv, hdata⟩, Nat.le_refl _,
    fun _ h => h, fun _ _ => rfl, fun _ _ => rfl, .refl σ⟩

theorem Onward.trans (h : R.Onward σ σ') (h' : R.Onward σ' σ'') : R.Onward σ σ'' := by
  refine ⟨h'.holds, h.frames.trans h'.frames, fun id hid => ?_, ?_,
    Nat.le_trans h.identities h'.identities, ?_, ?_, ?_, h.shapes.trans h'.shapes⟩
  · exact (h.names id hid).trans (h'.names id (Nat.lt_of_lt_of_le hid h.frames.size))
  · intro id name v hv hdata
    obtain ⟨v', hv', hdata'⟩ := h.values id name v hv hdata
    exact h'.values id name v' hv' hdata'
  · intro hR hσ
    refine h'.numbered (fun f hf => ?_) (h.numbered hR hσ)
    exact Nat.lt_of_lt_of_le (hR f hf) h.identities
  · intro id hid
    rw [h'.outside id hid, h.outside id hid]
  · intro cell hcell
    rw [h'.cellsOutside cell hcell, h.cellsOutside cell hcell]

theorem Settled.settles (h : R.Settled σ σ') : σ.Settles σ' := ⟨h.frames, h.gone⟩

theorem Settled.refl (h : R.Holds σ) : R.Settled σ σ :=
  ⟨.refl h, (Store.Settles.refl σ).gone⟩

theorem Settled.trans (h : R.Settled σ σ') (h' : R.Settled σ' σ'') : R.Settled σ σ'' :=
  ⟨h.toOnward.trans h'.toOnward, (h.settles.trans h'.settles).gone⟩

/-! Bindings -/

theorem bound_of_getLocal? (h : R.Holds σ) {id : FrameId} {name : String} {v : Value}
    (hid : R.frames id) (hv : σ.getLocal? id name = some v) : R.bound id name v :=
  h.bindings id hid (name, v) (Entries.mem_of_get? hv)

/-- A name that is there can be bound again. -/
theorem bound_of_hasLocal (h : R.Holds σ) {id : FrameId} {name : String} {v : Value}
    (hid : R.frames id) (hname : σ.hasLocal id name) (hv : R.data v) : R.bound id name v := by
  obtain ⟨u, hu⟩ := Option.isSome_iff_exists.mp hname
  exact R.bound_again id name u v (bound_of_getLocal? h hid hu) hv

theorem Onward.hasLocal (h : R.Onward σ σ') {id : FrameId} {name : String}
    (hname : σ.hasLocal id name) : σ'.hasLocal id name := by
  obtain ⟨u, hu⟩ := Option.isSome_iff_exists.mp hname
  have hid := Store.lt_size_of_isAlive (Store.isAlive_of_getLocal? hu)
  exact Entries.has_iff.mpr ((h.names id hid).mem (Entries.has_iff.mp hname))

/-- A name gets a value that it may have. What code cannot come by goes only to a name that was
free. -/
theorem settled_setLocal (h : R.Holds σ) {id : FrameId} {name : String} {v : Value}
    (hid : R.frames id) (hv : R.bound id name v)
    (hfree : R.data v ∨ σ.hasLocal id name = false)
    (hnumber : R.Numbers σ → ∀ f, v = .function f → f.identity < σ.nextIdentity) :
    R.Settled σ (σ.setLocal id name v) := by
  have hframes : σ.Settles (σ.setLocal id name v) := σ.settles_modifyFrame id fun _ => rfl
  have holds : R.Holds (σ.setLocal id name v) := by
    refine ⟨?_, ?_, h.cells, Nat.le_trans h.frameSize hframes.size, h.cellSize, h.identitySize⟩
    · intro other hother entry hentry
      rcases Store.mem_bindings_setLocal hentry with ⟨rfl, rfl⟩ | hentry
      · exact hv
      · exact h.bindings other hother entry hentry
    · intro other parent hother hparent
      rw [Store.parent?_setLocal] at hparent
      exact h.parents other parent hother hparent
  refine ⟨⟨holds, hframes.toExtends, fun other _ => σ.grows_setLocal id other name v, ?_,
    Nat.le_refl _, ?_, ?_, fun _ _ => rfl, .of_cells rfl⟩, hframes.gone⟩
  · intro other name' v' hv' hdata
    by_cases halive : σ.isAlive id
    · rw [Store.getLocal?_setLocal halive]
      by_cases hsame : id = other ∧ name' = name
      · obtain ⟨rfl, rfl⟩ := hsame
        refine ⟨v, by simp, ?_⟩
        rcases hfree with hfree | hfree
        · exact hfree
        · rw [Store.hasLocal, Entries.has, ← Store.getLocal?, hv'] at hfree
          exact absurd hfree (by simp)
      · rw [if_neg hsame]
        exact ⟨v', hv', hdata⟩
    · have hother : id ≠ other := by
        rintro rfl
        exact halive (Store.isAlive_of_getLocal? hv')
      rw [Store.getLocal?, Store.bindings_setLocal_of_ne hother]
      exact ⟨v', hv', hdata⟩
  · intro hR hσ other name' f hf
    rcases Store.mem_bindings_setLocal hf with ⟨_, heq⟩ | hf
    · exact hnumber hR f (congrArg Prod.snd heq).symm
    · exact hσ other name' f hf
  · intro other hother
    have hne : id ≠ other := by
      rintro rfl
      exact hother hid
    unfold Store.setLocal
    rw [Store.frame?_modifyFrame, if_neg hne]

theorem settled_setLocal_data (h : R.Holds σ) {id : FrameId} {name : String} {v : Value}
    (hid : R.frames id) (hbound : R.bound id name v) (hv : R.data v) :
    R.Settled σ (σ.setLocal id name v) := by
  refine settled_setLocal h hid hbound (Or.inl hv) ?_
  rintro hR f rfl
  exact hR f hv

/-! Cells and numbers -/

theorem settled_cells (h : R.Holds σ) {cells : Array Cell}
    (hcells : ∀ cell content, R.cells cell → cells[cell]? = some content →
      ∀ v ∈ content.values, R.data v)
    (houtside : ∀ cell : CellId, ¬ R.cells cell → cells[cell]? = σ.cells[cell]?)
    (hshapes : σ.Retains { σ with cells := cells }) :
    R.Settled σ { σ with cells := cells } := by
  have holds : R.Holds { σ with cells := cells } :=
    ⟨h.bindings, h.parents, hcells, h.frameSize, Nat.le_trans h.cellSize hshapes.size, h.identitySize⟩
  exact ⟨⟨holds, ⟨Nat.le_refl _, fun _ _ => rfl⟩, fun _ _ => .refl _,
    fun _ _ v hv hdata => ⟨v, hv, hdata⟩, Nat.le_refl _, fun _ h => h, fun _ _ => rfl, houtside,
    hshapes⟩, (Store.Settles.refl σ).gone⟩

theorem settled_addCell (h : R.Holds σ) (cell : Cell) (hcell : ∀ v ∈ cell.values, R.data v) :
    R.cells (σ.addCell cell).1 ∧ R.Settled σ (σ.addCell cell).2 := by
  have hnew : R.cells σ.cells.size := R.cell_of_new _ h.cellSize
  refine ⟨hnew, settled_cells h ?_ (fun other hother => ?_) fun other content hcontent => ?_⟩
  · intro other content hother hcontent
    rw [Array.getElem?_push] at hcontent
    split at hcontent
    · obtain rfl := Option.some.inj hcontent
      exact hcell
    · exact h.cells other content hother hcontent
  · have hne : other ≠ σ.cells.size := by
      rintro rfl
      exact hother hnew
    rw [Array.getElem?_push, if_neg hne]
  · obtain ⟨hlt, -⟩ := Array.getElem?_eq_some_iff.mp hcontent
    exact ⟨content, by rw [← hcontent, Array.getElem?_push, if_neg (Nat.ne_of_lt hlt)], rfl⟩

theorem settled_newArray (h : R.Holds σ) {items : Array Value}
    (hitems : ∀ v ∈ items.toList, R.data v) :
    R.data (σ.newArray items).1 ∧ R.Settled σ (σ.newArray items).2 := by
  obtain ⟨hcell, hstore⟩ := settled_addCell h (.array items) hitems
  exact ⟨(R.data_array _).mpr hcell, hstore⟩

theorem settled_newStruct (h : R.Holds σ) {fields : Entries Value}
    (hfields : ∀ entry ∈ fields, R.data entry.2) :
    R.data (σ.newStruct fields).1 ∧ R.Settled σ (σ.newStruct fields).2 := by
  obtain ⟨hcell, hstore⟩ := settled_addCell h (.struct fields) fun v hv => by
    obtain ⟨entry, hentry, rfl⟩ := List.mem_map.mp hv
    exact hfields entry hentry
  exact ⟨(R.data_struct _).mpr hcell, hstore⟩

theorem settled_modifyCell (h : R.Holds σ) {cell : CellId} (hcell : R.cells cell) {f : Cell → Cell}
    (hf : ∀ content, (∀ v ∈ content.values, R.data v) → ∀ v ∈ (f content).values, R.data v)
    (hshape : ∀ content, σ.cells[cell]? = some content → (f content).shape = content.shape) :
    R.Settled σ { σ with cells := σ.cells.modify cell f } := by
  refine settled_cells h ?_ (fun other hother => ?_) fun other content hcontent => ?_
  · intro other content hother hcontent
    rw [Array.getElem?_modify] at hcontent
    split at hcontent
    · obtain ⟨old, hold, rfl⟩ := Option.map_eq_some_iff.mp hcontent
      exact hf old (h.cells other old hother hold)
    · exact h.cells other content hother hcontent
  · have hne : cell ≠ other := by
      rintro rfl
      exact hother hcell
    rw [Array.getElem?_modify, if_neg hne]
  · rw [Array.getElem?_modify]
    by_cases hsame : cell = other
    · subst hsame
      rw [if_pos rfl, hcontent]
      exact ⟨f content, rfl, hshape content hcontent⟩
    · rw [if_neg hsame]
      exact ⟨content, hcontent, rfl⟩

theorem settled_setItem (h : R.Holds σ) {cell : CellId} (hcell : R.cells cell) (i : Nat) {v : Value}
    (hv : R.data v) : R.Settled σ (σ.setItem cell i v) := by
  apply settled_modifyCell h hcell
  · intro content hcontent w hw
    cases content with
    | array items =>
      rcases Array.mem_or_eq_of_mem_setIfInBounds (Array.mem_def.mpr hw) with hw | rfl
      · exact hcontent w (Array.mem_def.mp hw)
      · exact hv
    | struct fields => exact hcontent w hw
  · intro content _
    cases content with
    | array items => exact congrArg Sum.inl Array.size_setIfInBounds
    | struct fields => rfl

/-- A field that is there gets a value. -/
theorem settled_setField (h : R.Holds σ) {cell : CellId} (hcell : R.cells cell) {name : String}
    (hname : (σ.fields cell).has name) {v : Value} (hv : R.data v) :
    R.Settled σ (σ.setField cell name v) := by
  apply settled_modifyCell h hcell
  · intro content hcontent w hw
    cases content with
    | array items => exact hcontent w hw
    | struct fields =>
      obtain ⟨entry, hentry, rfl⟩ := List.mem_map.mp hw
      rcases Entries.mem_put hentry with rfl | hentry
      · exact hv
      · exact hcontent entry.2 (List.mem_map.mpr ⟨entry, hentry, rfl⟩)
  · intro content hcontent
    cases content with
    | array items => rfl
    | struct fields =>
      have hmem := Entries.has_iff.mp hname
      rw [Store.fields, hcontent] at hmem
      exact congrArg Sum.inr ((Entries.names_put name v fields).trans (if_pos hmem))

theorem data_items (h : R.Holds σ) {cell : CellId} (hcell : R.cells cell) :
    ∀ v ∈ (σ.items cell).toList, R.data v := by
  unfold Store.items
  split
  · rename_i items hitems
    exact h.cells cell _ hcell hitems
  · simp

theorem data_fields (h : R.Holds σ) {cell : CellId} (hcell : R.cells cell) :
    ∀ entry ∈ σ.fields cell, R.data entry.2 := by
  unfold Store.fields
  split
  · rename_i fields hfields
    intro entry hentry
    exact h.cells cell _ hcell hfields entry.2 (List.mem_map.mpr ⟨entry, hentry, rfl⟩)
  · simp

theorem settled_newIdentity (h : R.Holds σ) : R.Settled σ σ.newIdentity.2 := by
  have holds : R.Holds σ.newIdentity.2 :=
    ⟨h.bindings, h.parents, h.cells, h.frameSize, h.cellSize, Nat.le_succ_of_le h.identitySize⟩
  refine ⟨⟨holds, ⟨Nat.le_refl _, fun _ _ => rfl⟩, fun _ _ => .refl _,
    fun _ _ v hv hdata => ⟨v, hv, hdata⟩, Nat.le_succ _, fun _ hσ => ?_, fun _ _ => rfl,
    fun _ _ => rfl, .of_cells rfl⟩, (Store.Settles.refl σ).gone⟩
  intro id name f hf
  exact Nat.lt_succ_of_lt (hσ id name f hf)

/-! New frames -/

theorem holds_newChild (h : R.Holds σ) {parent : FrameId} (hparent : R.frames parent) :
    R.Holds (σ.newChild parent).2 := by
  refine ⟨?_, ?_, h.cells, ?_, h.cellSize, h.identitySize⟩
  · intro id hid entry hentry
    exact h.bindings id hid entry (Store.mem_bindings_newChild hentry)
  · intro id above hid habove
    unfold Store.parent? at habove
    by_cases hnew : id = σ.frames.size
    · rw [hnew, Store.frame?_newChild_self] at habove
      obtain rfl := Option.some.inj habove
      exact hparent
    · rw [Store.frame?_newChild hnew] at habove
      exact h.parents id above hid habove
  · exact Nat.le_trans h.frameSize (σ.extends_newChild parent).size

theorem holds_dropFrame (h : R.Holds σ) (id : FrameId) : R.Holds (σ.dropFrame id) := by
  refine ⟨?_, ?_, h.cells, ?_, h.cellSize, h.identitySize⟩
  · intro other hother entry hentry
    exact h.bindings other hother entry (Store.mem_bindings_dropFrame hentry)
  · intro other above hother habove
    unfold Store.parent? at habove
    rw [Store.frame?_dropFrame] at habove
    split at habove
    · exact absurd habove (by simp)
    · exact h.parents other above hother habove
  · simpa [Store.dropFrame] using h.frameSize

theorem onward_newChild (h : R.Holds σ) {parent : FrameId} (hparent : R.frames parent) :
    R.scopes σ.frames.size ∧ R.Onward σ (σ.newChild parent).2 := by
  have hscope : R.scopes σ.frames.size := R.scope_of_new _ h.frameSize
  refine ⟨hscope, holds_newChild h hparent, σ.extends_newChild parent, fun id hid => ?_, ?_,
    Nat.le_refl _, ?_, ?_, fun _ _ => rfl, .of_cells rfl⟩
  · rw [Store.bindings_newChild (Nat.ne_of_lt hid)]
    exact .refl _
  · intro id name v hv hdata
    have hid := Store.lt_size_of_isAlive (Store.isAlive_of_getLocal? hv)
    refine ⟨v, ?_, hdata⟩
    rw [Store.getLocal?_congr (Store.frame?_newChild (Nat.ne_of_lt hid) parent)]
    exact hv
  · intro _ hσ id name f hf
    exact hσ id name f (Store.mem_bindings_newChild hf)
  · intro id hid
    have hold : id ≠ σ.frames.size := by
      rintro rfl
      exact hid (R.frame_of_scope _ hscope)
    exact Store.frame?_newChild hold parent

/-- A frame that was made for a part of a script is gone after it. -/
theorem settled_dropFrame {parent : FrameId} (h : R.Holds σ) (hparent : R.frames parent)
    (hrest : R.Settled (σ.newChild parent).2 σ') :
    R.Settled σ (σ'.dropFrame σ.frames.size) := by
  obtain ⟨hscope, hchild⟩ := onward_newChild h hparent
  have hway := hchild.trans hrest.toOnward
  have hframes := hrest.settles.dropFrame
  have hdropped : ∀ id, id ≠ σ.frames.size →
      (σ'.dropFrame σ.frames.size).frame? id = σ'.frame? id := by
    intro id hid
    rw [Store.frame?_dropFrame, if_neg (Ne.symm hid)]
  refine ⟨⟨holds_dropFrame hway.holds _, hframes.toExtends, fun id hid => ?_, ?_, hway.identities,
    ?_, ?_, hway.cellsOutside, hway.shapes⟩, hframes.gone⟩
  · rw [Store.bindings_dropFrame, if_neg (Nat.ne_of_gt hid)]
    exact hway.names id hid
  · intro id name v hv hdata
    have hid := Store.lt_size_of_isAlive (Store.isAlive_of_getLocal? hv)
    obtain ⟨v', hv', hdata'⟩ := hway.values id name v hv hdata
    refine ⟨v', ?_, hdata'⟩
    rw [Store.getLocal?_congr (hdropped id (Nat.ne_of_lt hid))]
    exact hv'
  · intro hR hσ id name f hf
    exact hway.numbered hR hσ id name f (Store.mem_bindings_dropFrame hf)
  · intro id hid
    have hne : id ≠ σ.frames.size := by
      rintro rfl
      exact hid (R.frame_of_scope _ hscope)
    rw [hdropped id hne, hway.outside id hid]

/-! The largest realm -/

/-- All frames, all cells, all values and all code. -/
def whole : Realm where
  frames := fun _ => True
  scopes := fun _ => True
  cells := fun _ => True
  data := fun _ => True
  bound := fun _ _ _ => True
  code := fun _ _ => True
  callable := fun _ => True
  firstFrame := 0
  firstCell := 0
  firstIdentity := 0
  scope_of_new := fun _ _ => trivial
  frame_of_scope := fun _ _ => trivial
  cell_of_new := fun _ _ => trivial
  data_scalar := fun _ _ => trivial
  data_array := fun _ => Iff.rfl
  data_struct := fun _ => Iff.rfl
  bound_of_new := fun _ _ _ _ _ => trivial
  bound_again := fun _ _ _ _ _ _ => trivial
  data_of_bound := fun _ _ _ _ _ => trivial
  callable_of_bound := fun _ _ _ _ _ => trivial
  scope_of_callable := fun _ _ => trivial
  code_of_callable := fun _ _ _ _ => trivial
  scope_of_code := fun _ _ _ => trivial
  code_of_part := fun _ _ _ _ _ => trivial
  code_of_opens := fun _ _ _ _ _ _ _ => trivial
  bound_of_declare := fun _ _ _ _ _ _ _ => trivial
  bound_of_function := fun _ _ _ _ _ _ _ _ => trivial

theorem whole_holds (σ : Store) : whole.Holds σ :=
  ⟨fun _ _ _ _ => trivial, fun _ _ _ _ => trivial, fun _ _ _ _ _ _ => trivial, Nat.zero_le _,
    Nat.zero_le _, Nat.zero_le _⟩

end Realm

end ScriptEngine
