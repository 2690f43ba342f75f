import ScriptEngine.Proofs.Running.Mirroring
import ScriptEngine.Proofs.Running.Rest

/-!
A program inside a handler. What the program declares comes into a frame of the handler instead of the
bindings of the run. As long as the program calls no function that was declared in the bindings before,
the run is the same under other numbers: it ends in the same way, except that a throw is caught, and it
leaves the same machine, except that nothing is bound in the bindings.
-/
namespace ScriptEngine

namespace Store

/-- Nothing is bound in the frame, and the number of another frame is used up. -/
def vacate (σ : Store) (id : FrameId) : Store :=
  let σ := σ.modifyFrame id fun frame => { frame with bindings := [] }
  { σ with frames := σ.frames.push none }

theorem frame?_vacate (σ : Store) (id other : FrameId) :
    (σ.vacate id).frame? other =
      if id = other then (σ.frame? other).map fun frame => { frame with bindings := [] }
      else σ.frame? other := by
  rw [← frame?_modifyFrame]
  unfold vacate
  generalize σ.modifyFrame id _ = τ
  unfold frame?
  rw [Array.getElem?_push]
  split
  · rename_i hother
    rw [hother, Array.getElem?_eq_none (Nat.le_refl _)]
    rfl
  · rfl

theorem size_vacate (σ : Store) (id : FrameId) : (σ.vacate id).frames.size = σ.frames.size + 1 := by
  unfold vacate
  rw [Array.size_push]
  exact congrArg (· + 1) (Array.size_modify ..)

theorem bindings_vacate (σ : Store) (id other : FrameId) :
    (σ.vacate id).bindings other = if id = other then [] else σ.bindings other := by
  unfold bindings
  rw [frame?_vacate]
  by_cases h : id = other
  · rw [if_pos h, if_pos h]
    cases σ.frame? other <;> rfl
  · rw [if_neg h, if_neg h]

theorem links_vacate (σ : Store) (id other : FrameId) :
    ((σ.vacate id).frame? other).map Frame.links = (σ.frame? other).map Frame.links := by
  rw [frame?_vacate]
  split
  · rw [Option.map_map]
    rfl
  · rfl

theorem vacate_relink (σ : Store) (id other : FrameId) (parent : Option FrameId) :
    (σ.vacate id).relink other parent = (σ.relink other parent).vacate id := by
  refine ext_frame? ?_ (fun frame => ?_) rfl rfl
  · unfold relink modifyFrame
    rw [Array.size_modify, size_vacate, size_vacate]
    exact congrArg (· + 1) (Array.size_modify ..).symm
  · unfold relink
    rw [frame?_modifyFrame, frame?_vacate, frame?_vacate, frame?_modifyFrame]
    by_cases hid : id = frame
    · by_cases hother : other = frame
      · rw [if_pos hid, if_pos hid, if_pos hother, if_pos hother, Option.map_map, Option.map_map]
        rfl
      · rw [if_pos hid, if_pos hid, if_neg hother, if_neg hother]
    · rw [if_neg hid, if_neg hid]

theorem vacate_dropFrame (σ : Store) (id other : FrameId) :
    (σ.vacate id).dropFrame other = (σ.dropFrame other).vacate id := by
  refine ext_frame? ?_ (fun frame => ?_) rfl rfl
  · rw [size_dropFrame, size_vacate, size_vacate, size_dropFrame]
  · rw [frame?_dropFrame, frame?_vacate, frame?_vacate, frame?_dropFrame]
    by_cases hother : other = frame
    · rw [if_pos hother, if_pos hother]
      exact (ite_self _).symm
    · rw [if_neg hother, if_neg hother]

end Store

theorem Layers.vacate_restore (σ : Store) (id : FrameId) (parents : List (FrameId × Option FrameId)) :
    restore parents (σ.vacate id) = (restore parents σ).vacate id := by
  induction parents with
  | nil => rfl
  | cons first rest ih =>
    change (restore rest (σ.vacate id)).relink first.1 first.2 =
      ((restore rest σ).relink first.1 first.2).vacate id
    rw [ih, Store.vacate_relink]

theorem Machine.vacate_unlink (m : Machine) (layers : Layers) (σ : Store) (id : FrameId) :
    m.unlink layers (σ.vacate id) = (m.unlink layers σ).vacate id := by
  unfold Machine.unlink
  rw [Layers.vacate_restore, Store.vacate_dropFrame]

/-- Nothing is bound in the bindings, and no frame lies below them. -/
structure Layers.Vacant (layers : Layers) (σ : Store) : Prop where
  alive : layers.Alive σ
  empty : σ.bindings layers.bindings = []
  childless : ∀ id, σ.parent? id ≠ some layers.bindings

namespace Machine

variable {m : Machine} {layers : Layers}

/-- The machine with nothing in the bindings of the run. -/
def vacate (layers : Layers) (m : Machine) : Machine :=
  { m with store := m.store.vacate layers.bindings }

/-- From the run of a program to the run of the program inside a handler: the frame of the handler
comes after that of the standard functions, and is there for the bindings. -/
def wrapping (layers : Layers) (m : Machine) (hlt : layers.bindings < m.store.frames.size + 1) :
    Renaming where
  frame := frameAgain layers.bindings (m.store.frames.size + 1)
  identity := id
  place := id
  kept := m.store.nextIdentity
  hollow := (· = layers.bindings)
  frame_injective := frameAgain_injective _ _
  identity_injective := Function.injective_id
  not_hollow := frameAgain_ne_old hlt

end Machine

namespace Layers.Vacant

variable {m : Machine} {layers : Layers} (h : layers.Vacant m.store)

include h

theorem lt_size : layers.bindings < m.store.frames.size := Store.lt_size_of_isAlive h.alive.bindings

def wrapping : Renaming := Machine.wrapping layers m (Nat.lt_succ_of_lt h.lt_size)

theorem frame_wrapping_bindings : h.wrapping.frame layers.bindings = m.store.frames.size + 1 :=
  frameAgain_self _ _

theorem frame_wrapping {id : FrameId} (hid : id ≠ layers.bindings) (hle : id ≤ m.store.frames.size) :
    h.wrapping.frame id = id :=
  frameAgain_of_lt hid (Nat.lt_succ_of_le hle)

theorem frame_wrapping_new {id : FrameId} (hid : m.store.frames.size + 1 ≤ id) :
    h.wrapping.frame id = id + 1 :=
  frameAgain_of_le (Nat.lt_succ_of_lt h.lt_size) hid

theorem frame_wrapping_cases (id : FrameId) :
    id = layers.bindings ∧ h.wrapping.frame id = m.store.frames.size + 1 ∨
      id ≠ layers.bindings ∧ id ≤ m.store.frames.size ∧ h.wrapping.frame id = id ∨
        m.store.frames.size + 1 ≤ id ∧ h.wrapping.frame id = id + 1 := by
  by_cases hid : id = layers.bindings
  · exact Or.inl ⟨hid, hid ▸ h.frame_wrapping_bindings⟩
  · rcases Nat.lt_or_ge id (m.store.frames.size + 1) with hlt | hle
    · have hle := Nat.le_of_lt_succ hlt
      exact Or.inr (Or.inl ⟨hid, hle, h.frame_wrapping hid hle⟩)
    · exact Or.inr (Or.inr ⟨hle, h.frame_wrapping_new hle⟩)

/-- Functions from before the run, and those that were not declared in the bindings, are the same on
both sides. -/
theorem value_wrapping {v : Value} (hv : ∀ f, v = .function f → f.identity < m.store.nextIdentity ∨
    f.home ≠ layers.bindings ∧ f.home ≤ m.store.frames.size) : h.wrapping.value v = v := by
  refine Renaming.value_eq_self rfl rfl fun f hf => ?_
  unfold Renaming.home
  rcases hv f hf with hold | ⟨hhome, hle⟩
  · exact if_pos hold
  · rw [h.frame_wrapping hhome hle, ite_self]

theorem value_wrapping_of_predates {v : Value} (hv : v.Predates m.store) :
    h.wrapping.value v = v := by
  refine h.value_wrapping fun f hf => Or.inl ?_
  subst hf
  exact hv.1

theorem parent?_begin_bindings : ∃ parent, (m.begin layers).2.store.parent? layers.bindings =
    some parent ∧ parent ≠ layers.bindings ∧ parent ≤ m.store.frames.size := by
  refine ⟨layers.upper?.getD m.store.frames.size, ?_, ?_⟩
  · rw [Machine.parent?_begin_eq h.alive]
    exact if_pos rfl
  · cases hupper : layers.upper? with
    | none => exact ⟨Nat.ne_of_gt h.lt_size, Nat.le_refl _⟩
    | some upper =>
      have hlt := Store.lt_size_of_isAlive (h.alive.upper upper hupper)
      exact ⟨upper?_ne hupper, Nat.le_of_lt hlt⟩

/-- No frame lies below the bindings when the run begins. -/
theorem parent?_begin_ne {id parent : FrameId} (hrested : m.store.Rested)
    (hparent : (m.begin layers).2.store.parent? id = some parent) :
    parent ≠ layers.bindings ∧ parent ≤ m.store.frames.size := by
  rcases Machine.parent?_begin hparent with rfl | hupper | ⟨-, -, hold⟩
  · exact ⟨Nat.ne_of_gt h.lt_size, Nat.le_refl _⟩
  · have hlt := Store.lt_size_of_isAlive (h.alive.upper parent hupper)
    exact ⟨upper?_ne hupper, Nat.le_of_lt hlt⟩
  · refine ⟨?_, Nat.le_of_lt (hrested.parents id parent hold)⟩
    rintro rfl
    exact h.childless id hold

theorem isAlive_wrapping (id : FrameId) :
    ((m.begin layers).2.below layers.bindings).store.isAlive (h.wrapping.frame id) =
      (m.begin layers).2.store.isAlive id := by
  refine (Store.isAlive_newChild ..).trans ?_
  rw [Machine.size_begin]
  rcases h.frame_wrapping_cases id with ⟨rfl, hframe⟩ | ⟨-, hle, hframe⟩ | ⟨hle, hframe⟩
  · rw [hframe, if_pos rfl, Machine.isAlive_begin, if_neg (Nat.ne_of_lt h.lt_size)]
    exact h.alive.bindings.symm
  · rw [hframe, if_neg (Nat.ne_of_lt (Nat.lt_succ_of_le hle))]
  · rw [hframe, if_neg (Nat.ne_of_gt (Nat.lt_succ_of_le hle)), Store.isAlive, Store.isAlive,
      Machine.frame?_begin_new hle, Machine.frame?_begin_new (Nat.le_succ_of_le hle)]

theorem bindings_begin_bindings : (m.begin layers).2.store.bindings layers.bindings = [] :=
  (Machine.bindings_begin layers (Nat.ne_of_lt h.lt_size)).trans h.empty

theorem bindings_wrapping (hrested : m.store.Rested) (id : FrameId) :
    ((m.begin layers).2.below layers.bindings).store.bindings (h.wrapping.frame id) =
      ((m.begin layers).2.store.bindings id).mapValues h.wrapping.value := by
  have hsize := Machine.size_begin layers m
  refine (Store.bindings_newChild_eq ..).trans ?_
  rw [hsize]
  rcases h.frame_wrapping_cases id with ⟨rfl, hframe⟩ | ⟨hid, hle, hframe⟩ | ⟨hle, hframe⟩
  · rw [hframe, if_pos rfl, h.bindings_begin_bindings]
    rfl
  · rw [hframe, if_neg (Nat.ne_of_lt (Nat.lt_succ_of_le hle))]
    refine (Entries.mapValues_eq_self fun entry hentry => h.value_wrapping fun f hf => ?_).symm
    rcases Machine.mem_bindings_begin hentry with hold | ⟨g, hg⟩
    · have hpredates := hrested.bindings id entry hold
      rw [hf] at hpredates
      exact Or.inl hpredates.1
    · exact absurd (hf.symm.trans hg) (by simp)
  · rw [hframe, if_neg (Nat.ne_of_gt (Nat.lt_succ_of_le hle)),
      Store.bindings_eq_nil (hsize ▸ Nat.le_succ_of_le hle), Store.bindings_eq_nil (hsize ▸ hle)]
    rfl

/-- The parents are the same, but for the frame of the handler, which lies below the bindings. -/
theorem above_wrapping (hrested : m.store.Rested) (id : FrameId) :
    h.wrapping.Above ((m.begin layers).2.below layers.bindings).store (h.wrapping.frame id)
      (((m.begin layers).2.store.parent? id).map h.wrapping.frame) := by
  have hsize := Machine.size_begin layers m
  have hparents : ((m.begin layers).2.store.parent? id).map h.wrapping.frame =
      (m.begin layers).2.store.parent? id := by
    cases hparent : (m.begin layers).2.store.parent? id with
    | none => rfl
    | some parent =>
      obtain ⟨hne, hle⟩ := h.parent?_begin_ne hrested hparent
      exact congrArg some (h.frame_wrapping hne hle)
  have hbelow : ∀ other, other ≠ m.store.frames.size + 1 →
      ((m.begin layers).2.below layers.bindings).store.parent? other =
        (m.begin layers).2.store.parent? other := fun other hother =>
    (Store.parent?_newChild ..).trans (if_neg (hsize ▸ hother))
  rw [hparents]
  rcases h.frame_wrapping_cases id with ⟨rfl, hframe⟩ | ⟨hid, hle, hframe⟩ | ⟨hle, hframe⟩
  · rw [hframe]
    have hlt : layers.bindings ≠ m.store.frames.size + 1 :=
      Nat.ne_of_lt (Nat.lt_succ_of_lt h.lt_size)
    refine Or.inr ⟨layers.bindings, rfl, ?_, ?_, hbelow _ hlt⟩
    · exact (Store.parent?_newChild ..).trans (if_pos hsize.symm)
    · refine (Store.bindings_newChild_eq ..).trans ((if_neg (hsize ▸ hlt)).trans ?_)
      exact h.bindings_begin_bindings
  · rw [hframe]
    exact Or.inl (hbelow id (Nat.ne_of_lt (Nat.lt_succ_of_le hle)))
  · have hgone : ∀ {other}, m.store.frames.size + 1 ≤ other →
        (m.begin layers).2.store.parent? other = none := by
      intro other hother
      unfold Store.parent?
      rw [Machine.frame?_begin_new hother]
      rfl
    rw [hframe, hgone hle]
    exact Or.inl ((hbelow _ (Nat.ne_of_gt (Nat.lt_succ_of_le hle))).trans
      (hgone (Nat.le_succ_of_le hle)))

/-- The machine in the frame of the handler is the one on which the program begins, with other
numbers. -/
theorem image_wrapping (hrested : m.store.Rested) :
    h.wrapping.Image (m.begin layers).2.store ((m.begin layers).2.below layers.bindings).store := by
  refine ⟨?_, h.isAlive_wrapping, h.bindings_wrapping hrested, h.above_wrapping hrested,
    fun k => ?_, fun k => rfl, Machine.nextIdentity_le_begin layers m⟩
  · change (m.begin layers).2.store.cells = (m.begin layers).2.store.cells.map h.wrapping.cell
    rw [Machine.cells_begin]
    refine (Renaming.cells_eq_self fun cell content hcell v hv => ?_).symm
    exact h.value_wrapping_of_predates (hrested.cells cell content hcell v hv)
  · have hsize := Machine.size_begin layers m
    have hbelow : ((m.begin layers).2.below layers.bindings).store.frames.size =
        m.store.frames.size + 1 + 1 := (Store.size_newChild ..).trans (congrArg (· + 1) hsize)
    rw [hsize, hbelow, h.frame_wrapping_new (Nat.le_add_right _ k)]
    exact Nat.add_right_comm _ k 1

/-- The program calls no function that was declared in the bindings before the run. -/
theorem suits_wrapping (hrested : m.store.Rested) {limit : Nat} {program : Program}
    (hcalls : ∀ f arguments place n,
      (m.outset layers program).Reaches limit ⟨.call f arguments place, n⟩ →
        f.home = layers.bindings → m.store.nextIdentity ≤ f.identity) :
    h.wrapping.Suits limit ((m.outset layers program).Reaches limit) := by
  refine ⟨Moment.inward_reaches limit _, fun f arguments place n hreaches => ?_⟩
  unfold Renaming.home
  by_cases hold : f.identity < h.wrapping.kept
  · rw [if_pos hold]
    have hcallable := (reaches_keeps hreaches (Machine.runRealm_holds hrested layers)
      (Machine.bindings_ne_top h.alive)).2.1
    have hhome : f.home < m.store.frames.size := by
      rcases hcallable with hpredates | ⟨-, hnew⟩
      · exact hpredates.2
      · exact absurd (Nat.lt_of_le_of_lt hnew hold) (Nat.not_lt_of_le (Nat.le_add_right _ _))
    refine (h.frame_wrapping ?_ (Nat.le_of_lt hhome)).symm
    intro hbindings
    exact absurd hold (Nat.not_lt_of_le (hcalls f arguments place n hreaches hbindings))
  · exact if_neg hold

/-- What the program binds outside of the bindings is bound to the same inside the handler. -/
theorem value_wrapping_of_bound {σ : Store} (hσ : m.Ran layers σ) {id : FrameId}
    (hid : id ≠ layers.bindings) {entry : String × Value} (hentry : entry ∈ σ.bindings id) :
    h.wrapping.value entry.2 = entry.2 := by
  rcases hσ.settled.holds.bindings id trivial entry hentry with hold | hnew
  · exact h.value_wrapping_of_predates hold
  · refine h.value_wrapping fun f hf => ?_
    have halive := Store.isAlive_of_mem_bindings hentry
    split at hnew
    · obtain ⟨g, hg⟩ := hnew
      exact absurd (hf.symm.trans hg) (by simp)
    · obtain ⟨g, hg, hhome, -⟩ := hnew
      obtain rfl := Value.function.inj (hf.symm.trans hg)
      rw [hσ.isAlive] at halive
      split at halive
      · exact absurd ‹id = _› ‹¬ id = _›
      · exact Or.inr (hhome ▸ ⟨hid, Nat.le_of_lt (Store.lt_size_of_isAlive halive)⟩)

/-- The frame of the bindings has no part in the run inside the handler. -/
theorem bindings_wrapped {σ σ' : Store} (hσ : m.Ran layers σ)
    (hσ' : ((m.begin layers).2.below layers.bindings).store.Settles σ')
    (himage : h.wrapping.Image σ σ') : σ'.bindings layers.bindings = [] := by
  have hsize := Machine.size_begin layers m
  have hinner : σ'.parent? (m.store.frames.size + 1) = some layers.bindings := by
    rw [Store.parent?_congr (hσ'.links _)]
    exact (Store.parent?_newChild ..).trans (if_pos hsize.symm)
  obtain ⟨parent, hparent, hne, hle⟩ := h.parent?_begin_bindings
  have habove := himage.parents layers.bindings
  rw [h.frame_wrapping_bindings, Store.parent?_congr (hσ.settled.settles.links _), hparent,
    Option.map_some, h.frame_wrapping hne hle] at habove
  rcases habove with habove | ⟨between, rfl, -, hempty, -⟩
  · exact absurd (Option.some.inj (hinner.symm.trans habove)).symm hne
  · exact hempty

/-- When the frame of the handler is gone, nothing is bound in the bindings, and that is all. -/
theorem vacate_eq {k k' : Machine} (hk : m.Ran layers k.store)
    (hk' : ((m.begin layers).2.below layers.bindings).store.Settles k'.store)
    (htwins : h.wrapping.Twins k k') :
    { k' with store := k'.store.dropFrame (m.store.frames.size + 1) } = k.vacate layers := by
  obtain ⟨σ, console, files, depth⟩ := k
  obtain ⟨σ', console', files', depth'⟩ := k'
  obtain rfl : console' = console := htwins.console
  obtain rfl : files' = files := htwins.files
  obtain rfl : depth' = depth := htwins.depth
  have hsize := Machine.size_begin layers m
  have himage : h.wrapping.Image σ σ' := htwins.store
  refine congrArg (fun τ => Machine.mk τ console' files' depth') ?_
  refine Store.ext_frame? ?_ (fun id => ?_) ?_ (himage.identities 0).symm
  · rw [Store.size_dropFrame, Store.size_vacate, ← himage.next, h.frame_wrapping_new hk.size_le]
  · rw [Store.frame?_dropFrame]
    by_cases hid : m.store.frames.size + 1 = id
    · rw [if_pos hid, Store.frame?_vacate, hk.settled.gone id (Nat.le_of_eq (hsize.trans hid))]
      exact (ite_self _).symm
    · rw [if_neg hid]
      refine Store.frame?_eq ?_ ?_
      · have hbelow := Store.frame?_newChild (fun hsame => hid (hsize.symm.trans hsame.symm))
          layers.bindings
        rw [Store.links_vacate, hk'.links, hk.settled.settles.links]
        exact congrArg (Option.map Frame.links) hbelow
      · rw [Store.bindings_vacate]
        rcases h.frame_wrapping_cases id with ⟨rfl, -⟩ | ⟨hne, hle, hframe⟩ | ⟨hle, -⟩
        · rw [if_pos rfl]
          exact h.bindings_wrapped hk hk' himage
        · rw [if_neg (Ne.symm hne), ← hframe, himage.bindings, hframe]
          exact Entries.mapValues_eq_self fun entry => h.value_wrapping_of_bound hk hne
        · have hlt : m.store.frames.size + 2 ≤ id := Nat.lt_of_le_of_ne hle hid
          have hgone' : σ'.frame? id = none :=
            hk'.gone id ((Store.size_newChild ..).trans (congrArg (· + 1) hsize) ▸ hlt)
          rw [if_neg (Nat.ne_of_lt (Nat.lt_of_lt_of_le (Nat.lt_succ_of_lt h.lt_size) hle)),
            Store.bindings, Store.bindings, hk.settled.gone id (hsize ▸ hle), hgone']
  · refine himage.cells.trans (Renaming.cells_eq_self fun cell content hcell v hv => ?_)
    exact h.value_wrapping_of_predates (hk.settled.holds.cells cell content trivial hcell v hv)

end Layers.Vacant

/-- The same outcome without a value, with nothing in the bindings of the run. -/
def Outcome.vacate (layers : Layers) : Outcome Value → Outcome Unit
  | .done _ m => .done () (m.vacate layers)
  | .signalled s m => .signalled s (m.vacate layers)
  | .failed fault place m => .failed fault place (m.vacate layers)
  | .exhausted m => .exhausted (m.vacate layers)

/-- The handler of a try runs for a value that was thrown. -/
def Eval.rescue (limit fuel : Nat) (scope : FrameId) (param : Option Name) (handler : List Stmt)
    (payload : Value) : Eval Unit :=
  inChild scope fun frame => do
    declareThrown frame param payload
    stmts limit fuel frame handler

/-- What a program comes to when a throw that comes out of it is handed to `rescue`. -/
def Outcome.handled (layers : Layers) (rescue : Value → Eval Unit) : Outcome Value → Outcome Value
  | .done _ m => .done .null (m.vacate layers)
  | .signalled (.transfer .throw payload _) m =>
    (rescue payload >>= fun _ => pure .null) (m.vacate layers)
  | .signalled s m => .signalled s (m.vacate layers)
  | .failed fault place m => .failed fault place (m.vacate layers)
  | .exhausted m => .exhausted (m.vacate layers)

namespace Machine

variable {m : Machine} {layers : Layers} {limit fuel : Nat} {program : Program}

/-- What comes inside a handler is what comes without it. -/
theorem mapMachine_of_mirrored (hrested : m.store.Rested) (h : layers.Vacant m.store)
    {first : Outcome Value} {second : Outcome Unit}
    (hmirror : h.wrapping.Mirrored 1 (fun _ => ()) first second) (hends : ∀ k, first ≠ .exhausted k)
    (hfirst : first.Keeps m.store.runRealm (m.begin layers).2.store m.store.runRealm.data)
    (hsecond : second.Keeps .whole ((m.begin layers).2.below layers.bindings).store fun _ => True) :
    second.mapMachine (fun n => { n with store := n.store.dropFrame (m.store.frames.size + 1) }) =
      first.vacate layers := by
  cases hmirror with
  | done htwins =>
    have hran := Ran.of_settled hrested hfirst.1
    exact congrArg (Outcome.done ()) (h.vacate_eq hran hsecond.1.settles htwins)
  | @signalled s k k' htwins =>
    have hran := Ran.of_settled hrested hfirst.1
    have hsignal : h.wrapping.signal s = s := by
      cases s with
      | jump j place => rfl
      | transfer kind v place =>
        have hpayload := h.value_wrapping_of_predates (hfirst.2 v rfl)
        exact congrArg (fun w => Signal.transfer kind w place) hpayload
    rw [hsignal]
    exact congrArg (Outcome.signalled s) (h.vacate_eq hran hsecond.1.settles htwins)
  | @failed fault place k k' htwins =>
    have hran := Ran.of_settled hrested hfirst
    exact congrArg (Outcome.failed fault place) (h.vacate_eq hran hsecond.settles htwins)
  | @exhausted k _ _ => exact absurd rfl (hends k)
  | @unknown k _ _ => exact absurd rfl (hends k)

/-- In a frame of a handler the program does what it does by itself. -/
theorem inChild_wrapped (hrested : m.store.Rested) (h : layers.Vacant m.store)
    (hcalls : ∀ f arguments place n,
      (m.outset layers program).Reaches limit ⟨.call f arguments place, n⟩ →
        f.home = layers.bindings → m.store.nextIdentity ≤ f.identity)
    (hends : ∀ k, Eval.script limit fuel layers.bindings .null program.body (m.begin layers).2 ≠
      .exhausted k) (more : Nat) :
    Eval.inChild layers.bindings (fun frame => Eval.stmts limit (program.body.length + more + fuel + 1)
        frame program.body) (m.begin layers).2 =
      (Eval.script limit fuel layers.bindings .null program.body (m.begin layers).2).vacate layers := by
  have htwins : h.wrapping.Twins (m.begin layers).2 ((m.begin layers).2.below layers.bindings) :=
    ⟨h.image_wrapping hrested, rfl, rfl, rfl⟩
  have hmirror := Eval.mirrors_body (h.suits_wrapping hrested hcalls) Nat.one_ne_zero more fuel
    layers.bindings program.body .null _ .refl _ htwins
  have hbody : Stmt.mapBody h.wrapping.place program.body = program.body := Stmt.mapBody_id _
  rw [hbody, h.frame_wrapping_bindings, ← size_begin layers m] at hmirror
  have hinner : (Eval.stmts limit (program.body.length + more + fuel + 1)
      (m.begin layers).2.store.frames.size program.body).Keeps .whole
        ((m.begin layers).2.below layers.bindings) fun _ => True :=
    (Eval.evaluations .whole limit _).stmts program.body trivial (Realm.whole_holds _)
  have hkeeps := keeps_run hrested h.alive limit fuel program.body
  have hvacate := mapMachine_of_mirrored hrested h hmirror hends hkeeps hinner
  rw [← size_begin layers m] at hvacate
  exact hvacate

/-- What the host gets when the statements of a program have come to an outcome. -/
def finish (m : Machine) (layers : Layers) (outcome : Outcome Value) : Ending × Machine :=
  let (ending, ended) := conclude outcome
  (ending, { ended with store := m.unlink layers ended.store })

/-- The end of a run leaves the bindings empty. -/
theorem finish_vacate (m k : Machine) (layers : Layers) :
    { k.vacate layers with store := m.unlink layers (k.vacate layers).store } =
      ({ k with store := m.unlink layers k.store } : Machine).vacate layers :=
  congrArg (fun σ => { k with store := σ }) (m.vacate_unlink layers k.store layers.bindings)

theorem finish_handled (m : Machine) (layers : Layers) (rescue : Value → Eval Unit)
    {outcome : Outcome Value} (hdone : ∀ v k, outcome ≠ .done v k)
    (hthrown : ∀ v place k, outcome ≠ .signalled (.transfer .throw v place) k) :
    m.finish layers (outcome.handled layers rescue) =
      ((m.finish layers outcome).1, (m.finish layers outcome).2.vacate layers) := by
  cases outcome with
  | done v k => exact absurd rfl (hdone v k)
  | signalled s k =>
    have hvacate := m.finish_vacate k layers
    cases s with
    | jump j place => exact congrArg (Prod.mk _) hvacate
    | transfer kind v place =>
      cases kind with
      | throw => exact absurd rfl (hthrown v place k)
      | _ => exact congrArg (Prod.mk _) hvacate
  | failed fault place k => exact congrArg (Prod.mk _) (m.finish_vacate k layers)
  | exhausted k => exact congrArg (Prod.mk _) (m.finish_vacate k layers)

/-- A program of one try declares nothing. -/
theorem bindings_run_attempt (h : layers.Vacant m.store) (limit fuel : Nat) (body : List Stmt)
    (bodySpan : Span) (param : Option Name) (handler : List Stmt) (handlerSpan span programSpan : Span) :
    (m.run limit fuel layers ⟨[.attempt body bodySpan param handler handlerSpan span],
      programSpan⟩).2.store.bindings layers.bindings = [] := by
  obtain ⟨more, hmore, -, hnew⟩ := m.localNames_run limit fuel layers
    ⟨[.attempt body bodySpan param handler handlerSpan span], programSpan⟩ layers.bindings
  have hnone : more = [] := List.eq_nil_iff_forall_not_mem.mpr fun name hname =>
    absurd (hnew name hname).2.2 List.not_mem_nil
  rw [hnone, List.append_nil, Store.localNames, Store.localNames, h.empty] at hmore
  exact List.map_eq_nil_iff.mp hmore

theorem script_attempt (hrested : m.store.Rested) (h : layers.Vacant m.store) {fuel' : Nat}
    (hcalls : ∀ f arguments place n,
      (m.outset layers program).Reaches limit ⟨.call f arguments place, n⟩ →
        f.home = layers.bindings → m.store.nextIdentity ≤ f.identity)
    (hends : ∀ k, Eval.script limit fuel layers.bindings .null program.body (m.begin layers).2 ≠
      .exhausted k)
    (hfuel : fuel + program.body.length < fuel') (bodySpan : Span) (param : Option Name)
    (handler : List Stmt) (handlerSpan span : Span) :
    Eval.script limit (fuel' + 1) layers.bindings .null
        [.attempt program.body bodySpan param handler handlerSpan span] (m.begin layers).2 =
      (Eval.script limit fuel layers.bindings .null program.body (m.begin layers).2).handled layers
        (Eval.rescue limit fuel' layers.bindings param handler) := by
  obtain ⟨more, hmore⟩ := Nat.exists_eq_add_of_lt hfuel
  obtain rfl : fuel' = program.body.length + more + fuel + 1 := by omega
  have hchild := inChild_wrapped hrested h hcalls hends more
  change (Eval.catching (Eval.inChild layers.bindings fun frame =>
      Eval.stmts limit (program.body.length + more + fuel + 1) frame program.body)
      (Eval.rescue limit _ layers.bindings param handler) >>= fun _ => pure Value.null) _ = _
  rw [Eval.bind_apply]
  unfold Eval.catching
  rw [hchild]
  cases Eval.script limit fuel layers.bindings .null program.body (m.begin layers).2 with
  | signalled s k =>
    cases s with
    | jump j place => rfl
    | transfer kind v place => cases kind <;> rfl
  | _ => rfl

/-- A handler around a program does nothing but catch. If the program comes to its end the result is null
instead, and if it ends by an exit, with a jump or with an error other than a throw the result is the
same; the machine is the same, but the bindings are empty. If the program throws, the handler begins on
that machine with the value that was thrown. In any case nothing is bound in the bindings. -/
theorem run_attempt (hrested : m.store.Rested) (h : layers.Vacant m.store) {fuel' : Nat}
    (hcalls : ∀ f arguments place n,
      (m.outset layers program).Reaches limit ⟨.call f arguments place, n⟩ →
        f.home = layers.bindings → m.store.nextIdentity ≤ f.identity)
    (hends : ∀ k, Eval.script limit fuel layers.bindings .null program.body (m.begin layers).2 ≠
      .exhausted k)
    (hfuel : fuel + program.body.length < fuel') (bodySpan : Span) (param : Option Name)
    (handler : List Stmt) (handlerSpan span programSpan : Span) :
    let outcome := Eval.script limit fuel layers.bindings .null program.body (m.begin layers).2
    let plain := m.run limit fuel layers program
    let wrapped := m.run limit (fuel' + 1) layers
      ⟨[.attempt program.body bodySpan param handler handlerSpan span], programSpan⟩
    (∀ v k, outcome = .done v k → wrapped = (.value .null, plain.2.vacate layers)) ∧
      (∀ v place k, outcome = .signalled (.transfer .throw v place) k →
        wrapped = m.finish layers ((Eval.rescue limit fuel' layers.bindings param handler v >>=
          fun _ => pure .null) (k.vacate layers))) ∧
      ((∀ v k, outcome ≠ .done v k) →
        (∀ v place k, outcome ≠ .signalled (.transfer .throw v place) k) →
          wrapped = (plain.1, plain.2.vacate layers)) ∧
      wrapped.2.store.bindings layers.bindings = [] := by
  intro outcome plain wrapped
  have hplain : plain = m.finish layers outcome := rfl
  have hwrapped : wrapped = m.finish layers
      (outcome.handled layers (Eval.rescue limit fuel' layers.bindings param handler)) :=
    congrArg (m.finish layers) (script_attempt hrested h hcalls hends hfuel bodySpan param handler
      handlerSpan span)
  refine ⟨fun v k hdone => ?_, fun v place k hthrown => ?_, fun hdone hthrown => ?_, ?_⟩
  · rw [hwrapped, hplain, hdone]
    exact congrArg (Prod.mk _) (m.finish_vacate k layers)
  · rw [hwrapped, hthrown]
    rfl
  · rw [hwrapped, hplain]
    exact m.finish_handled layers _ hdone hthrown
  · exact bindings_run_attempt h limit _ _ _ _ _ _ _ _

theorem lone_vacant : Layers.Vacant ⟨0, none⟩ lone.store :=
  ⟨lone_alive, bindings_lone 0, fun id hparent => by simp [parent?_lone] at hparent⟩

/-- `throw 1;`, by itself and with the handler `catch (e) { exit e; }`. -/
theorem run_attempt_throw :
    let program : Program :=
      ⟨[.transfer .throw (some (.literal (.integer 1) default)) default], default⟩
    let handler : List Stmt := [.transfer .exit (some (.variable ⟨"e", default⟩)) default]
    let wrapped := lone.run 1 12 ⟨0, none⟩
      ⟨[.attempt program.body default (some ⟨"e", default⟩) handler default default], default⟩
    (∃ k, Eval.script 1 9 0 .null program.body (lone.begin ⟨0, none⟩).2 =
        .signalled (.transfer .throw (.integer 1) default) k ∧
      wrapped = lone.finish ⟨0, none⟩ ((Eval.rescue 1 11 0 (some ⟨"e", default⟩) handler (.integer 1) >>=
        fun _ => pure .null) (k.vacate ⟨0, none⟩))) ∧
      wrapped.1 = .value (.integer 1) ∧ wrapped.2.store.bindings 0 = [] := by
  intro program handler wrapped
  have hcalls : ∀ f arguments place n,
      (lone.outset ⟨0, none⟩ program).Reaches 1 ⟨.call f arguments place, n⟩ →
        f.home = 0 → lone.store.nextIdentity ≤ f.identity := fun f _ _ _ _ _ => Nat.zero_le _
  have houtcome : ∃ k, Eval.script 1 9 0 .null program.body (lone.begin ⟨0, none⟩).2 =
      .signalled (.transfer .throw (.integer 1) default) k := ⟨_, rfl⟩
  obtain ⟨k, houtcome⟩ := houtcome
  have hends : ∀ n, Eval.script 1 9 0 .null program.body (lone.begin ⟨0, none⟩).2 ≠ .exhausted n := by
    intro n hn
    exact absurd (houtcome.symm.trans hn) (by simp)
  have hfuel : 9 + program.body.length < 11 := by decide
  obtain ⟨-, hthrown, -, hempty⟩ := run_attempt lone_rested lone_vacant hcalls hends hfuel default
    (some ⟨"e", default⟩) handler default default default
  exact ⟨⟨k, houtcome, hthrown _ _ k houtcome⟩, rfl, hempty⟩

/-- A function from the bindings that is now found in the globals. -/
def strayFunction : Closure :=
  ⟨0, ⟨⟨"f", default⟩, [], [.transfer .return (some (.variable ⟨"x", default⟩)) default], default⟩, 0⟩

def strayMachine : Machine :=
  { Machine.start with store :=
      ⟨#[some ⟨[], none, 1⟩, some ⟨[("f", .function strayFunction)], none, 1⟩], #[], 1⟩ }

/-- Such a function sees what the program declares, but not what it declares inside a handler: `var x = 5;
f();` comes to its end, and with a handler around it it fails. -/
theorem not_run_attempt_stray :
    let layers : Layers := ⟨0, some 1⟩
    let program : Program := ⟨[.declare ⟨"x", default⟩ (some (.literal (.integer 5) default)) default,
      .expression (.call ⟨"f", default⟩ [] default) default], default⟩
    let wrapped := strayMachine.run 1 12 layers
      ⟨[.attempt program.body default (some ⟨"e", default⟩) [] default default], default⟩
    strayMachine.store.bindings 0 = [] ∧
      (∃ k, Eval.script 1 9 0 .null program.body (strayMachine.begin layers).2 =
        .done (.integer 5) k) ∧
      wrapped.1 ≠ .value .null := by
  intro layers program wrapped
  have hwrapped : wrapped.1 =
      .error ((RuntimeFault.scope (.notDeclared "x")).toError default) := rfl
  refine ⟨rfl, ⟨_, rfl⟩, ?_⟩
  rw [hwrapped]
  simp

end Machine

end ScriptEngine
