import ScriptEngine.Host.Handles
import ScriptEngine.Proofs.Hosting.Upkeep
import ScriptEngine.Proofs.Running.Series

/-!
How long frames last. A host takes and gives back handles on frames, links frames to others, binds
whatever values it likes, and runs scripts in its frames. After everything that it does, a frame is
there exactly when the way up from a frame with a handle leads to it. What is bound in the frames makes
no difference, so no function keeps the frame that it was declared in.
-/
namespace ScriptEngine

/-- What a host can do with frames. -/
inductive Operation where
  | root
  | child (parent : FrameId)
  | declare (id : FrameId) (name : String) (v : Value)
  | write (id : FrameId) (name : String) (v : Value)
  | setLocal (id : FrameId) (name : String) (v : Value)
  | removeLocal (id : FrameId) (name : String)
  | setParent (id : FrameId) (parent : Option FrameId)
  /-- Takes another handle on the frame. -/
  | again (id : FrameId)
  | weaken (id : FrameId)
  | release (handle : Nat)

namespace Handles

variable {h h' : Handles} {id : FrameId}

def Holds (h : Handles) (id : FrameId) : Prop := ∃ handle, h.frame? handle = some id

/-- How many handles there are on a frame. -/
def holders (h : Handles) (id : FrameId) : Nat := h.held.count (some id)

/-- From a frame with a handle the way up leads to the frame. -/
def Leads (h : Handles) (id : FrameId) : Prop := ∃ holder, h.Holds holder ∧ h.store.Rises holder id

/-- Keeps a changed store; a failure leaves everything as it was. -/
def settle (h : Handles) : Except ScopeFault Store → Option ScopeFault × Handles
  | .ok store => (none, h.withStore store)
  | .error fault => (some fault, h)

def act (h : Handles) : Operation → Option ScopeFault × Handles
  | .root => (none, h.root.2)
  | .child parent => (none, (h.child parent).2)
  | .declare id name v => h.settle (h.store.declare id name v)
  | .write id name v => h.settle (h.store.write id name v)
  | .setLocal id name v => (none, h.withStore (h.store.setLocal id name v))
  | .removeLocal id name => (none, h.withStore (h.store.removeLocal id name))
  | .setParent id parent => (none, h.withStore (h.store.setParent id parent))
  | .again id => (none, (h.hold (id, h.store.retain id)).2)
  | .weaken id => (none, (h.weaken id).2)
  | .release handle => (none, h.release handle)

/-- The host has handles on the frames that it works with; others it comes by going up or through a
weak handle. It puts no frame above itself. -/
def Allows (h : Handles) : Operation → Prop
  | .root | .release _ => True
  | .child id | .declare id _ _ | .write id _ _ | .setLocal id _ _ | .removeLocal id _ => h.Holds id
  | .setParent id parent =>
    h.Holds id ∧ (∀ above ∈ parent, h.Holds above) ∧ (h.store.relink id parent).Acyclic
  | .again id | .weaken id => h.store.isAlive id

/-- With another console and other files. -/
def equipped (h : Handles) (console : Console) (files : Files) : Handles :=
  { h with machine := { h.machine with console := console, files := files } }

/-- What can happen between a host and its frames. -/
inductive Step : Handles → Handles → Prop where
  | operation {h : Handles} (op : Operation) (hallows : h.Allows op) : Step h (h.act op).2
  | aggregate {h : Handles} (content : Cell) : Step h (h.withStore (h.store.addCell content).2)
  | install {h : Handles} {id : FrameId} (hid : h.Holds id) :
      Step h (h.withStore (h.store.installNatives id))
  | evaluate {h : Handles} (limit fuel : Nat) (task : Task) (console : Console) (files : Files)
      (hscope : ∀ id, task.scope? = some id → h.Holds id) :
      Step h { h with machine := (task.eval limit fuel (h.equipped console files).machine).machine }
  | run {h : Handles} (job : Job) (hbindings : h.Holds job.layers.bindings)
      (hglobals : ∀ id ∈ job.layers.globals, h.Holds id) :
      Step h { h with machine := (h.machine.perform job).2 }

def Follows : Handles → Handles → Prop := Relation.ReflTransGen Step

/-- Nothing has been done but these operations, of which the last comes first. -/
inductive Arises : List Operation → Handles → Prop where
  | start : Arises [] start
  | act {past : List Operation} {h : Handles} {op : Operation} (hpast : Arises past h)
      (hallows : h.Allows op) : Arises (op :: past) (h.act op).2

theorem Arises.follows {past : List Operation} (harises : Arises past h) :
    Handles.start.Follows h := by
  induction harises with
  | start => exact .refl
  | act _ hallows ih => exact ih.tail (.operation _ hallows)

/-- Handles and links are in order: each frame has the handles that the host holds on it. -/
def Sound (h : Handles) : Prop := h.store.Kept h.holders

theorem holders_ne_zero_iff : h.holders id ≠ 0 ↔ h.Holds id := by
  unfold holders Holds frame?
  rw [← Nat.pos_iff_ne_zero, Array.count_pos_iff, Array.mem_iff_getElem?]
  simp only [Option.join_eq_some_iff]

theorem Sound.isAlive_iff (hsound : h.Sound) : h.store.isAlive id ↔ h.Leads id := by
  rw [Store.Tended.isAlive_iff hsound]
  simp only [holders_ne_zero_iff]
  rfl

theorem Sound.isAlive (hsound : h.Sound) (hid : h.Holds id) : h.store.isAlive id :=
  hsound.isAlive_iff.mpr ⟨id, hid, .refl⟩

theorem sound_start : start.Sound := Store.kept_empty

/-! Handles -/

theorem holders_hold (frame : FrameId) (σ : Store) :
    (h.hold (frame, σ)).2.holders id = h.holders id + if frame = id then 1 else 0 := by
  unfold holders hold withStore
  rw [Array.count_push]
  simp

theorem Sound.addFrame (hsound : h.Sound) {parent : Option FrameId}
    (hparent : ∀ above ∈ parent, h.store.isAlive above) :
    (h.hold (h.store.addFrame ⟨[], parent, 1⟩)).2.Sound := by
  have hcount : (h.hold (h.store.addFrame ⟨[], parent, 1⟩)).2.holders =
      fun id => h.holders id + if h.store.frames.size = id then 1 else 0 :=
    funext fun id => holders_hold ..
  rw [Sound, hcount]
  exact Store.Tended.addFrame hsound hparent

theorem Sound.again (hsound : h.Sound) (hid : h.store.isAlive id) :
    (h.hold (id, h.store.retain id)).2.Sound := by
  have hcount : (h.hold (id, h.store.retain id)).2.holders =
      fun other => h.holders other + if id = other then 1 else 0 :=
    funext fun other => holders_hold ..
  rw [Sound, hcount]
  exact Store.Tended.retain hsound hid

theorem holders_release {handle : Nat} (hhandle : h.frame? handle = some id) (other : FrameId) :
    (h.held.setIfInBounds handle none).count (some other) =
      if id = other then h.holders id - 1 else h.holders other := by
  have hheld : h.held[handle]? = some (some id) := Option.join_eq_some_iff.mp hhandle
  obtain ⟨hlt, hget⟩ := Array.getElem?_eq_some_iff.mp hheld
  rw [Array.setIfInBounds, dif_pos hlt, Array.count_set, hget]
  by_cases hother : id = other
  · subst hother
    simp [holders]
  · simp [holders, hother]

theorem Sound.release (hsound : h.Sound) (handle : Nat) : (h.release handle).Sound := by
  unfold Handles.release
  cases hhandle : h.frame? handle with
  | none => exact hsound
  | some id =>
    have hheld : h.holders id ≠ 0 := holders_ne_zero_iff.mpr ⟨handle, hhandle⟩
    exact Store.Tended.release hsound hheld (holders_release hhandle)

/-! Steps -/

/-- Bindings and cells may change. -/
theorem Sound.withMachine (hsound : h.Sound) {m : Machine}
    (hlinks : ∀ id, (m.store.frame? id).map Frame.links = (h.store.frame? id).map Frame.links) :
    ({ h with machine := m } : Handles).Sound :=
  Store.Tended.congr hsound hlinks

theorem Sound.withStore (hsound : h.Sound) {σ : Store} (hstore : h.store.Settles σ) :
    (h.withStore σ).Sound :=
  hsound.withMachine (m := { h.machine with store := σ }) hstore.links

theorem settles_setLocal (σ : Store) (id : FrameId) (name : String) (v : Value) :
    σ.Settles (σ.setLocal id name v) :=
  σ.settles_modifyFrame id fun _ => rfl

theorem Sound.act (hsound : h.Sound) {op : Operation} (hallows : h.Allows op) :
    (h.act op).2.Sound := by
  cases op with
  | root => exact hsound.addFrame (by simp)
  | child parent =>
    refine hsound.addFrame fun above habove => ?_
    obtain rfl := Option.some.inj habove
    exact hsound.isAlive hallows
  | declare id name v =>
    simp only [Handles.act, Store.declare]
    split
    · exact hsound
    · exact hsound.withStore (settles_setLocal ..)
  | write id name v =>
    simp only [Handles.act, Store.write]
    split
    · exact hsound.withStore (settles_setLocal ..)
    · exact hsound
  | setLocal id name v => exact hsound.withStore (settles_setLocal ..)
  | removeLocal id name => exact hsound.withStore (h.store.settles_modifyFrame id fun _ => rfl)
  | setParent id parent =>
    obtain ⟨hid, hparent, hacyclic⟩ := hallows
    exact Store.Tended.setParent hsound (hsound.isAlive hid)
      (fun above habove => hsound.isAlive (hparent above habove)) hacyclic
  | again id => exact hsound.again hallows
  | weaken id => exact hsound
  | release handle => exact hsound.release handle

theorem settles_eval (limit fuel : Nat) (task : Task) (m : Machine) :
    m.store.Settles (task.eval limit fuel m).machine.store :=
  (keeps_task (M := ⟨task, m⟩) fuel (Realm.whole_holds m.store) task.in_whole).settled_machine.settles

theorem Step.sound (hstep : Step h h') (hsound : h.Sound) : h'.Sound := by
  cases hstep with
  | operation op hallows => exact hsound.act hallows
  | aggregate content => exact hsound.withMachine fun _ => rfl
  | @install id hid => exact hsound.withMachine (Store.furnishes_installNatives h.store id).links
  | evaluate limit fuel task console files hscope =>
    have hstore := settles_eval limit fuel task (h.equipped console files).machine
    exact hsound.withMachine hstore.links
  | run job hbindings hglobals =>
    have hstore := h.machine.settles_perform job
    exact hsound.withMachine hstore.links

theorem Follows.sound (hfollows : h.Follows h') (hsound : h.Sound) : h'.Sound := by
  induction hfollows with
  | refl => exact hsound
  | tail _ hstep ih => exact hstep.sound ih

/-- Whatever a host has done, a frame is there exactly when the way up from a frame with a handle leads
to it, and only then does a weak handle give it. While scripts run in its frames, this stays so for all
of them from the beginning to the end; and whatever comes of an evaluation inside, when it has ended
there are the frames that there were when it began. -/
theorem frames_last {h : Handles} (hfollows : start.Follows h) :
    (∀ id, h.store.isAlive id ↔ h.Leads id) ∧
    (∀ handle id, h.upgrade? handle = some id ↔ h.weak[handle]? = some id ∧ h.Leads id) ∧
    ∀ (limit : Nat) (task : Task) (console : Console) (files : Files) (M : Moment),
      Moment.Reaches limit ⟨task, (h.equipped console files).machine⟩ M →
      (∀ id < h.store.frames.size, M.machine.store.isAlive id ↔ h.Leads id) ∧
      ∀ fuel id, (M.task.eval limit fuel M.machine).machine.store.isAlive id =
        M.machine.store.isAlive id := by
  have hsound := hfollows.sound sound_start
  refine ⟨fun id => hsound.isAlive_iff, fun handle id => ?_, fun limit task console files M hM => ?_⟩
  · rw [upgrade?, Option.filter_eq_some_iff, hsound.isAlive_iff]
  · have hway := hM.onward
    refine ⟨fun id hid => ?_, fun fuel id => (settles_eval limit fuel M.task M.machine).isAlive id⟩
    rw [hway.frames.isAlive hid]
    exact hsound.isAlive_iff

/-- A function that was declared in the frame. -/
def declaredIn (home : FrameId) : Value := .function ⟨0, ⟨⟨"f", default⟩, [], [], default⟩, home⟩

/-- A root, and another with a frame below it, whose function is bound in the first root, too. -/
def settledOperations : List Operation :=
  [.setLocal 0 "f" (declaredIn 2), .declare 2 "f" (declaredIn 2), .weaken 2, .child 1, .root, .root]

/-- The handle on the second root is given back; then the frame below it is put below the first one and
its own handle is given back. -/
def movedOperations : List Operation :=
  .release 2 :: .setParent 2 (some 0) :: .release 1 :: settledOperations

def made (past : List Operation) : Handles := past.foldr (fun op h => (h.act op).2) start

theorem settled_arises : Arises settledOperations (made settledOperations) :=
  .act (.act (.act (.act (.act (.act .start trivial) trivial) ⟨1, rfl⟩) rfl) ⟨2, rfl⟩) ⟨0, rfl⟩

theorem moved_arises : Arises movedOperations (made movedOperations) := by
  refine .act (.act (.act settled_arises trivial) ⟨⟨2, ?_⟩, fun above habove => ⟨0, ?_⟩, ?_⟩) trivial
  · decide +kernel
  · obtain rfl := Option.some.inj habove
    decide +kernel
  · refine Store.acyclic_of_parent_lt fun id parent hstep => ?_
    have hsize :
        ((made (.release 1 :: settledOperations)).store.relink 2 (some 0)).frames.size = 3 := by
      decide +kernel
    have hparents : ∀ id < 3, ∀ parent ∈
        ((made (.release 1 :: settledOperations)).store.relink 2 (some 0)).parent? id, parent < id := by
      decide +kernel
    exact hparents id (hsize ▸ Store.lt_size_of_isAlive (Store.isAlive_of_parent? hstep)) parent hstep

/-- The second root has gone: its handle had been given back, and nothing is below it any more. The
frame that was below it has gone with its handle, though its function is bound in the first root. -/
theorem frames_last_moved :
    ((made movedOperations).store.isAlive 0 ∧ ¬ (made movedOperations).store.isAlive 1 ∧
      (made movedOperations).upgrade? 0 = none) ∧
    (∀ id, (made movedOperations).store.isAlive id ↔ (made movedOperations).Leads id) ∧
    (∀ handle id, (made movedOperations).upgrade? handle = some id ↔
      (made movedOperations).weak[handle]? = some id ∧ (made movedOperations).Leads id) ∧
    ∀ (limit : Nat) (task : Task) (console : Console) (files : Files) (M : Moment),
      Moment.Reaches limit ⟨task, ((made movedOperations).equipped console files).machine⟩ M →
      (∀ id < (made movedOperations).store.frames.size,
        M.machine.store.isAlive id ↔ (made movedOperations).Leads id) ∧
      ∀ fuel id, (M.task.eval limit fuel M.machine).machine.store.isAlive id =
        M.machine.store.isAlive id :=
  ⟨by decide +kernel, frames_last moved_arises.follows⟩

end Handles

end ScriptEngine
