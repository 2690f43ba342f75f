import ScriptEngine.Proofs.Running.Frames
import ScriptEngine.Run.Program

/-!
The beginning and the end of a run. At the beginning there is one new frame, which has the standard
functions, and the frames of the layers have new parents; bindings and cells are what they were. At
the end the new frame is gone and every frame has the parent that it had.
-/
namespace ScriptEngine

namespace Store

variable {σ σ' σ'' : Store}

/-- A frame got natives; nothing else is different. -/
structure Furnishes (σ : Store) (frame : FrameId) (σ' : Store) : Prop where
  size : σ'.frames.size = σ.frames.size
  cells : σ'.cells = σ.cells
  links : ∀ id, (σ'.frame? id).map Frame.links = (σ.frame? id).map Frame.links
  bindings : ∀ id, id ≠ frame → σ'.bindings id = σ.bindings id
  natives : ∀ entry ∈ σ'.bindings frame, entry ∈ σ.bindings frame ∨ ∃ f, entry.2 = .native f
  identities : σ.nextIdentity ≤ σ'.nextIdentity

theorem Furnishes.refl (σ : Store) (frame : FrameId) : σ.Furnishes frame σ :=
  ⟨rfl, rfl, fun _ => rfl, fun _ _ => rfl, fun _ h => Or.inl h, Nat.le_refl _⟩

theorem Furnishes.trans {frame : FrameId} (h : σ.Furnishes frame σ')
    (h' : σ'.Furnishes frame σ'') : σ.Furnishes frame σ'' := by
  refine ⟨h'.size.trans h.size, h'.cells.trans h.cells, fun id => (h'.links id).trans (h.links id),
    fun id hid => (h'.bindings id hid).trans (h.bindings id hid), fun entry hentry => ?_,
    Nat.le_trans h.identities h'.identities⟩
  rcases h'.natives entry hentry with hentry | hnative
  · exact h.natives entry hentry
  · exact Or.inr hnative

theorem furnishes_newNative (σ : Store) (frame : FrameId) (name : String) (params : List String)
    (action : NativeAction) :
    σ.Furnishes frame ((σ.newNative name params action).2.setLocal frame name
      (σ.newNative name params action).1) := by
  refine ⟨?_, rfl, fun id => ?_, fun id hid => ?_, fun entry hentry => ?_, Nat.le_succ _⟩
  · simp [newNative, newIdentity, setLocal, modifyFrame]
  · unfold setLocal
    rw [frame?_modifyFrame]
    by_cases hid : frame = id
    · rw [if_pos hid, Option.map_map]
      rfl
    · rw [if_neg hid]
      rfl
  · rw [bindings_setLocal_of_ne (Ne.symm hid)]
    rfl
  · rcases mem_bindings_setLocal hentry with ⟨_, rfl⟩ | hentry
    · exact Or.inr ⟨_, rfl⟩
    · exact Or.inl hentry

theorem furnishes_installNatives (σ : Store) (frame : FrameId) :
    σ.Furnishes frame (σ.installNatives frame) := by
  unfold installNatives
  generalize standardNatives = natives
  induction natives generalizing σ with
  | nil => exact .refl σ frame
  | cons native rest ih =>
    exact (furnishes_newNative σ frame native.1 native.2.1 native.2.2).trans (ih _)

/-! Parents -/

theorem frame?_relink (σ : Store) (id other : FrameId) (parent : Option FrameId) :
    (σ.relink id parent).frame? other =
      if id = other then (σ.frame? other).map fun frame => { frame with parent := parent }
      else σ.frame? other :=
  frame?_modifyFrame σ id other _

theorem handles_relink (σ : Store) (id other : FrameId) (parent : Option FrameId) :
    ((σ.relink id parent).frame? other).map Frame.handles = (σ.frame? other).map Frame.handles := by
  rw [frame?_relink]
  by_cases h : id = other
  · rw [if_pos h, Option.map_map]
    rfl
  · rw [if_neg h]

theorem parent?_relink_of_ne {id other : FrameId} (h : id ≠ other) (parent : Option FrameId) :
    (σ.relink id parent).parent? other = σ.parent? other := by
  rw [parent?, frame?_relink, if_neg h]
  rfl

theorem isAlive_relink (σ : Store) (id other : FrameId) (parent : Option FrameId) :
    (σ.relink id parent).isAlive other = σ.isAlive other := by
  unfold isAlive
  rw [frame?_relink]
  by_cases h : id = other
  · rw [if_pos h, Option.isSome_map]
  · rw [if_neg h]

theorem parent?_eq_none_of_not_isAlive {id : FrameId} (h : ¬ σ.isAlive id) :
    σ.parent? id = none := by
  unfold parent?
  cases hframe : σ.frame? id with
  | none => rfl
  | some frame => exact absurd (by rw [isAlive, hframe]; rfl) h

/-- A frame is what it was when it has the handles and the parent that it had. -/
theorem links_eq {id : FrameId}
    (hhandles : (σ'.frame? id).map Frame.handles = (σ.frame? id).map Frame.handles)
    (hparent : σ'.parent? id = σ.parent? id) :
    (σ'.frame? id).map Frame.links = (σ.frame? id).map Frame.links := by
  unfold parent? at hparent
  cases h : σ.frame? id <;> cases h' : σ'.frame? id <;> simp_all [Frame.links]

theorem frame?_eq {id : FrameId}
    (hlinks : (σ'.frame? id).map Frame.links = (σ.frame? id).map Frame.links)
    (hbindings : σ'.bindings id = σ.bindings id) : σ'.frame? id = σ.frame? id := by
  unfold bindings at hbindings
  cases h : σ.frame? id with
  | none => simpa [h] using hlinks
  | some frame =>
    rw [h] at hlinks hbindings
    obtain ⟨frame', hframe', hlinks⟩ := Option.map_eq_some_iff.mp hlinks
    rw [hframe'] at hbindings ⊢
    obtain ⟨bindings, parent, handles⟩ := frame
    obtain ⟨bindings', parent', handles'⟩ := frame'
    simp_all [Frame.links]

theorem bindings_eq_nil {id : FrameId} (h : σ.frames.size ≤ id) : σ.bindings id = [] := by
  unfold bindings
  rw [frame?_eq_none h]

end Store

namespace Layers

variable {layers : Layers} {σ : Store}

theorem bindings_link (layers : Layers) (top : FrameId) (σ : Store) (id : FrameId) :
    (layers.link top σ).bindings id = σ.bindings id := by
  unfold link
  split
  · rw [Store.bindings_relink, Store.bindings_relink]
  · rw [Store.bindings_relink]

theorem handles_link (layers : Layers) (top : FrameId) (σ : Store) (id : FrameId) :
    ((layers.link top σ).frame? id).map Frame.handles = (σ.frame? id).map Frame.handles := by
  unfold link
  split
  · rw [Store.handles_relink, Store.handles_relink]
  · rw [Store.handles_relink]

theorem size_link (layers : Layers) (top : FrameId) (σ : Store) :
    (layers.link top σ).frames.size = σ.frames.size := by
  unfold link
  split <;> simp [Store.relink, Store.modifyFrame]

theorem cells_link (layers : Layers) (top : FrameId) (σ : Store) :
    (layers.link top σ).cells = σ.cells := by
  unfold link
  split <;> rfl

theorem nextIdentity_link (layers : Layers) (top : FrameId) (σ : Store) :
    (layers.link top σ).nextIdentity = σ.nextIdentity := by
  unfold link
  split <;> rfl

/-- Above the layers are the layers and the new frame; elsewhere the parents are what they were. -/
theorem parent?_link {top id parent : FrameId} (h : (layers.link top σ).parent? id = some parent) :
    parent = top ∨ layers.upper? = some parent ∨
      id ≠ layers.bindings ∧ layers.upper? ≠ some id ∧ σ.parent? id = some parent := by
  have relinked : ∀ {τ : Store} {above : FrameId}, (τ.relink id (some above)).parent? id = some parent →
      parent = above := by
    intro τ above h
    by_cases halive : τ.isAlive id
    · rw [Store.parent?_relink halive] at h
      exact (Option.some.inj h).symm
    · rw [Store.parent?_eq_none_of_not_isAlive (by rwa [Store.isAlive_relink])] at h
      exact absurd h (by simp)
  unfold link at h
  cases hupper : layers.upper? with
  | some upper =>
    rw [hupper] at h
    dsimp only at h
    by_cases hid : layers.bindings = id
    · subst hid
      obtain rfl := relinked h
      exact Or.inr (Or.inl rfl)
    · rw [Store.parent?_relink_of_ne hid] at h
      by_cases hid' : upper = id
      · subst hid'
        exact Or.inl (relinked h)
      · rw [Store.parent?_relink_of_ne hid'] at h
        exact Or.inr (Or.inr ⟨Ne.symm hid, fun h => hid' (Option.some.inj h), h⟩)
  | none =>
    rw [hupper] at h
    dsimp only at h
    by_cases hid : layers.bindings = id
    · subst hid
      exact Or.inl (relinked h)
    · rw [Store.parent?_relink_of_ne hid] at h
      exact Or.inr (Or.inr ⟨Ne.symm hid, by simp, h⟩)

theorem parent?_link_of_ne {top id : FrameId} (hid : id ≠ layers.bindings)
    (hid' : layers.upper? ≠ some id) : (layers.link top σ).parent? id = σ.parent? id := by
  unfold link
  split
  · rename_i upper hupper
    have hne : upper ≠ id := by
      rintro rfl
      exact hid' hupper
    rw [Store.parent?_relink_of_ne (Ne.symm hid), Store.parent?_relink_of_ne hne]
  · rw [Store.parent?_relink_of_ne (Ne.symm hid)]

theorem bindings_restore (parents : List (FrameId × Option FrameId)) (σ : Store) (id : FrameId) :
    (restore parents σ).bindings id = σ.bindings id := by
  induction parents with
  | nil => rfl
  | cons first rest ih => exact (Store.bindings_relink _ _ _ _).trans ih

theorem cells_restore (parents : List (FrameId × Option FrameId)) (σ : Store) :
    (restore parents σ).cells = σ.cells := by
  induction parents with
  | nil => rfl
  | cons first rest ih => exact ih

theorem frame?_restore {parents : List (FrameId × Option FrameId)} {σ : Store} {id : FrameId}
    (h : ∀ frame ∈ parents, frame.1 ≠ id) : (restore parents σ).frame? id = σ.frame? id := by
  induction parents with
  | nil => rfl
  | cons first rest ih =>
    rw [List.forall_mem_cons] at h
    exact (Store.frame?_relink _ _ _ _).trans ((if_neg h.1).trans (ih h.2))

theorem nextIdentity_restore (parents : List (FrameId × Option FrameId)) (σ : Store) :
    (restore parents σ).nextIdentity = σ.nextIdentity := by
  induction parents with
  | nil => rfl
  | cons first rest ih => exact ih

theorem size_restore (parents : List (FrameId × Option FrameId)) (σ : Store) :
    (restore parents σ).frames.size = σ.frames.size := by
  induction parents with
  | nil => rfl
  | cons first rest ih => exact (Array.size_modify ..).trans ih

theorem handles_restore (parents : List (FrameId × Option FrameId)) (σ : Store) (id : FrameId) :
    ((restore parents σ).frame? id).map Frame.handles = (σ.frame? id).map Frame.handles := by
  induction parents with
  | nil => rfl
  | cons first rest ih => exact (Store.handles_relink _ _ _ _).trans ih

theorem isAlive_restore (parents : List (FrameId × Option FrameId)) (σ : Store) (id : FrameId) :
    (restore parents σ).isAlive id = σ.isAlive id := by
  have hsome := congrArg Option.isSome (handles_restore parents σ id)
  rwa [Option.isSome_map, Option.isSome_map] at hsome

theorem parent?_restore {id : FrameId} (halive : σ.isAlive id) (ids : List FrameId)
    (parent : FrameId → Option FrameId) :
    (restore (ids.map fun frame => (frame, parent frame)) σ).parent? id =
      if id ∈ ids then parent id else σ.parent? id := by
  induction ids with
  | nil => rfl
  | cons first rest ih =>
    change ((restore (rest.map fun frame => (frame, parent frame)) σ).relink first
      (parent first)).parent? id = _
    by_cases hfirst : first = id
    · subst hfirst
      rw [Store.parent?_relink (by rwa [isAlive_restore]), if_pos List.mem_cons_self]
    · rw [Store.parent?_relink_of_ne hfirst, ih]
      simp [Ne.symm hfirst]

theorem mem_parents {frame : FrameId × Option FrameId} (h : frame ∈ layers.parents σ) :
    frame.1 = layers.bindings ∨ layers.upper? = some frame.1 := by
  obtain ⟨id, hid, rfl⟩ := List.mem_map.mp h
  rcases List.mem_append.mp hid with hid | hid
  · exact Or.inr (by simpa using hid)
  · exact Or.inl (by simpa using hid)

theorem globals_of_upper? {upper : FrameId} (h : layers.upper? = some upper) :
    layers.globals = some upper := by
  unfold upper? at h
  cases hglobals : layers.globals with
  | none =>
    rw [hglobals] at h
    exact absurd h (by simp)
  | some globals =>
    rw [hglobals, Option.filter_some] at h
    split at h
    · exact h
    · exact absurd h (by simp)

end Layers

namespace Machine

variable {m : Machine} {layers : Layers}

theorem size_begin (layers : Layers) (m : Machine) :
    (m.begin layers).2.store.frames.size = m.store.frames.size + 1 := by
  have hnatives := Store.furnishes_installNatives m.store.newRoot.2 m.store.newRoot.1
  have hroot : m.store.newRoot.2.frames.size = m.store.frames.size + 1 := by
    simp [Store.newRoot, Store.addFrame]
  rw [← hroot, ← hnatives.size]
  exact Layers.size_link layers _ _

theorem frame?_begin_new {id : FrameId} (hid : m.store.frames.size + 1 ≤ id) :
    (m.begin layers).2.store.frame? id = none :=
  Store.frame?_eq_none (Nat.le_trans (Nat.le_of_eq (size_begin layers m)) hid)

theorem cells_begin (layers : Layers) (m : Machine) :
    (m.begin layers).2.store.cells = m.store.cells :=
  (Layers.cells_link layers _ _).trans (Store.furnishes_installNatives _ _).cells

theorem nextIdentity_le_begin (layers : Layers) (m : Machine) :
    m.store.nextIdentity ≤ (m.begin layers).2.store.nextIdentity := by
  have hlink := Layers.nextIdentity_link layers m.store.newRoot.1
    (m.store.newRoot.2.installNatives m.store.newRoot.1)
  exact Nat.le_trans (Store.furnishes_installNatives m.store.newRoot.2 m.store.newRoot.1).identities
    (Nat.le_of_eq hlink.symm)

theorem bindings_begin (layers : Layers) {id : FrameId} (hid : id ≠ m.store.frames.size) :
    (m.begin layers).2.store.bindings id = m.store.bindings id := by
  have hnatives := Store.furnishes_installNatives m.store.newRoot.2 m.store.newRoot.1
  refine (Layers.bindings_link layers _ _ id).trans ((hnatives.bindings id hid).trans ?_)
  unfold Store.newRoot
  rw [Store.bindings_addFrame, if_neg hid]

theorem native_of_bindings_begin {entry : String × Value}
    (h : entry ∈ (m.begin layers).2.store.bindings m.store.frames.size) :
    ∃ f, entry.2 = .native f := by
  have hnatives := Store.furnishes_installNatives m.store.newRoot.2 m.store.newRoot.1
  have hentry : entry ∈
      (m.store.newRoot.2.installNatives m.store.newRoot.1).bindings m.store.newRoot.1 := by
    rw [← Layers.bindings_link layers m.store.newRoot.1]
    exact h
  rcases hnatives.natives entry hentry with hentry | hnative
  · have hempty : m.store.newRoot.2.bindings m.store.newRoot.1 = [] :=
      (Store.bindings_addFrame m.store _ _).trans (if_pos rfl)
    rw [hempty] at hentry
    exact absurd hentry (by simp)
  · exact hnative

theorem mem_bindings_begin {id : FrameId} {entry : String × Value}
    (h : entry ∈ (m.begin layers).2.store.bindings id) :
    entry ∈ m.store.bindings id ∨ ∃ f, entry.2 = .native f := by
  by_cases htop : id = m.store.frames.size
  · subst htop
    exact Or.inr (native_of_bindings_begin h)
  · rw [bindings_begin layers htop] at h
    exact Or.inl h

/-- When a run begins no script function has come. -/
theorem function_of_bindings_begin {id : FrameId} {name : String} {f : Closure}
    (h : (name, .function f) ∈ (m.begin layers).2.store.bindings id) :
    (name, .function f) ∈ m.store.bindings id := by
  rcases mem_bindings_begin h with hold | ⟨g, hg⟩
  · exact hold
  · exact absurd hg (by simp)

theorem handles_begin (layers : Layers) {id : FrameId} (hid : id ≠ m.store.frames.size) :
    ((m.begin layers).2.store.frame? id).map Frame.handles =
      (m.store.frame? id).map Frame.handles := by
  have hnatives := Store.furnishes_installNatives m.store.newRoot.2 m.store.newRoot.1
  have hlinks := congrArg (Option.map Prod.snd) (hnatives.links id)
  rw [Option.map_map, Option.map_map] at hlinks
  refine (Layers.handles_link layers _ _ id).trans (hlinks.trans ?_)
  unfold Store.newRoot
  rw [Store.frame?_addFrame, if_neg hid]
  rfl

theorem parent?_installed (m : Machine) {id : FrameId} (hid : id ≠ m.store.frames.size) :
    (m.store.newRoot.2.installNatives m.store.newRoot.1).parent? id = m.store.parent? id := by
  have hlinks := (Store.furnishes_installNatives m.store.newRoot.2 m.store.newRoot.1).links id
  have hroot : m.store.newRoot.2.frame? id = m.store.frame? id := by
    unfold Store.newRoot
    rw [Store.frame?_addFrame, if_neg hid]
  rw [hroot] at hlinks
  have hparent := congrArg (fun o => (o.map Prod.fst).join) hlinks
  unfold Store.parent?
  cases h : m.store.frame? id <;>
    cases h' : (m.store.newRoot.2.installNatives m.store.newRoot.1).frame? id <;>
      simp_all [Frame.links]

theorem parent?_begin_of_ne {id : FrameId} (htop : id ≠ m.store.frames.size)
    (hid : id ≠ layers.bindings) (hid' : layers.upper? ≠ some id) :
    (m.begin layers).2.store.parent? id = m.store.parent? id :=
  (Layers.parent?_link_of_ne hid hid').trans (parent?_installed m htop)

theorem parent?_begin {id parent : FrameId}
    (h : (m.begin layers).2.store.parent? id = some parent) :
    parent = m.store.frames.size ∨ layers.upper? = some parent ∨
      id ≠ layers.bindings ∧ layers.upper? ≠ some id ∧ m.store.parent? id = some parent := by
  rcases Layers.parent?_link h with h | h | ⟨hid, hid', h⟩
  · exact Or.inl h
  · exact Or.inr (Or.inl h)
  · by_cases htop : id = m.store.frames.size
    · subst htop
      have hlinks := (Store.furnishes_installNatives m.store.newRoot.2 m.store.newRoot.1).links
        m.store.frames.size
      have hroot : m.store.newRoot.2.frame? m.store.frames.size = some ⟨[], none, 1⟩ := by
        unfold Store.newRoot
        rw [Store.frame?_addFrame, if_pos rfl]
      rw [hroot] at hlinks
      obtain ⟨frame, hframe, hlinks⟩ := Option.map_eq_some_iff.mp hlinks
      have hparent : frame.parent = some parent := by
        have h : ((m.store.newRoot.2.installNatives m.store.newRoot.1).frame?
            m.store.frames.size).bind Frame.parent = some parent := h
        rwa [hframe] at h
      exact absurd (congrArg Prod.fst hlinks) (by simp [Frame.links, hparent])
    · exact Or.inr (Or.inr ⟨hid, hid', (parent?_installed m htop).symm.trans h⟩)

/-- The frames that are no layers do not notice the run. -/
theorem frame?_begin {id : FrameId} (htop : id ≠ m.store.frames.size) (hid : id ≠ layers.bindings)
    (hid' : layers.upper? ≠ some id) : (m.begin layers).2.store.frame? id = m.store.frame? id := by
  have hlinks := Store.links_eq (handles_begin layers htop) (parent?_begin_of_ne htop hid hid')
  exact Store.frame?_eq hlinks (bindings_begin layers htop)

/-- When what a run made is gone and the layers are unlinked, the frames from before the run are what
they were, and there are no others. -/
theorem settles_unlink {σ : Store} (h : (m.begin layers).2.store.Settles σ) :
    m.store.Settles ((Layers.restore (layers.parents m.store) σ).dropFrame m.store.frames.size) := by
  have hsize := size_begin layers m
  have hdropped : ∀ id, id ≠ m.store.frames.size →
      ((Layers.restore (layers.parents m.store) σ).dropFrame m.store.frames.size).frame? id =
        (Layers.restore (layers.parents m.store) σ).frame? id := by
    intro id hid
    rw [Store.frame?_dropFrame, if_neg (Ne.symm hid)]
  refine ⟨⟨?_, fun id hid => ?_⟩, fun id hid => ?_⟩
  · have hrun := h.size
    simp only [Store.dropFrame, Array.size_setIfInBounds, Layers.size_restore]
    omega
  · have htop := Nat.ne_of_lt hid
    have hid' : id < (m.begin layers).2.store.frames.size := by omega
    have hhandles : (σ.frame? id).map Frame.handles = (m.store.frame? id).map Frame.handles := by
      have hsame := congrArg (Option.map Prod.snd) (h.same id hid')
      rw [Option.map_map, Option.map_map] at hsame
      exact hsame.trans (handles_begin layers htop)
    rw [hdropped id htop]
    refine Store.links_eq ((Layers.handles_restore _ _ _).trans hhandles) ?_
    have hsome := congrArg Option.isSome hhandles
    rw [Option.isSome_map, Option.isSome_map] at hsome
    by_cases halive : σ.isAlive id
    · refine (Layers.parent?_restore halive _ m.store.parent?).trans ?_
      split
      · rfl
      · rename_i hlayers
        rw [h.parent? hid']
        refine parent?_begin_of_ne htop ?_ ?_
        · rintro rfl
          exact hlayers (by simp)
        · intro hupper
          exact hlayers (by simp [hupper])
    · have halive' : ¬ m.store.isAlive id := by
        unfold Store.isAlive
        rwa [← hsome]
      rw [Store.parent?_eq_none_of_not_isAlive halive',
        Store.parent?_eq_none_of_not_isAlive (by rwa [Layers.isAlive_restore])]
  · by_cases htop : id = m.store.frames.size
    · rw [htop, Store.frame?_dropFrame, if_pos rfl]
    · have hgone := Layers.handles_restore (layers.parents m.store) σ id
      rw [h.gone id (by omega)] at hgone
      rw [hdropped id htop]
      simpa using hgone

end Machine

end ScriptEngine
