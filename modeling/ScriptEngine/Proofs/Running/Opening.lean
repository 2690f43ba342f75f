import ScriptEngine.Proofs.Running.Image
import ScriptEngine.Proofs.Running.Layers
import ScriptEngine.Proofs.Running.Names

/-!
The machine at the beginning and after the end of a run, frame by frame. The new frame binds the
standard functions, numbered in their order, and the layers lie one below the other under it. What was
made before a run and what is made in it can be told apart by the numbers.
-/
namespace ScriptEngine

theorem Entries.put_of_not_mem {α : Type} {name : String} (a : α) {entries : Entries α}
    (h : name ∉ entries.names) : entries.put name a = entries ++ [(name, a)] := by
  induction entries with
  | nil => rfl
  | cons entry rest ih =>
    obtain ⟨n, b⟩ := entry
    have hne : n ≠ name := fun hsame => h (by simp [names, hsame])
    have hrest : name ∉ names rest := fun hmem => h (List.mem_cons_of_mem _ hmem)
    rw [put, if_neg hne, ih hrest, List.cons_append]

namespace Store

/-- The standard functions with their names, numbered from here on. -/
def standardEntries (first : Nat) : Entries Value :=
  standardNatives.mapIdx fun i native =>
    (native.1, .native ⟨first + i, native.1, native.2.1, native.2.2⟩)

theorem bindings_foldl_newNative {frame : FrameId}
    (natives : List (String × List String × NativeAction)) :
    ∀ {σ : Store}, σ.isAlive frame → (natives.map Prod.fst).Nodup →
      (∀ native ∈ natives, native.1 ∉ σ.localNames frame) →
      (natives.foldl (fun σ native =>
        let (v, σ) := σ.newNative native.1 native.2.1 native.2.2
        σ.setLocal frame native.1 v) σ).bindings frame =
      σ.bindings frame ++ natives.mapIdx fun i native =>
        (native.1, .native ⟨σ.nextIdentity + i, native.1, native.2.1, native.2.2⟩) := by
  induction natives with
  | nil => exact fun _ _ _ => (List.append_nil _).symm
  | cons native rest ih =>
    intro σ halive hnodup hfree
    rw [List.map_cons, List.nodup_cons] at hnodup
    rw [List.forall_mem_cons] at hfree
    let σ' := (σ.newNative native.1 native.2.1 native.2.2).2.setLocal frame native.1
      (σ.newNative native.1 native.2.1 native.2.2).1
    have hbound : σ'.bindings frame = σ.bindings frame ++
        [(native.1, .native ⟨σ.nextIdentity, native.1, native.2.1, native.2.2⟩)] :=
      (bindings_setLocal (σ := (σ.newNative _ _ _).2) halive _ _).trans (Entries.put_of_not_mem _ hfree.1)
    have hfree' : ∀ other ∈ rest, other.1 ∉ σ'.localNames frame := by
      intro other hother hmem
      rw [localNames, hbound, Entries.names, List.map_append, List.mem_append] at hmem
      rcases hmem with hmem | hmem
      · exact hfree.2 other hother hmem
      · have hsame : other.1 = native.1 := by simpa using hmem
        exact hnodup.1 (hsame ▸ List.mem_map_of_mem hother)
    have hrest := ih (σ := σ') ((isAlive_setLocal ..).trans halive) hnodup.2 hfree'
    rw [List.foldl_cons, List.mapIdx_cons]
    refine hrest.trans ?_
    rw [hbound, List.append_assoc]
    refine congrArg (σ.bindings frame ++ ·) (congrArg (List.cons _) ?_)
    refine congrArg (List.mapIdx · rest) (funext fun i => funext fun other => ?_)
    rw [show σ'.nextIdentity + i = σ.nextIdentity + (i + 1) from Nat.add_right_comm _ 1 i]

theorem nextIdentity_installNatives (σ : Store) (frame : FrameId) :
    (σ.installNatives frame).nextIdentity = σ.nextIdentity + standardNatives.length := by
  unfold installNatives
  generalize standardNatives = natives
  induction natives generalizing σ with
  | nil => rfl
  | cons native rest ih => exact (ih _).trans (Nat.add_right_comm _ 1 rest.length)

theorem bindings_installNatives {σ : Store} {frame : FrameId} (halive : σ.isAlive frame)
    (hempty : σ.bindings frame = []) :
    (σ.installNatives frame).bindings frame = standardEntries σ.nextIdentity := by
  refine (bindings_foldl_newNative standardNatives halive (by decide) ?_).trans ?_
  · intro native _
    rw [localNames, hempty]
    exact List.not_mem_nil
  · rw [hempty]
    rfl

end Store

namespace Machine

variable {m : Machine} {layers : Layers}

theorem nextIdentity_begin (layers : Layers) (m : Machine) :
    (m.begin layers).2.store.nextIdentity =
      m.store.nextIdentity + Store.standardNatives.length :=
  (Layers.nextIdentity_link layers _ _).trans (Store.nextIdentity_installNatives _ _)

theorem bindings_begin_top (layers : Layers) (m : Machine) :
    (m.begin layers).2.store.bindings m.store.frames.size =
      Store.standardEntries m.store.nextIdentity := by
  have hroot : m.store.newRoot.2.frame? m.store.frames.size = some ⟨[], none, 1⟩ :=
    (Store.frame?_addFrame ..).trans (if_pos rfl)
  have halive : m.store.newRoot.2.isAlive m.store.frames.size := by
    rw [Store.isAlive, hroot]
    rfl
  have hempty : m.store.newRoot.2.bindings m.store.frames.size = [] := by
    rw [Store.bindings, hroot]
  exact (Layers.bindings_link layers _ _ _).trans (Store.bindings_installNatives halive hempty)

theorem isAlive_installed (m : Machine) (id : FrameId) :
    (m.store.newRoot.2.installNatives m.store.newRoot.1).isAlive id =
      if id = m.store.frames.size then true else m.store.isAlive id := by
  have hlinks := congrArg Option.isSome
    ((Store.furnishes_installNatives m.store.newRoot.2 m.store.newRoot.1).links id)
  rw [Option.isSome_map, Option.isSome_map] at hlinks
  refine hlinks.trans ?_
  unfold Store.newRoot
  rw [Store.frame?_addFrame]
  split <;> rfl

theorem isAlive_begin (layers : Layers) (m : Machine) (id : FrameId) :
    (m.begin layers).2.store.isAlive id = if id = m.store.frames.size then true
      else m.store.isAlive id := by
  have hlinked := congrArg Option.isSome (Layers.handles_link layers m.store.newRoot.1
    (m.store.newRoot.2.installNatives m.store.newRoot.1) id)
  rw [Option.isSome_map, Option.isSome_map] at hlinked
  exact hlinked.trans (m.isAlive_installed id)

end Machine

namespace Layers

variable {layers : Layers}

/-- The frames of the layers are there. -/
structure Alive (layers : Layers) (σ : Store) : Prop where
  bindings : σ.isAlive layers.bindings
  upper : ∀ upper, layers.upper? = some upper → σ.isAlive upper

theorem Alive.settles {σ σ' : Store} (h : layers.Alive σ) (hσ : σ.Settles σ') : layers.Alive σ' := by
  refine ⟨?_, fun upper hupper => ?_⟩
  · rw [hσ.isAlive]
    exact h.bindings
  · rw [hσ.isAlive]
    exact h.upper upper hupper

/-- What lies above a frame when the layers are linked below this one. -/
def parentBelow (layers : Layers) (top : FrameId) (σ : Store) (id : FrameId) : Option FrameId :=
  if id = layers.bindings then some (layers.upper?.getD top)
  else if layers.upper? = some id then some top
  else σ.parent? id

theorem upper?_ne {upper : FrameId} (h : layers.upper? = some upper) : upper ≠ layers.bindings := by
  unfold upper? at h
  simpa using (Option.filter_eq_some_iff.mp h).2

/-- What was never made has no parent. -/
theorem Alive.parentBelow_new {σ τ : Store} (h : layers.Alive σ) {id : FrameId}
    (hid : σ.frames.size ≤ id) (hgone : ∀ id, σ.frames.size ≤ id → τ.frame? id = none)
    (top : FrameId) : layers.parentBelow top τ id = none := by
  have hne : ∀ {frame}, σ.isAlive frame → id ≠ frame := fun halive =>
    Nat.ne_of_gt (Nat.lt_of_lt_of_le (Store.lt_size_of_isAlive halive) hid)
  have hupper : layers.upper? ≠ some id := fun hlayer => hne (h.upper id hlayer) rfl
  unfold parentBelow Store.parent?
  rw [if_neg (hne h.bindings), if_neg hupper, hgone id hid]
  rfl

theorem parent?_link_eq {σ : Store} (halive : layers.Alive σ) (top id : FrameId) :
    (layers.link top σ).parent? id = layers.parentBelow top σ id := by
  by_cases hid : id = layers.bindings
  · subst hid
    rw [parentBelow, if_pos rfl, link]
    cases hupper : layers.upper? with
    | none => exact Store.parent?_relink halive.bindings _
    | some upper =>
      refine Store.parent?_relink ?_ _
      rw [Store.isAlive_relink]
      exact halive.bindings
  · by_cases hupper : layers.upper? = some id
    · rw [parentBelow, if_neg hid, if_pos hupper, link, hupper]
      rw [Store.parent?_relink_of_ne (Ne.symm hid)]
      exact Store.parent?_relink (halive.upper id hupper) _
    · rw [parentBelow, if_neg hid, if_neg hupper]
      exact parent?_link_of_ne hid hupper

end Layers

namespace Machine

variable {m : Machine} {layers : Layers}

theorem parent?_begin_eq (halive : layers.Alive m.store) (id : FrameId) :
    (m.begin layers).2.store.parent? id =
      layers.parentBelow m.store.frames.size m.store id := by
  have hparent : (m.store.newRoot.2.installNatives m.store.newRoot.1).parent? id =
      m.store.parent? id := by
    by_cases htop : id = m.store.frames.size
    · subst htop
      have hlinks := (Store.furnishes_installNatives m.store.newRoot.2 m.store.newRoot.1).links
        m.store.frames.size
      have hroot : m.store.newRoot.2.parent? m.store.frames.size = none := by
        unfold Store.parent? Store.newRoot
        rw [Store.frame?_addFrame, if_pos rfl]
        rfl
      rw [Store.parent?_congr hlinks, hroot, Store.parent?, Store.frame?_eq_none (Nat.le_refl _)]
      rfl
    · exact parent?_installed m htop
  have hlasts : ∀ other, m.store.isAlive other →
      (m.store.newRoot.2.installNatives m.store.newRoot.1).isAlive other := by
    intro other hother
    rw [isAlive_installed]
    split
    · rfl
    · exact hother
  have halive' : layers.Alive (m.store.newRoot.2.installNatives m.store.newRoot.1) :=
    ⟨hlasts _ halive.bindings, fun upper hupper => hlasts _ (halive.upper upper hupper)⟩
  refine (Layers.parent?_link_eq halive' m.store.newRoot.1 id).trans ?_
  unfold Layers.parentBelow
  rw [hparent]
  rfl

/-- Whatever comes of a script, the frames from before are there, and there are no others. -/
theorem settles_script (limit fuel : Nat) (scope : FrameId) (body : List Stmt) (m : Machine) :
    m.store.Settles (conclude (Eval.script limit fuel scope .null body m)).2.store := by
  have hcode : Realm.whole.code scope (.stmts body) := trivial
  have hscript := Eval.keeps_script limit fuel body hcode .null (Realm.whole_holds m.store) trivial
  exact (Outcome.Keeps.conclude hscript).1.settles

/-! After the end -/

/-- What becomes of the store that a run has come to: the new frame is gone, and every frame has the
parent that it had. -/
def unlink (m : Machine) (layers : Layers) (σ : Store) : Store :=
  (Layers.restore (layers.parents m.store) σ).dropFrame m.store.frames.size

theorem run_eq (limit fuel : Nat) (layers : Layers) (program : Program) (m : Machine) :
    m.run limit fuel layers program =
      let (ending, ended) :=
        conclude (Eval.script limit fuel layers.bindings .null program.body (m.begin layers).2)
      (ending, { ended with store := m.unlink layers ended.store }) := rfl

theorem size_unlink (m : Machine) (layers : Layers) (σ : Store) :
    (m.unlink layers σ).frames.size = σ.frames.size := by
  unfold unlink
  rw [Store.size_dropFrame, Layers.size_restore]

theorem cells_unlink (m : Machine) (layers : Layers) (σ : Store) :
    (m.unlink layers σ).cells = σ.cells :=
  Layers.cells_restore _ _

theorem nextIdentity_unlink (m : Machine) (layers : Layers) (σ : Store) :
    (m.unlink layers σ).nextIdentity = σ.nextIdentity :=
  Layers.nextIdentity_restore _ _

theorem bindings_unlink (m : Machine) (layers : Layers) (σ : Store) (id : FrameId) :
    (m.unlink layers σ).bindings id = if m.store.frames.size = id then [] else σ.bindings id := by
  unfold unlink
  rw [Store.bindings_dropFrame, Layers.bindings_restore]

end Machine

end ScriptEngine
