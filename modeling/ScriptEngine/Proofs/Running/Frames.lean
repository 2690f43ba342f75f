import ScriptEngine.Store.Scope

/-!
Frames across a run. Whatever a part of a script does, the frames that were there keep their parents
and their handles, and the frames that it made are gone when it ends; only bindings change.
-/
namespace ScriptEngine

/-- What a frame is apart from its bindings. -/
def Frame.links (frame : Frame) : Option FrameId × Nat := (frame.parent, frame.handles)

namespace Entries

variable {α : Type}

theorem mem_of_get? {name : String} {a : α} {entries : Entries α} (h : get? name entries = some a) :
    (name, a) ∈ entries := by
  induction entries with
  | nil => simp [get?] at h
  | cons entry rest ih =>
    obtain ⟨n, b⟩ := entry
    rw [get?] at h
    split at h
    · rename_i hn
      subst hn
      obtain rfl := Option.some.inj h
      exact List.mem_cons_self
    · exact List.mem_cons_of_mem _ (ih h)

theorem mem_put {name : String} {a : α} {entry : String × α} {entries : Entries α}
    (h : entry ∈ put name a entries) : entry = (name, a) ∨ entry ∈ entries := by
  induction entries with
  | nil => exact Or.inl (by simpa [put] using h)
  | cons first rest ih =>
    obtain ⟨n, b⟩ := first
    rw [put] at h
    split at h
    · rename_i hn
      subst hn
      rcases List.mem_cons.mp h with h | h
      · exact Or.inl h
      · exact Or.inr (List.mem_cons_of_mem _ h)
    · rcases List.mem_cons.mp h with h | h
      · exact Or.inr (h ▸ List.mem_cons_self)
      · rcases ih h with h | h
        · exact Or.inl h
        · exact Or.inr (List.mem_cons_of_mem _ h)

/-- The names are the old ones in their order, then others, each once. -/
def Grows (old new : Entries α) : Prop :=
  ∃ more, names new = names old ++ more ∧ more.Nodup ∧ ∀ name ∈ more, name ∉ names old

theorem Grows.refl (entries : Entries α) : Grows entries entries := ⟨[], by simp⟩

theorem Grows.trans {first second third : Entries α} (h : Grows first second)
    (h' : Grows second third) : Grows first third := by
  obtain ⟨more, hmore, hnodup, hnew⟩ := h
  obtain ⟨more', hmore', hnodup', hnew'⟩ := h'
  have hapart : ∀ name ∈ more', name ∉ names first ∧ name ∉ more := by
    intro name hname
    have hfree := hnew' name hname
    rw [hmore, List.mem_append, not_or] at hfree
    exact hfree
  refine ⟨more ++ more', by rw [hmore', hmore, List.append_assoc], ?_, fun name hname => ?_⟩
  · rw [List.nodup_append]
    exact ⟨hnodup, hnodup', fun name hname other hother heq =>
      (hapart other hother).2 (heq ▸ hname)⟩
  · rcases List.mem_append.mp hname with hname | hname
    · exact hnew name hname
    · exact (hapart name hname).1

theorem Grows.mem {old new : Entries α} (h : Grows old new) {name : String}
    (hname : name ∈ names old) : name ∈ names new := by
  obtain ⟨more, hmore, -⟩ := h
  rw [hmore]
  exact List.mem_append_left _ hname

theorem grows_put (name : String) (a : α) (entries : Entries α) :
    Grows entries (put name a entries) := by
  unfold Grows
  rw [names_put]
  by_cases h : name ∈ names entries
  · rw [if_pos h]
    exact ⟨[], by simp⟩
  · rw [if_neg h]
    exact ⟨[name], rfl, by simp, fun other hother => by rwa [List.mem_singleton.mp hother]⟩

theorem get?_put (name other : String) (a : α) (entries : Entries α) :
    get? other (put name a entries) = if other = name then some a else get? other entries := by
  by_cases h : other = name
  · rw [if_pos h, h, get?_put_self]
  · rw [if_neg h, get?_put_of_ne h]

end Entries

namespace Store

variable {σ σ' σ'' : Store}

/-! Frames after a change -/

theorem bindings_addFrame (σ : Store) (frame : Frame) (id : FrameId) :
    (σ.addFrame frame).2.bindings id =
      if id = σ.frames.size then frame.bindings else σ.bindings id := by
  unfold bindings
  rw [frame?_addFrame]
  by_cases h : id = σ.frames.size
  · simp only [if_pos h]
  · simp only [if_neg h]

theorem bindings_dropFrame (σ : Store) (id other : FrameId) :
    (σ.dropFrame id).bindings other = if id = other then [] else σ.bindings other := by
  unfold bindings
  rw [frame?_dropFrame]
  by_cases h : id = other
  · simp only [if_pos h]
  · simp only [if_neg h]

theorem mem_bindings_dropFrame {id other : FrameId} {entry : String × Value}
    (h : entry ∈ (σ.dropFrame id).bindings other) : entry ∈ σ.bindings other := by
  rw [bindings_dropFrame] at h
  split at h
  · exact absurd h (by simp)
  · exact h

theorem mem_bindings_setLocal {id other : FrameId} {name : String} {v : Value}
    {entry : String × Value} (h : entry ∈ (σ.setLocal id name v).bindings other) :
    id = other ∧ entry = (name, v) ∨ entry ∈ σ.bindings other := by
  unfold bindings setLocal at h
  rw [frame?_modifyFrame] at h
  by_cases hid : id = other
  · rw [if_pos hid] at h
    unfold bindings
    cases hframe : σ.frame? other with
    | none =>
      rw [hframe] at h
      exact absurd h (by simp)
    | some frame =>
      rw [hframe] at h
      rcases Entries.mem_put h with h | h
      · exact Or.inl ⟨hid, h⟩
      · exact Or.inr h
  · rw [if_neg hid] at h
    exact Or.inr h

theorem grows_setLocal (σ : Store) (id other : FrameId) (name : String) (v : Value) :
    (σ.bindings other).Grows ((σ.setLocal id name v).bindings other) := by
  unfold bindings setLocal
  rw [frame?_modifyFrame]
  by_cases hid : id = other
  · rw [if_pos hid]
    cases σ.frame? other with
    | none => exact .refl _
    | some frame => exact Entries.grows_put name v frame.bindings
  · rw [if_neg hid]
    exact .refl _

theorem frame?_eq_none {id : FrameId} (h : σ.frames.size ≤ id) : σ.frame? id = none := by
  unfold frame?
  rw [Array.getElem?_eq_none h]
  rfl

theorem lt_size_of_isAlive {id : FrameId} (h : σ.isAlive id) : id < σ.frames.size := by
  apply Nat.lt_of_not_le
  intro hle
  rw [isAlive, frame?_eq_none hle] at h
  exact absurd h (by simp)

theorem isAlive_of_mem_bindings {id : FrameId} {entry : String × Value}
    (h : entry ∈ σ.bindings id) : σ.isAlive id := by
  unfold bindings at h
  unfold isAlive
  cases hframe : σ.frame? id with
  | none =>
    rw [hframe] at h
    exact absurd h (by simp)
  | some frame => rfl

theorem isAlive_of_getLocal? {id : FrameId} {name : String} {v : Value}
    (h : σ.getLocal? id name = some v) : σ.isAlive id :=
  isAlive_of_mem_bindings (Entries.mem_of_get? h)

theorem isAlive_of_parent? {id parent : FrameId} (h : σ.parent? id = some parent) : σ.isAlive id := by
  unfold isAlive
  unfold parent? at h
  cases hframe : σ.frame? id with
  | none =>
    rw [hframe] at h
    exact absurd h (by simp)
  | some frame => rfl

theorem getLocal?_congr {id : FrameId} (h : σ'.frame? id = σ.frame? id) (name : String) :
    σ'.getLocal? id name = σ.getLocal? id name := by
  unfold getLocal? bindings
  rw [h]

theorem getLocal?_setLocal {id other : FrameId} (halive : σ.isAlive id) (name name' : String)
    (v : Value) :
    (σ.setLocal id name v).getLocal? other name' =
      if id = other ∧ name' = name then some v else σ.getLocal? other name' := by
  unfold getLocal?
  by_cases hid : id = other
  · subst hid
    rw [bindings_setLocal halive, Entries.get?_put]
    simp
  · rw [bindings_setLocal_of_ne hid, if_neg (by simp [hid])]

/-! Frames below others -/

theorem size_newChild (σ : Store) (parent : FrameId) :
    (σ.newChild parent).2.frames.size = σ.frames.size + 1 := by
  simp [newChild, addFrame]

theorem frame?_newChild_self (σ : Store) (parent : FrameId) :
    (σ.newChild parent).2.frame? σ.frames.size = some ⟨[], some parent, 1⟩ := by
  unfold newChild
  rw [frame?_addFrame, if_pos rfl]

theorem frame?_newChild {id : FrameId} (hid : id ≠ σ.frames.size) (parent : FrameId) :
    (σ.newChild parent).2.frame? id = σ.frame? id := by
  unfold newChild
  rw [frame?_addFrame, if_neg hid]

theorem bindings_newChild {id : FrameId} (hid : id ≠ σ.frames.size) (parent : FrameId) :
    (σ.newChild parent).2.bindings id = σ.bindings id := by
  unfold bindings
  rw [frame?_newChild hid]

theorem mem_bindings_newChild {parent id : FrameId} {entry : String × Value}
    (h : entry ∈ (σ.newChild parent).2.bindings id) : entry ∈ σ.bindings id := by
  unfold newChild at h
  rw [bindings_addFrame] at h
  split at h
  · exact absurd h (by simp)
  · exact h

/-! The same frames -/

/-- The frames of `σ` are in `σ'` what they were, apart from their bindings. -/
structure Extends (σ σ' : Store) : Prop where
  size : σ.frames.size ≤ σ'.frames.size
  same : ∀ id, id < σ.frames.size → (σ'.frame? id).map Frame.links = (σ.frame? id).map Frame.links

/-- And the frames that came after them are gone. -/
structure Settles (σ σ' : Store) : Prop extends σ.Extends σ' where
  gone : ∀ id, σ.frames.size ≤ id → σ'.frame? id = none

theorem Extends.refl (σ : Store) : σ.Extends σ := ⟨Nat.le_refl _, fun _ _ => rfl⟩

theorem Extends.trans (h : σ.Extends σ') (h' : σ'.Extends σ'') : σ.Extends σ'' := by
  refine ⟨Nat.le_trans h.size h'.size, fun id hid => ?_⟩
  rw [h'.same id (Nat.lt_of_lt_of_le hid h.size), h.same id hid]

theorem Settles.refl (σ : Store) : σ.Settles σ :=
  ⟨Extends.refl σ, fun _ hid => frame?_eq_none hid⟩

theorem Settles.trans (h : σ.Settles σ') (h' : σ'.Settles σ'') : σ.Settles σ'' := by
  refine ⟨h.toExtends.trans h'.toExtends, fun id hid => ?_⟩
  by_cases hid' : id < σ'.frames.size
  · have hsame := h'.same id hid'
    rw [h.gone id hid] at hsame
    simpa using hsame
  · exact h'.gone id (by omega)

theorem Extends.isAlive (h : σ.Extends σ') {id : FrameId} (hid : id < σ.frames.size) :
    σ'.isAlive id = σ.isAlive id := by
  have hsame := congrArg Option.isSome (h.same id hid)
  simpa [Store.isAlive] using hsame

theorem Extends.isAlive_of (h : σ.Extends σ') {id : FrameId} (hid : σ.isAlive id) :
    σ'.isAlive id := by
  rw [h.isAlive (lt_size_of_isAlive hid)]
  exact hid

theorem parent?_congr {id : FrameId}
    (h : (σ'.frame? id).map Frame.links = (σ.frame? id).map Frame.links) :
    σ'.parent? id = σ.parent? id := by
  unfold Store.parent?
  cases h₁ : σ'.frame? id <;> cases h₂ : σ.frame? id <;> simp_all [Frame.links]

theorem Extends.parent? (h : σ.Extends σ') {id : FrameId} (hid : id < σ.frames.size) :
    σ'.parent? id = σ.parent? id :=
  parent?_congr (h.same id hid)

theorem extends_newChild (σ : Store) (parent : FrameId) : σ.Extends (σ.newChild parent).2 := by
  refine ⟨?_, fun id hid => ?_⟩
  · rw [size_newChild]
    omega
  · rw [frame?_newChild (Nat.ne_of_lt hid)]

theorem Settles.dropFrame {parent : FrameId} (h : (σ.newChild parent).2.Settles σ') :
    σ.Settles (σ'.dropFrame σ.frames.size) := by
  have hway := (σ.extends_newChild parent).trans h.toExtends
  refine ⟨⟨?_, fun id hid => ?_⟩, fun id hid => ?_⟩
  · simpa [Store.dropFrame] using hway.size
  · rw [frame?_dropFrame, if_neg (Nat.ne_of_gt hid), hway.same id hid]
  · rw [frame?_dropFrame]
    split
    · rfl
    · rename_i hne
      have hlt : σ.frames.size < id := Nat.lt_of_le_of_ne hid hne
      refine h.gone id ?_
      rw [size_newChild]
      exact hlt

/-- A change of the bindings. -/
theorem settles_modifyFrame (σ : Store) (id : FrameId) {f : Frame → Frame}
    (hf : ∀ frame, (f frame).links = frame.links) : σ.Settles (σ.modifyFrame id f) := by
  have hsize : (σ.modifyFrame id f).frames.size = σ.frames.size := Array.size_modify ..
  refine ⟨⟨Nat.le_of_eq hsize.symm, fun other _ => ?_⟩, fun other hother => ?_⟩
  · rw [frame?_modifyFrame]
    by_cases hid : id = other
    · rw [if_pos hid, Option.map_map]
      exact congrFun (congrArg Option.map (funext hf)) _
    · rw [if_neg hid]
  · exact frame?_eq_none (hsize ▸ hother)

end Store

end ScriptEngine
