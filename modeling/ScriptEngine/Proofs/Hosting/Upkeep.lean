import Mathlib.Data.Finset.Card
import Mathlib.Order.WellFoundedSet
import ScriptEngine.Proofs.Running.Ancestry
import ScriptEngine.Store.Ownership

/-!
What becomes of frames when links and handles change. A frame is kept by the handles on it and by the
frames below it; one that nothing keeps is taken away, which may leave the frame above it with nothing
that keeps it. As no frame is above itself, the frames that are there in the end are those to which one
comes by going up from a frame with a handle.
-/
namespace ScriptEngine.Store

variable {σ σ' : Store} {count count' : FrameId → Nat} {loose loose' : FrameId → Prop} {id : FrameId}

/-- The way from a frame goes up to the other, or they are the same. -/
def Rises (σ : Store) : FrameId → FrameId → Prop := Relation.ReflTransGen σ.Below

theorem hasChild_iff : σ.hasChild id ↔ ∃ child, σ.Below child id := by
  unfold hasChild Below parent? frame?
  rw [Array.any_eq_true]
  constructor
  · rintro ⟨child, hchild, hparent⟩
    refine ⟨child, ?_⟩
    rw [Array.getElem?_eq_getElem hchild]
    cases hframe : σ.frames[child] with
    | none =>
      rw [hframe] at hparent
      exact absurd hparent (by simp)
    | some frame =>
      rw [hframe] at hparent
      exact beq_iff_eq.mp hparent
  · rintro ⟨child, hparent⟩
    by_cases hchild : child < σ.frames.size
    · refine ⟨child, hchild, ?_⟩
      rw [Array.getElem?_eq_getElem hchild] at hparent
      cases hframe : σ.frames[child] with
      | none =>
        rw [hframe] at hparent
        exact absurd hparent (by simp)
      | some frame =>
        rw [hframe] at hparent
        exact beq_iff_eq.mpr hparent
    · rw [Array.getElem?_eq_none (Nat.le_of_not_lt hchild)] at hparent
      exact absurd hparent (by simp)

/-- There are as many handles on the frames as are counted, what lies above a frame is there, no frame is
above itself, and every frame that is not loose is kept by a handle or by a frame below it. -/
structure Tended (σ : Store) (count : FrameId → Nat) (loose : FrameId → Prop) : Prop where
  handles : ∀ id frame, σ.frame? id = some frame → frame.handles = count id
  held : ∀ id, count id ≠ 0 → σ.isAlive id
  parents : ∀ id parent, σ.Below id parent → σ.isAlive parent
  acyclic : σ.Acyclic
  kept : ∀ id, σ.isAlive id → ¬ loose id → count id ≠ 0 ∨ ∃ child, σ.Below child id

/-- Nothing is loose. -/
abbrev Kept (σ : Store) (count : FrameId → Nat) : Prop := σ.Tended count fun _ => False

theorem Tended.mono (h : σ.Tended count loose)
    (hloose : ∀ id, σ.isAlive id → loose id → loose' id ∨ count id ≠ 0 ∨ ∃ child, σ.Below child id) :
    σ.Tended count loose' := by
  refine ⟨h.handles, h.held, h.parents, h.acyclic, fun id hid hkept => ?_⟩
  by_cases hfree : loose id
  · exact (hloose id hid hfree).resolve_left hkept
  · exact h.kept id hid hfree

theorem Tended.isKept_iff (h : σ.Tended count loose) :
    σ.isKept id ↔ σ.isAlive id ∧ (count id ≠ 0 ∨ ∃ child, σ.Below child id) := by
  unfold isKept isAlive
  cases hframe : σ.frame? id with
  | none => simp
  | some frame => simp [h.handles id frame hframe, hasChild_iff]

theorem below_empty {child : FrameId} : ¬ Store.empty.Below child id := by
  simp [Below, parent?, frame?, Store.empty]

theorem kept_empty : Store.empty.Kept fun _ => 0 := by
  refine ⟨fun id frame hframe => ?_, fun _ h => absurd rfl h, fun _ _ h => absurd h below_empty,
    fun id hcycle => ?_, fun id hid => ?_⟩
  · exact absurd hframe (by simp [frame?, Store.empty])
  · obtain ⟨parent, hstep, -⟩ := Relation.TransGen.head'_iff.mp hcycle
    exact below_empty hstep
  · exact absurd hid (by simp [isAlive, frame?, Store.empty])

/-- The frames that are there are those to which one comes from the frames with handles. -/
theorem Tended.isAlive_iff (h : σ.Kept count) :
    σ.isAlive id ↔ ∃ holder, count holder ≠ 0 ∧ σ.Rises holder id := by
  constructor
  · have hirrefl : Std.Irrefl (Relation.TransGen σ.Below) := ⟨h.acyclic⟩
    have hstrict : IsStrictOrder FrameId (Relation.TransGen σ.Below) := {}
    have hdown : {id | σ.isAlive id}.WellFoundedOn (Relation.TransGen σ.Below) :=
      ((Set.finite_lt_nat σ.frames.size).subset fun _ hid => lt_size_of_isAlive hid).wellFoundedOn
    -- going down from a frame without handles, one comes to a frame with a handle
    refine fun hid => hdown.induction (P := fun id => ∃ holder, count holder ≠ 0 ∧ σ.Rises holder id)
      hid fun id hid ih => ?_
    rcases h.kept id hid not_false with hcount | ⟨child, hchild⟩
    · exact ⟨id, hcount, .refl⟩
    · obtain ⟨holder, hcount, hway⟩ := ih child (isAlive_of_parent? hchild) (.single hchild)
      exact ⟨holder, hcount, hway.tail hchild⟩
  · rintro ⟨holder, hcount, hway⟩
    induction hway with
    | refl => exact h.held holder hcount
    | tail _ hstep _ => exact h.parents _ _ hstep

/-! Frames with the same links -/

theorem Tended.congr (h : σ.Tended count loose)
    (hlinks : ∀ id, (σ'.frame? id).map Frame.links = (σ.frame? id).map Frame.links) :
    σ'.Tended count loose := by
  have hparent : ∀ id, σ'.parent? id = σ.parent? id := fun id => parent?_congr (hlinks id)
  have halive : ∀ id, σ'.isAlive id = σ.isAlive id := by
    intro id
    have hsome := congrArg Option.isSome (hlinks id)
    rwa [Option.isSome_map, Option.isSome_map] at hsome
  have hbelow : ∀ {id parent}, σ'.Below id parent ↔ σ.Below id parent := fun {id parent} =>
    Iff.of_eq (congrArg (· = some parent) (hparent id))
  refine ⟨fun id frame hframe => ?_, fun id hid => ?_, fun id parent hstep => ?_,
    h.acyclic.congr hparent, fun id hid hfree => ?_⟩
  · have hsame := hlinks id
    rw [hframe] at hsame
    obtain ⟨old, hold, hlinked⟩ := Option.map_eq_some_iff.mp hsame.symm
    exact (congrArg Prod.snd hlinked).symm.trans (h.handles id old hold)
  · exact (halive id).trans (h.held id hid)
  · exact (halive parent).trans (h.parents id parent (hbelow.mp hstep))
  · have hkept := h.kept id ((halive id).symm.trans hid) hfree
    exact hkept.imp_right (Exists.imp fun child => hbelow.mpr)

/-! New frames and handles -/

theorem isAlive_addFrame {frame : Frame} :
    (σ.addFrame frame).2.isAlive id ↔ id = σ.frames.size ∨ σ.isAlive id := by
  rw [isAlive, frame?_addFrame]
  by_cases hid : id = σ.frames.size
  · rw [if_pos hid]
    exact iff_of_true rfl (Or.inl hid)
  · rw [if_neg hid]
    exact (or_iff_right hid).symm

theorem below_addFrame {frame : Frame} {above : FrameId} :
    (σ.addFrame frame).2.Below id above ↔
      id = σ.frames.size ∧ above ∈ frame.parent ∨ σ.Below id above := by
  rw [Below, parent?, frame?_addFrame]
  by_cases hid : id = σ.frames.size
  · have hnone : ¬ σ.Below id above := fun hbelow =>
      Nat.ne_of_lt (lt_size_of_isAlive (isAlive_of_parent? hbelow)) hid
    rw [if_pos hid, or_iff_left hnone]
    exact (and_iff_right hid).symm
  · rw [if_neg hid, or_iff_right fun hnew => hid hnew.1]
    rfl

/-- A new frame, below one that is there or below none, with one handle on it. -/
theorem Tended.addFrame (h : σ.Kept count) {parent : Option FrameId}
    (hparent : ∀ above ∈ parent, σ.isAlive above) :
    (σ.addFrame ⟨[], parent, 1⟩).2.Kept fun id => count id + if σ.frames.size = id then 1 else 0 := by
  refine ⟨fun id frame hframe => ?_, fun id hid => ?_, fun id above hbelow => ?_, ?_,
    fun id hid _ => ?_⟩
  · rw [frame?_addFrame] at hframe
    by_cases heq : id = σ.frames.size
    · have hzero : count id = 0 := by
        by_contra hcount
        exact Nat.ne_of_lt (lt_size_of_isAlive (h.held id hcount)) heq
      rw [if_pos heq] at hframe
      obtain rfl := Option.some.inj hframe
      rw [hzero, if_pos heq.symm]
    · rw [if_neg heq] at hframe
      rw [if_neg (Ne.symm heq), Nat.add_zero]
      exact h.handles id frame hframe
  · refine isAlive_addFrame.mpr (or_iff_not_imp_left.mpr fun heq => h.held id ?_)
    rwa [if_neg (Ne.symm heq), Nat.add_zero] at hid
  · refine isAlive_addFrame.mpr (Or.inr ?_)
    rcases below_addFrame.mp hbelow with ⟨-, habove⟩ | hbelow
    · exact hparent above habove
    · exact h.parents id above hbelow
  · have hsize : ∀ id above, σ.Below id above → above < σ.frames.size := fun id above hbelow =>
      lt_size_of_isAlive (h.parents id above hbelow)
    refine h.acyclic.extend hsize (fun id hid => ?_) fun id above hid hbelow => ?_
    · rw [parent?, frame?_addFrame, if_neg (Nat.ne_of_lt hid)]
      rfl
    · rcases below_addFrame.mp hbelow with ⟨rfl, habove⟩ | hbelow
      · exact lt_size_of_isAlive (hparent above habove)
      · exact Nat.lt_of_lt_of_le (hsize id above hbelow) hid
  · rcases isAlive_addFrame.mp hid with heq | hid
    · rw [if_pos heq.symm]
      exact Or.inl (Nat.succ_ne_zero _)
    · refine (h.kept id hid not_false).imp (fun hcount => ?_) (Exists.imp fun child hchild => ?_)
      · exact fun hzero => hcount (Nat.eq_zero_of_add_eq_zero_right hzero)
      · exact below_addFrame.mpr (Or.inr hchild)

theorem isAlive_modifyFrame (σ : Store) (id other : FrameId) (f : Frame → Frame) :
    (σ.modifyFrame id f).isAlive other = σ.isAlive other := by
  rw [isAlive, frame?_modifyFrame]
  by_cases hid : id = other
  · rw [if_pos hid, Option.isSome_map]
    rfl
  · rw [if_neg hid]
    rfl

/-- Another number of handles on a frame, which may leave it loose. -/
theorem Tended.rehandle (h : σ.Kept count) (hid : σ.isAlive id) (f : Nat → Nat)
    (hcount : ∀ other, count' other = if id = other then f (count id) else count other) :
    (σ.modifyFrame id fun frame => { frame with handles := f frame.handles }).Tended count'
      (· = id) := by
  obtain ⟨τ, hτ⟩ : ∃ τ, τ = σ.modifyFrame id fun frame => { frame with handles := f frame.handles } :=
    ⟨_, rfl⟩
  have hframe : ∀ other, τ.frame? other = if id = other then
      (σ.frame? other).map (fun frame => { frame with handles := f frame.handles }) else
        σ.frame? other := fun other => by rw [hτ, frame?_modifyFrame]
  have halive : ∀ other, τ.isAlive other = σ.isAlive other := fun other => by
    rw [hτ, isAlive_modifyFrame]
  have hparent : ∀ other, τ.parent? other = σ.parent? other := by
    intro other
    rw [parent?, hframe]
    split
    · rw [Option.bind_map]
      rfl
    · rfl
  have hbelow : ∀ {child above}, τ.Below child above ↔ σ.Below child above := fun {child above} =>
    Iff.of_eq (congrArg (· = some above) (hparent child))
  rw [← hτ]
  refine ⟨fun other frame hother => ?_, fun other hother => ?_, fun child above hstep => ?_,
    h.acyclic.congr hparent, fun other hother hne => ?_⟩
  · rw [hframe] at hother
    rw [hcount]
    split at hother
    · rename_i heq
      subst heq
      obtain ⟨old, hold, rfl⟩ := Option.map_eq_some_iff.mp hother
      rw [if_pos rfl, ← h.handles id old hold]
    · rename_i hne
      rw [if_neg hne]
      exact h.handles other frame hother
  · rw [halive]
    rw [hcount] at hother
    split at hother
    · rename_i heq
      exact heq ▸ hid
    · exact h.held other hother
  · rw [halive]
    exact h.parents child above (hbelow.mp hstep)
  · rw [hcount, if_neg (Ne.symm hne)]
    rw [halive] at hother
    exact (h.kept other hother not_false).imp_right (Exists.imp fun child => hbelow.mpr)

theorem Tended.retain (h : σ.Kept count) (hid : σ.isAlive id) :
    (σ.retain id).Kept fun other => count other + if id = other then 1 else 0 := by
  have hcount : ∀ other, (count other + if id = other then 1 else 0) =
      if id = other then count id + 1 else count other := by
    intro other
    split
    · rename_i heq
      rw [heq]
    · rfl
  refine (h.rehandle hid (· + 1) hcount).mono fun other _ hother => Or.inr (Or.inl ?_)
  subst hother
  rw [if_pos rfl]
  exact Nat.succ_ne_zero _

/-! Frames that go -/

/-- How many frames there are. -/
def population (σ : Store) : Nat := ((Finset.range σ.frames.size).filter fun id => σ.isAlive id).card

theorem population_le_size (σ : Store) : σ.population ≤ σ.frames.size :=
  (Finset.card_filter_le _ _).trans (Nat.le_of_eq (Finset.card_range _))

theorem population_dropFrame_lt (hid : σ.isAlive id) :
    (σ.dropFrame id).population < σ.population := by
  have hsize : (σ.dropFrame id).frames.size = σ.frames.size := by simp [dropFrame]
  unfold population
  rw [hsize]
  refine Finset.card_lt_card ⟨fun other hother => ?_, fun hsub => ?_⟩
  · rw [Finset.mem_filter, isAlive_dropFrame] at hother
    rw [Finset.mem_filter]
    refine ⟨hother.1, ?_⟩
    have halive := hother.2
    split at halive
    · exact absurd halive (by simp)
    · exact halive
  · have hmem := hsub (Finset.mem_filter.mpr ⟨Finset.mem_range.mpr (lt_size_of_isAlive hid), hid⟩)
    rw [Finset.mem_filter, isAlive_dropFrame, if_pos rfl] at hmem
    exact absurd hmem.2 (by simp)

theorem below_dropFrame {child above : FrameId} :
    (σ.dropFrame id).Below child above ↔ id ≠ child ∧ σ.Below child above := by
  unfold Below parent?
  rw [frame?_dropFrame]
  split
  · rename_i heq
    simp [heq]
  · rename_i hne
    simp [hne]

/-- When a frame that nothing keeps is taken away, the one above it may be loose. -/
theorem Tended.dropFrame (h : σ.Tended count (· = id)) (hid : ¬ σ.isKept id) :
    (σ.dropFrame id).Tended count fun other => σ.Below id other := by
  rw [h.isKept_iff, not_and, not_or] at hid
  have hnone : ∀ child, ¬ σ.Below child id := fun child hchild =>
    (hid (h.parents child id hchild)).2 ⟨child, hchild⟩
  refine ⟨fun other frame hframe => ?_, fun other hother => ?_, fun child above hstep => ?_,
    fun other hcycle => ?_, fun other hother hfree => ?_⟩
  · rw [frame?_dropFrame] at hframe
    split at hframe
    · exact absurd hframe (by simp)
    · exact h.handles other frame hframe
  · have halive := h.held other hother
    rw [isAlive_dropFrame, if_neg]
    · exact halive
    · rintro rfl
      exact (hid halive).1 hother
  · obtain ⟨-, hstep⟩ := below_dropFrame.mp hstep
    rw [isAlive_dropFrame, if_neg]
    · exact h.parents child above hstep
    · rintro rfl
      exact hnone child hstep
  · have hbelow : ∀ child above, (σ.dropFrame id).Below child above → σ.Below child above :=
      fun child above hstep => (below_dropFrame.mp hstep).2
    exact h.acyclic other (Relation.TransGen.mono hbelow _ _ hcycle)
  · rw [isAlive_dropFrame] at hother
    split at hother
    · exact absurd hother (by simp)
    · rename_i hne
      rcases h.kept other hother (Ne.symm hne) with hcount | ⟨child, hchild⟩
      · exact Or.inl hcount
      · refine Or.inr ⟨child, below_dropFrame.mpr ⟨?_, hchild⟩⟩
        rintro rfl
        exact hfree hchild

/-- A loose frame goes, unless something keeps it after all, and so do the frames above it that only it
has kept. -/
theorem Tended.collapse {fuel : Nat} (h : σ.Tended count (· = id)) (hfuel : σ.population ≤ fuel) :
    (σ.collapse fuel id).Kept count := by
  induction fuel generalizing σ id with
  | zero =>
    refine h.mono fun other hother _ => ?_
    have hlt := Nat.lt_of_lt_of_le (population_dropFrame_lt hother) hfuel
    exact absurd hlt (Nat.not_lt_zero _)
  | succ fuel ih =>
    unfold Store.collapse
    by_cases hkept : σ.isKept id
    · rw [if_pos hkept]
      exact h.mono fun other _ hother => Or.inr (hother ▸ (h.isKept_iff.mp hkept).2)
    · rw [if_neg hkept]
      have hdropped := h.dropFrame hkept
      cases hparent : σ.parent? id with
      | none =>
        refine hdropped.mono fun other _ hother => ?_
        exact absurd (hparent.symm.trans hother) (by simp)
      | some parent =>
        refine ih (hdropped.mono fun other _ hother => ?_) ?_
        · exact Or.inl (Option.some.inj (hother.symm.trans hparent))
        · have hlt := population_dropFrame_lt (isAlive_of_parent? hparent)
          omega

/-- A frame that does not go stays what it was. -/
theorem frame?_collapse {fuel : Nat} {other : FrameId} (h : (σ.collapse fuel id).isAlive other) :
    (σ.collapse fuel id).frame? other = σ.frame? other := by
  induction fuel generalizing σ id with
  | zero => rfl
  | succ fuel ih =>
    unfold Store.collapse at h ⊢
    split
    · rfl
    · rename_i hkept
      rw [if_neg hkept] at h
      have hdrop : (σ.dropFrame id).isAlive other →
          (σ.dropFrame id).frame? other = σ.frame? other := by
        intro halive
        rw [isAlive_dropFrame] at halive
        rw [frame?_dropFrame]
        split
        · rename_i heq
          rw [if_pos heq] at halive
          exact absurd halive (by simp)
        · rfl
      cases hparent : σ.parent? id with
      | none =>
        rw [hparent] at h
        exact hdrop h
      | some parent =>
        rw [hparent] at h
        have hrest := ih h
        refine hrest.trans (hdrop ?_)
        rw [isAlive, ← hrest]
        exact h

theorem Tended.release (h : σ.Kept count) (hid : count id ≠ 0)
    (hcount : ∀ other, count' other = if id = other then count id - 1 else count other) :
    (σ.release id).Kept count' :=
  (h.rehandle (h.held id hid) (· - 1) hcount).collapse (population_le_size _)

theorem Tended.relink (h : σ.Kept count) {parent : Option FrameId} (hid : σ.isAlive id)
    (hparent : ∀ above ∈ parent, σ.isAlive above) (hacyclic : (σ.relink id parent).Acyclic) :
    (σ.relink id parent).Tended count fun other => σ.Below id other := by
  refine ⟨fun other frame hframe => ?_, fun other hother => ?_, fun child above hstep => ?_, hacyclic,
    fun other hother hfree => ?_⟩
  · rw [frame?_relink] at hframe
    split at hframe
    · obtain ⟨old, hold, rfl⟩ := Option.map_eq_some_iff.mp hframe
      exact h.handles other old hold
    · exact h.handles other frame hframe
  · rw [isAlive_relink]
    exact h.held other hother
  · rw [isAlive_relink]
    by_cases hchild : id = child
    · subst hchild
      exact hparent above ((parent?_relink hid parent).symm.trans hstep)
    · exact h.parents child above ((parent?_relink_of_ne hchild parent).symm.trans hstep)
  · rw [isAlive_relink] at hother
    refine (h.kept other hother not_false).imp_right (Exists.imp fun child hchild => ?_)
    have hne : id ≠ child := by
      rintro rfl
      exact hfree hchild
    exact (parent?_relink_of_ne hne parent).trans hchild

theorem Tended.setParent (h : σ.Kept count) {parent : Option FrameId} (hid : σ.isAlive id)
    (hparent : ∀ above ∈ parent, σ.isAlive above) (hacyclic : (σ.relink id parent).Acyclic) :
    (σ.setParent id parent).Kept count := by
  have hlinked := h.relink hid hparent hacyclic
  unfold Store.setParent
  cases hold : σ.parent? id with
  | none =>
    refine hlinked.mono fun other _ hother => ?_
    exact absurd (hold.symm.trans hother) (by simp)
  | some old =>
    refine Tended.collapse (hlinked.mono fun other _ hother => ?_) (population_le_size _)
    exact Or.inl (Option.some.inj (hother.symm.trans hold))

end ScriptEngine.Store
