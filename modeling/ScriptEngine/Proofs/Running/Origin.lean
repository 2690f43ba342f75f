import ScriptEngine.Proofs.Running.Moments

/-!
Where the frames of a run lie. A frame that a run makes is below another one, which is there as long as
it is, and the way up from it comes to a frame that was there before the run.
-/
namespace ScriptEngine

namespace Store

variable {σ σ' : Store} {first : Nat}

/-- On the way up from a frame `base` is the first one that is older than `first`. -/
inductive Under (σ : Store) (first : Nat) (base : FrameId) : FrameId → Prop where
  | base (hbase : base < first) : Under σ first base base
  | up {id parent} (hid : first ≤ id) (hparent : σ.parent? id = some parent)
      (hunder : Under σ first base parent) : Under σ first base id

/-- The frames that came after the frame `first` are below other ones, which are older and there. -/
def Linked (σ : Store) (first : FrameId) : Prop :=
  ∀ id, first < id → σ.isAlive id →
    ∃ parent, σ.parent? id = some parent ∧ parent < id ∧ parent ≠ first ∧ σ.isAlive parent

theorem Under.unique {base base' id : FrameId} (h : σ.Under first base id)
    (h' : σ.Under first base' id) : base = base' := by
  induction h with
  | base hbase =>
    cases h' with
    | base => rfl
    | up hid => exact absurd hbase (Nat.not_lt_of_le hid)
  | up hid hparent _ ih =>
    cases h' with
    | base hbase => exact absurd hbase (Nat.not_lt_of_le hid)
    | up _ hparent' hunder =>
      rw [hparent] at hparent'
      obtain rfl := Option.some.inj hparent'
      exact ih hunder

theorem Under.lt {base id : FrameId} (h : σ.Under first base id) : base < first := by
  induction h with
  | base hbase => exact hbase
  | up _ _ _ ih => exact ih

theorem Linked.exists_under (h : σ.Linked first) (id : FrameId) (halive : σ.isAlive id)
    (hne : id ≠ first) : ∃ base, σ.Under first base id ∧ σ.isAlive base := by
  induction id using Nat.strongRecOn with
  | ind id ih =>
    by_cases hid : id < first
    · exact ⟨id, .base hid, halive⟩
    · have hlt : first < id := Nat.lt_of_le_of_ne (Nat.le_of_not_lt hid) (Ne.symm hne)
      obtain ⟨parent, hparent, holder, hne', halive'⟩ := h id hlt halive
      obtain ⟨base, hunder, hbase⟩ := ih parent holder halive' hne'
      exact ⟨base, .up (Nat.le_of_lt hlt) hparent hunder, hbase⟩

theorem Linked.settles (h : σ.Linked first) (hstore : σ.Settles σ') : σ'.Linked first := by
  intro id hid halive
  have hlt : id < σ.frames.size := by
    apply Nat.lt_of_not_le
    intro hle
    rw [isAlive, hstore.gone id hle] at halive
    exact absurd halive (by simp)
  have halive' : σ.isAlive id := by
    rw [← hstore.toExtends.isAlive hlt]
    exact halive
  obtain ⟨parent, hparent, holder, hne, hthere⟩ := h id hid halive'
  refine ⟨parent, ?_, holder, hne, hstore.toExtends.isAlive_of hthere⟩
  rw [hstore.toExtends.parent? hlt]
  exact hparent

theorem Linked.newChild (h : σ.Linked first) {parent : FrameId} (halive : σ.isAlive parent)
    (hne : parent ≠ first) : (σ.newChild parent).2.Linked first := by
  have hthere : ∀ id, σ.isAlive id → (σ.newChild parent).2.isAlive id :=
    fun id hid => (σ.extends_newChild parent).isAlive_of hid
  intro id hid hnew
  by_cases hsize : id = σ.frames.size
  · subst hsize
    refine ⟨parent, ?_, lt_size_of_isAlive halive, hne, hthere parent halive⟩
    rw [Store.parent?, frame?_newChild_self]
    rfl
  · have hold : σ.isAlive id := by
      rwa [isAlive, frame?_newChild hsize] at hnew
    obtain ⟨above, habove, holder, hne', halive'⟩ := h id hid hold
    refine ⟨above, ?_, holder, hne', hthere above halive'⟩
    rw [Store.parent?, frame?_newChild hsize]
    exact habove

end Store

/-- The frames that the run has made are below others, and so is the scope of the code. -/
structure Moment.Grounded (first : FrameId) (M : Moment) : Prop where
  linked : M.machine.store.Linked first
  scope : ∀ id, M.task.scope? = some id → M.machine.store.isAlive id

variable {R : Realm} {limit first : Nat} {M N : Moment}

theorem Realm.Passage.grounded (h : R.Passage M N) (hfirst : ¬ R.scopes first)
    (hM : M.Grounded first) : N.Grounded first := by
  cases h with
  | within hstore hplace =>
    refine ⟨hM.linked.settles hstore.settles, fun id hid => ?_⟩
    obtain ⟨⟨scope, c⟩, hc, rfl⟩ := Option.map_eq_some_iff.mp hid
    obtain ⟨whole, hwhole, -⟩ := hplace scope c hc
    exact hstore.frames.isAlive_of (hM.scope scope (Option.map_eq_some_iff.mpr ⟨_, hwhole, rfl⟩))
  | @below σ parent whole body hstore hparent hopener hopens hground hframe htask =>
    have hne : parent ≠ first := by
      rintro rfl
      exact hfirst hparent
    have halive : σ.isAlive parent := by
      rcases hground with hground | hground
      · exact hstore.frames.isAlive_of (hM.scope parent hground)
      · exact hstore.frames.isAlive_of hground
    have hchild := (hM.linked.settles hstore.settles).newChild halive hne
    refine ⟨hchild.settles hframe.settles, fun id hid => ?_⟩
    rw [htask] at hid
    obtain rfl : σ.frames.size = id := Option.some.inj hid
    refine hframe.frames.isAlive_of ?_
    rw [Store.isAlive, Store.frame?_newChild_self]
    rfl

theorem reaches_grounded (h : M.Reaches limit N) (hfirst : ¬ R.scopes first)
    (hM : R.Holds M.machine.store) (hin : M.task.In R) (hground : M.Grounded first) :
    N.Grounded first := by
  induction h with
  | refl => exact hground
  | tail hway hlast ih =>
    obtain ⟨hstore, hin'⟩ := reaches_keeps hway hM hin
    obtain ⟨-, hpassage⟩ := enters_passage hlast hstore.holds hin'
    exact hpassage.grounded hfirst ih

end ScriptEngine
