import ScriptEngine.Proofs.Running.Abreast

/-!
Runs on two sets of layers in one store. Either set is as it would be alone, and nothing that is there
goes together with something on both accounts. A run on one of the sets then leaves the other one as it
is. So the sets stay as they would be alone for as long as there are runs on them, in whatever order
these come.
-/
namespace ScriptEngine

deriving instance DecidableEq for Layers

namespace Matching

variable {M M' N : Matching} {A B : Layers} {σ σ' ρ τ τ' : Store}

/-! What goes together with something -/

theorem exists_of_mem {α β : Type} {r : α → β → Prop} {as : List α} {bs : List β}
    (h : List.Forall₂ r as bs) {b : β} (hb : b ∈ bs) : ∃ a ∈ as, r a b := by
  induction h with
  | nil => exact absurd hb List.not_mem_nil
  | cons hfirst _ ih =>
    rcases List.mem_cons.mp hb with rfl | hb
    · exact ⟨_, List.mem_cons_self, hfirst⟩
    · obtain ⟨a, ha, hr⟩ := ih hb
      exact ⟨a, List.mem_cons_of_mem _ ha, hr⟩

/-- The part of the second store that goes together with something in the first one. -/
def image (M : Matching) : Territory where
  frames := fun id => ∃ id', M.frames.pairs id' id
  cells := fun cell => ∃ cell', M.cells.pairs cell' cell

theorem Alike.owns {v v' : Value} (h : M.Alike v v') : M.image.Owns v' := by
  cases h with
  | scalar hv => exact Value.holdsOnly_of_isScalar hv
  | array hcell => exact Value.holdsOnly_array.mpr ⟨_, hcell⟩
  | struct hcell => exact Value.holdsOnly_struct.mpr ⟨_, hcell⟩
  | function _ hhome => exact Value.holdsOnly_function.mpr ⟨_, hhome⟩
  | native => exact Value.holdsOnly_native _

theorem AlikeCells.values {content content' : Cell} (h : M.AlikeCells content content') :
    List.Forall₂ M.Alike content.values content'.values := by
  cases h with
  | array hitems => exact hitems
  | struct hfields =>
    exact List.forall₂_map_left_iff.mpr (List.forall₂_map_right_iff.mpr
      (hfields.imp fun _ _ hentry => hentry.2))

/-- A run on the layers stays among what goes together with something. -/
theorem Abreast.closed (h : M.Abreast A σ τ) : M.image.Closed A τ where
  layer := fun id hid => ⟨id, h.pinned id hid⟩
  bindings := by
    rintro id ⟨id', hpairs⟩ entry hentry
    obtain ⟨_, -, -, hv⟩ := exists_of_mem (h.likens.bindings hpairs) hentry
    exact hv.owns
  above := by
    rintro id parent ⟨id', hpairs⟩ hid hparent
    have hloose : ¬ A.Has id' := fun hid' =>
      hid ((M.frames.one_to_one _ _ _ _ (h.pinned id' hid') hpairs).mp rfl ▸ hid')
    have hup := h.likens.parent? hpairs hloose
    rw [hparent] at hup
    generalize σ.parent? id' = parent' at hup
    cases hup with
    | some hpairs' => exact ⟨_, hpairs'⟩
  content := by
    rintro cell content ⟨cell', hpairs⟩ hcontent v hv
    have hcells := h.likens.cells cell' cell hpairs
    rw [hcontent] at hcells
    generalize σ.cells[cell']? = content' at hcells
    cases hcells with
    | some halike =>
      obtain ⟨_, -, hv⟩ := exists_of_mem halike.values hv
      exact hv.owns

/-! What a run elsewhere leaves as it is -/

/-- The numbers that have been given out on the second side are taken in the store. -/
structure Reserves (N : Matching) (τ : Store) : Prop where
  frames : N.frames.right ≤ τ.frames.size
  cells : N.cells.right ≤ τ.cells.size
  identities : N.identities.right ≤ τ.nextIdentity

/-- On the second side other numbers have been given out as well. -/
def await (N : Matching) (h : N.Reserves τ) : Matching :=
  ⟨N.frames.await h.frames, N.cells.await h.cells, N.identities.await h.identities⟩

theorem grows_await (h : N.Reserves τ) : N.Grows (N.await h) :=
  ⟨Pairing.grows_await h.frames, Pairing.grows_await h.cells, Pairing.grows_await h.identities⟩

theorem Abreast.reserves (h : N.Abreast B ρ τ) (hfirst : M.Abreast A σ τ) (hM : M.Grows M')
    (hnext : M'.Abreast A σ' τ') : N.Reserves τ' := by
  refine ⟨?_, ?_, ?_⟩
  · rw [h.likens.frameCount.2, ← hfirst.likens.frameCount.2, ← hnext.likens.frameCount.2]
    exact hM.frames.right
  · rw [h.likens.cellCount.2, ← hfirst.likens.cellCount.2, ← hnext.likens.cellCount.2]
    exact hM.cells.right
  · rw [h.likens.identityCount.2, ← hfirst.likens.identityCount.2, ← hnext.likens.identityCount.2]
    exact hM.identities.right

theorem Abreast.await (h : N.Abreast B ρ τ) (hreserves : N.Reserves τ')
    (hframe : ∀ id, N.image.frames id → τ'.frame? id = τ.frame? id)
    (hcell : ∀ cell : CellId, N.image.cells cell → τ'.cells[cell]? = τ.cells[cell]?) :
    (N.await hreserves).Abreast B ρ τ' := by
  have hgrows := grows_await hreserves
  refine ⟨h.pinned, ⟨h.likens.frameCount.1, rfl⟩, ⟨h.likens.cellCount.1, rfl⟩,
    ⟨h.likens.identityCount.1, rfl⟩, fun id id' hpairs => ?_, fun cell cell' hpairs => ?_⟩
  · rw [hframe id' ⟨id, hpairs⟩]
    exact rel_imp (fun _ _ halike => halike.mono hgrows) (h.likens.frames id id' hpairs)
  · rw [hcell cell' ⟨cell, hpairs⟩]
    exact rel_imp (fun _ _ halike => halike.mono hgrows) (h.likens.cells cell cell' hpairs)

/-! Both sets -/

/-- Either set is as it would be alone, and together they share nothing that is there. -/
structure Beside (M N : Matching) (A B : Layers) (σ ρ τ : Store) : Prop where
  first : M.Abreast A σ τ
  second : N.Abreast B ρ τ
  frames : ∀ id, M.image.frames id → N.image.frames id → ¬ τ.isAlive id
  cells : ∀ cell, M.image.cells cell → ¬ N.image.cells cell

theorem Beside.symm (h : Beside M N A B σ ρ τ) : Beside N M B A ρ σ τ :=
  ⟨h.second, h.first, fun id hN hM => h.frames id hM hN, fun cell hN hM => h.cells cell hM hN⟩

variable {job : Job} {jobs : List Job} {m n t : Machine}

theorem Beside.spared (h : Beside M N job.layers B m.store ρ t.store) :
    (∀ id, N.image.frames id → (t.perform job).2.store.frame? id = t.store.frame? id) ∧
      ∀ cell : CellId, N.image.cells cell →
        (t.perform job).2.store.cells[cell]? = t.store.cells[cell]? := by
  obtain ⟨hframes, hcells⟩ := h.first.closed.spared_perform
  refine ⟨fun id hid => ?_, fun cell hcell => hcells cell (not_or.mpr ⟨?_, ?_⟩)⟩
  · by_cases halive : t.store.isAlive id
    · exact hframes id (not_or.mpr ⟨Nat.not_le_of_lt (Store.lt_size_of_isAlive halive),
        fun hM => h.frames id hM hid halive⟩)
    · have hdead : ¬ (t.perform job).2.store.isAlive id := by
        rw [(t.settles_perform job).isAlive]
        exact halive
      rw [Option.not_isSome_iff_eq_none.mp halive, Option.not_isSome_iff_eq_none.mp hdead]
  · obtain ⟨cell', hpairs⟩ := hcell
    have hlt := (N.cells.below cell' cell hpairs).2
    rw [h.second.likens.cellCount.2] at hlt
    exact Nat.not_le_of_lt hlt
  · exact fun hM => h.cells cell hM hcell

/-- A run on the one set comes to what it would have come to alone, and both sets are afterwards what
they would have been alone. -/
theorem Beside.perform (h : Beside M N job.layers B m.store ρ t.store) :
    ∃ M' N', M.Grows M' ∧ N.Grows N' ∧
      Beside M' N' job.layers B (m.perform job).2.store ρ (t.perform job).2.store ∧
      M'.AlikeReports (m.report job) (t.report job) := by
  obtain ⟨M', hM', hfirst, hreport⟩ := h.first.perform
  obtain ⟨hframe, hcell⟩ := h.spared
  have hreserves := h.second.reserves h.first hM' hfirst
  refine ⟨M', N.await hreserves, hM', grows_await hreserves,
    ⟨hfirst, h.second.await hreserves hframe hcell, ?_, ?_⟩, hreport⟩
  -- what is new on the one account is new in the store, so nothing went together with it on the other
  · rintro id ⟨id', hid'⟩ ⟨id'', hid''⟩
    rcases hM'.frames.fresh id' id hid' with hold | ⟨-, hnew⟩
    · rw [(t.settles_perform job).isAlive]
      exact h.frames id ⟨id', hold⟩ ⟨id'', hid''⟩
    · have hlt := (N.frames.below id'' id hid'').2
      rw [h.first.likens.frameCount.2] at hnew
      rw [h.second.likens.frameCount.2] at hlt
      exact absurd hlt (Nat.not_lt_of_le hnew)
  · rintro cell ⟨cell', hcell'⟩ ⟨cell'', hcell''⟩
    rcases hM'.cells.fresh cell' cell hcell' with hold | ⟨-, hnew⟩
    · exact h.cells cell ⟨cell', hold⟩ ⟨cell'', hcell''⟩
    · have hlt := (N.cells.below cell'' cell hcell'').2
      rw [h.first.likens.cellCount.2] at hnew
      rw [h.second.likens.cellCount.2] at hlt
      exact absurd hlt (Nat.not_lt_of_le hnew)

end Matching

/-- Those of the runs that are on the layers. -/
def Layers.jobs (layers : Layers) (jobs : List Job) : List Job := jobs.filter (·.layers = layers)

/-- What the host gets from the runs on the layers. -/
def Layers.reports (layers : Layers) (reports : List Machine.Report) : List Machine.Report :=
  reports.filter (·.job.layers = layers)

namespace Layers

variable {A : Layers} {job : Job}

theorem jobs_cons_self (rest : List Job) : job.layers.jobs (job :: rest) = job :: job.layers.jobs rest :=
  List.filter_cons_of_pos (decide_eq_true rfl)

theorem jobs_cons_of_ne (h : job.layers ≠ A) (rest : List Job) : A.jobs (job :: rest) = A.jobs rest :=
  List.filter_cons_of_neg (mt of_decide_eq_true h)

theorem reports_cons_self (m : Machine) (rest : List Job) :
    job.layers.reports (m.reports (job :: rest)) =
      m.report job :: job.layers.reports ((m.perform job).2.reports rest) :=
  List.filter_cons_of_pos (decide_eq_true rfl)

theorem reports_cons_of_ne (h : job.layers ≠ A) (m : Machine) (rest : List Job) :
    A.reports (m.reports (job :: rest)) = A.reports ((m.perform job).2.reports rest) :=
  List.filter_cons_of_neg (mt of_decide_eq_true h)

end Layers

namespace Matching

variable {M N : Matching} {A B : Layers} {m n t : Machine} {jobs : List Job}

/-- What runs on either set come to alone they come to among runs on the other one. -/
theorem Beside.performAll (hne : A ≠ B) (h : Beside M N A B m.store n.store t.store)
    (hjobs : ∀ job ∈ jobs, job.layers = A ∨ job.layers = B) :
    ∃ M' N', M.Grows M' ∧ N.Grows N' ∧
      Beside M' N' A B (m.performAll (A.jobs jobs)).store (n.performAll (B.jobs jobs)).store
        (t.performAll jobs).store ∧
      List.Forall₂ M'.AlikeReports (m.reports (A.jobs jobs)) (A.reports (t.reports jobs)) ∧
      List.Forall₂ N'.AlikeReports (n.reports (B.jobs jobs)) (B.reports (t.reports jobs)) := by
  induction jobs generalizing M N m n t with
  | nil => exact ⟨M, N, .refl M, .refl N, h, .nil, .nil⟩
  | cons job rest ih =>
    rw [List.forall_mem_cons] at hjobs
    rcases hjobs.1 with rfl | rfl
    · obtain ⟨M', N', hM, hN, hnext, hreport⟩ := h.perform
      obtain ⟨M'', N'', hM', hN', hend, hfirst, hsecond⟩ := ih hnext hjobs.2
      rw [Layers.jobs_cons_self, Layers.jobs_cons_of_ne hne, Layers.reports_cons_self,
        Layers.reports_cons_of_ne hne]
      exact ⟨M'', N'', hM.trans hM', hN.trans hN', hend, .cons (hreport.mono hM') hfirst, hsecond⟩
    · obtain ⟨N', M', hN, hM, hnext, hreport⟩ := h.symm.perform
      obtain ⟨M'', N'', hM', hN', hend, hfirst, hsecond⟩ := ih hnext.symm hjobs.2
      rw [Layers.jobs_cons_self, Layers.jobs_cons_of_ne hne.symm, Layers.reports_cons_self,
        Layers.reports_cons_of_ne hne.symm]
      exact ⟨M'', N'', hM.trans hM', hN.trans hN', hend, hfirst, .cons (hreport.mono hN') hsecond⟩

end Matching

end ScriptEngine
