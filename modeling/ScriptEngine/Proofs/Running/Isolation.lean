import ScriptEngine.Proofs.Running.Beside

/-!
Sets of bindings that lead to nothing in common. A run changes nothing but what it makes and what its
bindings lead to. So when two sets lead to no frame and to no array or struct that the other one leads to,
runs on the one do nothing to the other. It does not suffice that they have no function and no array or
struct in common: a function that one of them got from the other brings the frame with it that it was
declared in.
-/
namespace ScriptEngine

/-! Cells that were made -/

def Value.Stocked (σ : Store) (v : Value) : Prop := ∀ cell, v.cell? = some cell → cell < σ.cells.size

/-- Every array and every struct that a value stands for was made. -/
structure Store.Stocked (σ : Store) : Prop where
  bindings : ∀ id, ∀ entry ∈ σ.bindings id, entry.2.Stocked σ
  cells : ∀ (cell : CellId) (content : Cell), σ.cells[cell]? = some content →
    ∀ v ∈ content.values, v.Stocked σ

namespace Matching

variable {M : Matching} {T : Territory} {layers : Layers} {σ σ' : Store} {v v' : Value}

/-! A store and itself -/

/-- What is in the part goes together with itself. -/
def same (T : Territory) (σ : Store) : Matching :=
  ⟨.same σ.frames.size T.frames, .same σ.cells.size T.cells, .same σ.nextIdentity fun _ => True⟩

theorem alike_self (howns : T.Owns v) (hpredates : v.Predates σ) (hstocked : v.Stocked σ) :
    (same T σ).Alike v v := by
  cases v with
  | array cell => exact .array ⟨rfl, hstocked cell rfl, howns.1 cell rfl⟩
  | struct cell => exact .struct ⟨rfl, hstocked cell rfl, howns.1 cell rfl⟩
  | function f => exact .function ⟨rfl, hpredates.1, trivial⟩ ⟨rfl, hpredates.2, howns.2 f rfl⟩
  | native f => exact .native ⟨rfl, hpredates, trivial⟩
  | _ => exact .scalar rfl

theorem alikeCells_self {content : Cell} (h : ∀ v ∈ content.values, M.Alike v v) :
    M.AlikeCells content content := by
  cases content with
  | array items => exact .array (List.forall₂_same.mpr h)
  | struct fields =>
    exact .struct (List.forall₂_same.mpr fun entry hentry =>
      ⟨rfl, h entry.2 (List.mem_map_of_mem hentry)⟩)

theorem abreast_same (h : T.Closed layers σ) (hrested : σ.Rested) (hstocked : σ.Stocked)
    (hlayers : layers.Alive σ) : (same T σ).Abreast layers σ σ := by
  refine ⟨fun id hid => ⟨rfl, ?_, h.layer id hid⟩, ⟨rfl, rfl⟩, ⟨rfl, rfl⟩, ⟨rfl, rfl⟩, ?_, ?_⟩
  · rcases Layers.has_iff.mp hid with rfl | hupper
    · exact Store.lt_size_of_isAlive hlayers.bindings
    · exact Store.lt_size_of_isAlive (hlayers.upper id hupper)
  · rintro id _ ⟨rfl, -, hid⟩
    have hbindings : (same T σ).AlikeEntries (σ.bindings id) (σ.bindings id) :=
      List.forall₂_same.mpr fun entry hentry => ⟨rfl, alike_self (h.bindings id hid entry hentry)
        (hrested.bindings id entry hentry) (hstocked.bindings id entry hentry)⟩
    have hparent : ¬ layers.Has id → Option.Rel (same T σ).frames.pairs (σ.parent? id) (σ.parent? id) := by
      intro hlayer
      cases hup : σ.parent? id with
      | none => exact .none
      | some parent =>
        exact .some ⟨rfl, hrested.parents id parent hup, h.above id parent hid hlayer hup⟩
    unfold Store.bindings at hbindings
    unfold Store.parent? at hparent
    cases hframe : σ.frame? id with
    | none => exact .none
    | some frame =>
      rw [hframe] at hbindings hparent
      exact .some ⟨hbindings, hparent⟩
  · rintro cell _ ⟨rfl, -, hcell⟩
    cases hcontent : σ.cells[cell]? with
    | none => exact .none
    | some content =>
      refine .some (alikeCells_self fun v hv => ?_)
      exact alike_self (h.content cell content hcell hcontent v hv)
        (hrested.cells cell content hcontent v hv) (hstocked.cells cell content hcontent v hv)

/-! What a run makes -/

theorem Alike.stocked (h : M.Alike v v') (hcells : M.cells.left = σ.cells.size) : v.Stocked σ := by
  intro cell hcell
  cases h with
  | scalar hv => exact absurd hcell (by simp [Value.cell?_eq_none hv])
  | array hpairs =>
    obtain rfl := Option.some.inj hcell
    exact hcells ▸ (M.cells.below _ _ hpairs).1
  | struct hpairs =>
    obtain rfl := Option.some.inj hcell
    exact hcells ▸ (M.cells.below _ _ hpairs).1
  | _ => exact absurd hcell (by simp [Value.cell?])

theorem LikensBut.stocked {loose : FrameId → Prop} (h : M.LikensBut loose σ σ')
    (hframes : ∀ id < M.frames.left, ∃ id', M.frames.pairs id id')
    (hcells : ∀ cell < M.cells.left, ∃ cell', M.cells.pairs cell cell') : σ.Stocked := by
  refine ⟨fun id entry hentry => ?_, fun cell content hcontent v hv => ?_⟩
  · have hlt := Store.lt_size_of_isAlive (Store.isAlive_of_mem_bindings hentry)
    obtain ⟨id', hpairs⟩ := hframes id (h.frameCount.1 ▸ hlt)
    obtain ⟨_, -, halike⟩ := exists_of_mem (h.bindings hpairs).flip hentry
    exact halike.2.stocked h.cellCount.1
  · obtain ⟨hlt, -⟩ := Array.getElem?_eq_some_iff.mp hcontent
    obtain ⟨cell', hpairs⟩ := hcells cell (h.cellCount.1 ▸ hlt)
    have halike := h.cells cell cell' hpairs
    rw [hcontent] at halike
    generalize σ'.cells[cell']? = content' at halike
    cases halike with
    | some halike =>
      obtain ⟨_, -, hv⟩ := exists_of_mem halike.values.flip hv
      exact hv.stocked h.cellCount.1

end Matching

namespace Territory

/-- The whole store. -/
def everything : Territory := ⟨fun _ => True, fun _ => True⟩

theorem closed_everything (layers : Layers) (σ : Store) : everything.Closed layers σ where
  layer := fun _ _ => trivial
  bindings := fun _ _ _ _ => ⟨fun _ _ => trivial, fun _ _ => trivial⟩
  above := fun _ _ _ _ _ => trivial
  content := fun _ _ _ _ _ _ => ⟨fun _ _ => trivial, fun _ _ => trivial⟩

end Territory

namespace Machine

variable {m : Machine} {job : Job}

/-- Next to itself, a run gives out no number but to what it makes. -/
theorem stocked_perform (hrested : m.store.Rested) (hstocked : m.store.Stocked)
    (halive : job.layers.Alive m.store) : (m.perform job).2.store.Stocked := by
  have hsame := Matching.abreast_same (Territory.closed_everything job.layers m.store) hrested
    hstocked halive
  obtain ⟨N, hN, hafter, -⟩ := hsame.perform
  exact hafter.likens.stocked
    (fun _ hid => hN.frames.all (fun id hid => ⟨id, rfl, hid, trivial⟩) hid)
    (fun _ hcell => hN.cells.all (fun cell hcell => ⟨cell, rfl, hcell, trivial⟩) hcell)

end Machine

/-! Nothing in common -/

/-- No frame that is there and no array or struct is led to by the layers of both. -/
structure Layers.Apart (A B : Layers) (σ : Store) : Prop where
  frames : ∀ id, A.Reaches σ (.frame id) → B.Reaches σ (.frame id) → ¬ σ.isAlive id
  cells : ∀ cell, A.ReachesCell σ cell → ¬ B.ReachesCell σ cell

variable {A B : Layers} {σ : Store}

theorem Layers.Apart.beside (h : A.Apart B σ) (hrested : σ.Rested) (hstocked : σ.Stocked)
    (hA : A.Alive σ) (hB : B.Alive σ) :
    Matching.Beside (.same (A.territory σ) σ) (.same (B.territory σ) σ) A B σ σ σ := by
  refine ⟨Matching.abreast_same (A.closed_territory σ) hrested hstocked hA,
    Matching.abreast_same (B.closed_territory σ) hrested hstocked hB, ?_, ?_⟩
  · rintro id ⟨_, rfl, -, hfirst⟩ ⟨_, rfl, -, hsecond⟩
    exact h.frames _ hfirst hsecond
  · rintro cell ⟨_, rfl, -, hfirst⟩ ⟨_, rfl, -, hsecond⟩
    exact h.cells _ hfirst hsecond

theorem Layers.Apart.ne (h : A.Apart B σ) (hA : A.Alive σ) : A ≠ B := by
  rintro rfl
  exact h.frames A.bindings (.layer (Or.inl rfl)) (.layer (Or.inl rfl)) hA.bindings

namespace Machine

/-- Among all the runs, those on the layers come to what they come to when there are no others, and they
leave the bindings and all that these lead to as they leave them then. Whatever the layers led to in the
beginning is there the same on both accounts. -/
def Undisturbed (m : Machine) (layers : Layers) (jobs : List Job) : Prop :=
  ∃ M : Matching, (Matching.same (layers.territory m.store) m.store).Grows M ∧
    M.Abreast layers (m.performAll (layers.jobs jobs)).store (m.performAll jobs).store ∧
    List.Forall₂ M.AlikeReports (m.reports (layers.jobs jobs)) (layers.reports (m.reports jobs))

/-- At every moment of a run, and after it, everything is as it was that was there and that the bindings
of the run do not lead to. So when the bindings of two sets lead to nothing in common, runs on them do not
disturb one another, in whatever order they come. -/
theorem sets_apart_undisturbed (m : Machine) :
    (∀ job, (∀ n, m.Visits job n → job.layers.Spares m.store n.store) ∧
      job.layers.Spares m.store (m.perform job).2.store) ∧
    ∀ A B : Layers, m.store.Rested → m.store.Stocked → A.Alive m.store → B.Alive m.store →
      A.Apart B m.store → ∀ jobs : List Job, (∀ job ∈ jobs, job.layers = A ∨ job.layers = B) →
        m.Undisturbed A jobs ∧ m.Undisturbed B jobs := by
  refine ⟨fun job => ⟨fun _ hn => hn.spares, m.perform_spares job⟩, ?_⟩
  intro A B hrested hstocked hA hB hapart jobs hjobs
  obtain ⟨M, N, hM, hN, hbeside, hfirst, hsecond⟩ :=
    (hapart.beside hrested hstocked hA hB).performAll (hapart.ne hA) hjobs
  exact ⟨⟨M, hM, hbeside.first, hfirst⟩, ⟨N, hN, hbeside.second, hsecond⟩⟩

/-! A function that counts -/

/-- There is a variable in either of two sets. In the first one there is also a function that adds to a
variable of this name, and was declared in the one or in the other. -/
def counting (home : FrameId) : Machine :=
  { Machine.start with store :=
    ⟨#[some ⟨[("x", .integer 1), ("f", .function ⟨0, ⟨⟨"f", default⟩, [],
      [.expression (.adjust ⟨"x", default⟩ .increment default) default], default⟩, home⟩)], none, 1⟩,
      some ⟨[("x", .integer 1)], none, 1⟩], #[], 1⟩ }

/-- The function is called on the first set. -/
def countJob : Job :=
  ⟨5, 20, ⟨0, none⟩, ⟨[.expression (.call ⟨"f", default⟩ [] default) default], default⟩, .silent, []⟩

/-- The variable is looked up on the second set. -/
def lookJob : Job :=
  ⟨5, 20, ⟨1, none⟩, ⟨[.expression (.variable ⟨"x", default⟩) default], default⟩, .silent, []⟩

theorem mem_bindings_counting {home id : FrameId} {entry : String × Value}
    (h : entry ∈ (counting home).store.bindings id) : entry.2 = .integer 1 ∨
      id = 0 ∧ ∃ f, entry.2 = .function f ∧ f.identity = 0 ∧ f.home = home := by
  rcases id with _ | _ | id
  · have h : entry ∈ [_, _] := h
    simp only [List.mem_cons, List.not_mem_nil, or_false] at h
    rcases h with rfl | rfl
    · exact Or.inl rfl
    · exact Or.inr ⟨rfl, _, rfl, rfl, rfl⟩
  · obtain rfl := List.mem_singleton.mp h
    exact Or.inl rfl
  · exact absurd h (by simp [counting, Store.bindings, Store.frame?])

theorem cell?_counting {home id : FrameId} {entry : String × Value}
    (h : entry ∈ (counting home).store.bindings id) : entry.2.cell? = none := by
  rcases mem_bindings_counting h with hone | ⟨-, f, hf, -⟩
  · rw [hone]
    rfl
  · rw [hf]
    rfl

theorem parent?_counting (home id : FrameId) : (counting home).store.parent? id = none := by
  rcases id with _ | _ | id <;> simp [counting, Store.parent?, Store.frame?]

theorem counting_rested {home : FrameId} (hhome : home < 2) : (counting home).store.Rested := by
  refine ⟨fun id entry hentry => ?_, fun cell content hcell => ?_, fun id parent hparent => ?_⟩
  · rcases mem_bindings_counting hentry with hone | ⟨-, f, hf, hidentity, rfl⟩
    · rw [hone]
      trivial
    · rw [hf]
      exact ⟨hidentity ▸ Nat.one_pos, hhome⟩
  · exact absurd hcell (by simp [counting])
  · exact absurd hparent (by simp [parent?_counting])

theorem counting_stocked (home : FrameId) : (counting home).store.Stocked := by
  refine ⟨fun id entry hentry cell hcell => ?_, fun cell content hcell => ?_⟩
  · exact absurd hcell (by simp [cell?_counting hentry])
  · exact absurd hcell (by simp [counting])

theorem counting_alive (home : FrameId) {id : FrameId} (hid : id < 2) :
    Layers.Alive ⟨id, none⟩ (counting home).store := by
  refine ⟨?_, fun upper hupper => absurd hupper (by simp [Layers.upper?])⟩
  rcases id with _ | _ | id
  · rfl
  · rfl
  · exact absurd hid (Nat.not_lt_of_le (Nat.le_add_left 2 id))

/-- A set leads to what is bound in it only, unless the function is there and was declared in the
other. -/
theorem reaches_counting {home on : FrameId} (hon : on = 0 → home = 0) {node : Node}
    (h : Layers.Reaches ⟨on, none⟩ (counting home).store node) : node = .frame on ∨
      ∃ entry ∈ (counting home).store.bindings on, node = .value entry.2 := by
  induction h with
  | layer hid => exact Or.inl (congrArg Node.frame (by simpa [Layers.Has] using hid))
  | @binding id entry _ hentry ih =>
    rcases ih with ih | ⟨_, -, ih⟩
    · exact Or.inr ⟨entry, Node.frame.inj ih ▸ hentry, rfl⟩
    · exact absurd ih (by simp)
  | above _ _ hparent => exact absurd hparent (by simp [parent?_counting])
  | content _ hu =>
    obtain ⟨cell, content, -, hcontent, -⟩ := hu
    exact absurd hcontent (by simp [counting])
  | @home f _ ih =>
    rcases ih with ih | ⟨entry, hentry, ih⟩
    · exact absurd ih (by simp)
    · have hf : .function f = entry.2 := Node.value.inj ih
      rcases mem_bindings_counting hentry with hone | ⟨rfl, g, hg, -, hhome⟩
      · exact absurd (hf.trans hone) (by simp)
      · obtain rfl := Value.function.inj (hf.trans hg)
        exact Or.inl (congrArg Node.frame (hhome.trans (hon rfl)))

theorem counting_apart : Layers.Apart ⟨0, none⟩ ⟨1, none⟩ (counting 0).store := by
  refine ⟨fun id hfirst hsecond => ?_, fun cell hfirst => ?_⟩
  · rcases reaches_counting (fun _ => rfl) hfirst with hfirst | ⟨_, -, hfirst⟩
    · rcases reaches_counting (fun h => absurd h (by simp)) hsecond with hsecond | ⟨_, -, hsecond⟩
      · exact absurd (hfirst.symm.trans hsecond) (by simp)
      · exact absurd hsecond (by simp)
    · exact absurd hfirst (by simp)
  · obtain ⟨v, hv, hcell⟩ := hfirst
    rcases reaches_counting (fun _ => rfl) hv with hv | ⟨entry, hentry, hv⟩
    · exact absurd hv (by simp)
    · obtain rfl := Node.value.inj hv
      exact absurd hcell (by simp [cell?_counting hentry])

theorem sets_apart_undisturbed_counting :
    (counting 0).Undisturbed ⟨0, none⟩ [countJob, lookJob, countJob] ∧
      (counting 0).Undisturbed ⟨1, none⟩ [countJob, lookJob, countJob] :=
  (sets_apart_undisturbed (counting 0)).2 ⟨0, none⟩ ⟨1, none⟩ (counting_rested (by decide))
    (counting_stocked 0) (counting_alive 0 (by decide)) (counting_alive 0 (by decide)) counting_apart
    _ (by decide)

/-- When the function was declared in the second set, this set is disturbed, though the two have neither
a set nor a function nor an array nor a struct in common. -/
theorem not_undisturbed_of_capture :
    ¬ ∀ (m : Machine) (A B : Layers), m.store.Rested → m.store.Stocked → A.Alive m.store →
      B.Alive m.store → (∀ id, A.Has id → ¬ B.Has id) →
      (∀ v, A.Reaches m.store (.value v) → B.Reaches m.store (.value v) → v.isScalar) →
      ∀ jobs : List Job, (∀ job ∈ jobs, job.layers = A ∨ job.layers = B) →
        m.Undisturbed A jobs ∧ m.Undisturbed B jobs := by
  intro h
  have hlayers : ∀ id, Layers.Has ⟨0, none⟩ id → ¬ Layers.Has ⟨1, none⟩ id := by
    simp [Layers.Has]
  have hvalues : ∀ v, Layers.Reaches ⟨0, none⟩ (counting 1).store (.value v) →
      Layers.Reaches ⟨1, none⟩ (counting 1).store (.value v) → v.isScalar := by
    intro v _ hv
    rcases reaches_counting (fun h => absurd h (by simp)) hv with hv | ⟨entry, hentry, hv⟩
    · exact absurd hv (by simp)
    · obtain rfl := Node.value.inj hv
      rcases mem_bindings_counting hentry with hone | ⟨hfirst, -⟩
      · rw [hone]
        rfl
      · exact absurd hfirst (by decide)
  have hjobs : ∀ job ∈ [countJob, lookJob], job.layers = ⟨0, none⟩ ∨ job.layers = ⟨1, none⟩ := by
    decide
  obtain ⟨-, M, -, -, hreports⟩ := h (counting 1) ⟨0, none⟩ ⟨1, none⟩ (counting_rested (by decide))
    (counting_stocked 1) (counting_alive 1 (by decide)) (counting_alive 1 (by decide)) hlayers hvalues
    [countJob, lookJob] hjobs
  have halone : ((counting 1).perform lookJob).1 = .value (.integer 1) := rfl
  have htogether : (((counting 1).perform countJob).2.perform lookJob).1 = .value (.integer 2) := rfl
  have hending : M.AlikeEndings ((counting 1).perform lookJob).1
      (((counting 1).perform countJob).2.perform lookJob).1 := (List.forall₂_cons.mp hreports).1.ending
  rw [halone, htogether] at hending
  cases hending with
  | value hv => exact absurd (Value.integer.inj (hv.isScalar rfl)) (by decide)

end Machine

end ScriptEngine
