import Mathlib.Data.Fintype.EquivFin
import Mathlib.Order.WellFounded
import ScriptEngine.Proofs.Running.Series

/-!
The way up from a frame. No frame is above itself, neither between runs nor at any time in one, so the
search for a name goes up only so far. In a run the layers lie one above the other below the standard
functions, and there is nothing else above them; afterwards they are unlinked.
-/
namespace ScriptEngine

namespace Store

variable {σ σ' : Store} {id : FrameId} {name : String}

/-- The frame `id` lies directly below `parent`. -/
def Below (σ : Store) (id parent : FrameId) : Prop := σ.parent? id = some parent

/-- No frame is above itself. -/
def Acyclic (σ : Store) : Prop := ∀ id, ¬ Relation.TransGen σ.Below id id

/-- Above a frame there are these, from the lowest to the highest. -/
def Above (σ : Store) : FrameId → List FrameId → Prop
  | id, [] => σ.parent? id = none
  | id, parent :: rest => σ.parent? id = some parent ∧ σ.Above parent rest

/-- The search for a name in a frame, and in those above it for as long as there are any, comes to an
end, with this result. -/
inductive Searches (σ : Store) (name : String) : FrameId → Option FrameId → Prop where
  | found {id : FrameId} (hname : σ.hasLocal id name) : Searches σ name id (some id)
  | top {id : FrameId} (hname : σ.hasLocal id name = false) (hparent : σ.parent? id = none) :
      Searches σ name id none
  | up {id parent : FrameId} {result : Option FrameId} (hname : σ.hasLocal id name = false)
      (hparent : σ.parent? id = some parent) (hrest : Searches σ name parent result) : Searches σ name id result

theorem Above.congr {ids : List FrameId} (h : σ.Above id ids)
    (hparent : ∀ frame ∈ id :: ids, σ'.parent? frame = σ.parent? frame) : σ'.Above id ids := by
  induction ids generalizing id with
  | nil => exact (hparent id List.mem_cons_self).trans h
  | cons parent rest ih =>
    rw [List.forall_mem_cons] at hparent
    exact ⟨hparent.1.trans h.1, ih h.2 hparent.2⟩

/-! Searches -/

/-- Only frames that are there have parents, so there are but finitely many on the way up. -/
theorem Acyclic.wellFounded (h : σ.Acyclic) : WellFounded fun parent id => σ.Below id parent := by
  let upward : Fin σ.frames.size → Fin σ.frames.size → Prop := fun parent id =>
    Relation.TransGen σ.Below id parent
  have htrans : IsTrans (Fin σ.frames.size) upward := ⟨fun _ _ _ h h' => h'.trans h⟩
  have hirrefl : Std.Irrefl upward := ⟨fun id => h id⟩
  have hupward : WellFounded upward := Finite.wellFounded_of_trans_of_irrefl upward
  have hnone : ∀ id, σ.frames.size ≤ id → Acc (fun parent id => σ.Below id parent) id := by
    refine fun id hid => ⟨id, fun parent hparent => ?_⟩
    exact absurd (lt_size_of_isAlive (isAlive_of_parent? hparent)) (Nat.not_lt_of_le hid)
  have hacc : ∀ id : Fin σ.frames.size, Acc (fun parent id => σ.Below id parent) id.val := by
    intro id
    induction id using hupward.induction with
    | _ id ih =>
      refine ⟨id.val, fun parent hparent => ?_⟩
      by_cases hlt : parent < σ.frames.size
      · exact ih ⟨parent, hlt⟩ (.single hparent)
      · exact hnone parent (Nat.le_of_not_lt hlt)
  refine ⟨fun id => ?_⟩
  by_cases hlt : id < σ.frames.size
  · exact hacc ⟨id, hlt⟩
  · exact hnone id (Nat.le_of_not_lt hlt)

theorem Searches.findsAt {result : Option FrameId} (h : σ.Searches name id result) (frame : FrameId) :
    result = some frame ↔ ∃ n, σ.FindsAt name id n frame := by
  induction h with
  | @found id hname =>
    constructor
    · intro h
      obtain rfl := Option.some.inj h
      exact ⟨0, rfl, hname, fun k hk => absurd hk (Nat.not_lt_zero k)⟩
    · rintro ⟨_ | n, hfinds⟩
      · exact hfinds.at_
      · exact absurd (hfinds.first 0 (Nat.succ_pos n) id rfl) (by simp [hname])
  | @top id hname hparent =>
    refine ⟨fun h => absurd h (by simp), ?_⟩
    rintro ⟨_ | n, hfinds⟩
    · obtain rfl := Option.some.inj hfinds.at_
      exact absurd hfinds.has (by simp [hname])
    · have hat := hfinds.at_
      rw [ancestor?, hparent] at hat
      exact absurd hat (by simp)
  | @up id parent result hname hparent _ ih =>
    rw [ih]
    constructor
    · rintro ⟨n, hfinds⟩
      refine ⟨n + 1, ?_, hfinds.has, fun k hk other hother => ?_⟩
      · rw [ancestor?, hparent]
        exact hfinds.at_
      · cases k with
        | zero => exact Option.some.inj hother ▸ hname
        | succ k =>
          rw [ancestor?, hparent] at hother
          exact hfinds.first k (Nat.lt_of_succ_lt_succ hk) other hother
    · rintro ⟨_ | n, hfinds⟩
      · obtain rfl := Option.some.inj hfinds.at_
        exact absurd hfinds.has (by simp [hname])
      · have hat := hfinds.at_
        rw [ancestor?, hparent] at hat
        refine ⟨n, hat, hfinds.has, fun k hk other hother => ?_⟩
        refine hfinds.first (k + 1) (Nat.succ_lt_succ hk) other ?_
        rw [ancestor?, hparent]
        exact hother

/-- The search for a name comes to an end, and what it finds is what the name means. -/
theorem Acyclic.searches (h : σ.Acyclic) (name : String) (id : FrameId) :
    σ.Searches name id (σ.resolve id name) := by
  have hends : ∃ result, σ.Searches name id result := by
    induction id using h.wellFounded.induction with
    | _ id ih =>
      cases hname : σ.hasLocal id name with
      | true => exact ⟨some id, .found hname⟩
      | false =>
        cases hparent : σ.parent? id with
        | none => exact ⟨none, .top hname hparent⟩
        | some parent =>
          obtain ⟨result, hresult⟩ := ih parent hparent
          exact ⟨result, .up hname hparent hresult⟩
  obtain ⟨result, hresult⟩ := hends
  have hsame : σ.resolve id name = result := by
    ext frame
    rw [hresult.findsAt, resolve, resolveWithin_eq_some_iff]
    constructor
    · rintro ⟨n, -, hfinds⟩
      exact ⟨n, hfinds⟩
    · rintro ⟨n, hfinds⟩
      exact ⟨n, hfinds.lt_size, hfinds⟩
  exact hsame ▸ hresult

/-! More frames -/

/-- Frames that come below older ones are not above them. -/
theorem Acyclic.extend {first : FrameId} (h : σ.Acyclic)
    (hbelow : ∀ id parent, σ.Below id parent → parent < first)
    (hold : ∀ id, id < first → σ'.parent? id = σ.parent? id)
    (hnew : ∀ id parent, first ≤ id → σ'.Below id parent → parent < id) : σ'.Acyclic := by
  -- from an old frame there are only old ones on the way up, from a new one only older ones
  have hway : ∀ {id frame}, Relation.TransGen σ'.Below id frame →
      (id < first → Relation.TransGen σ.Below id frame ∧ frame < first) ∧
        (first ≤ id → frame < id) := by
    intro id frame hpath
    induction hpath using Relation.TransGen.head_induction_on with
    | single hstep =>
      refine ⟨fun hid => ?_, fun hid => hnew _ _ hid hstep⟩
      have hstep : σ.Below _ frame := (hold _ hid).symm.trans hstep
      exact ⟨.single hstep, hbelow _ _ hstep⟩
    | @head id parent hstep _ ih =>
      refine ⟨fun hid => ?_, fun hid => ?_⟩
      · have hstep : σ.Below id parent := (hold _ hid).symm.trans hstep
        obtain ⟨hpath, hframe⟩ := ih.1 (hbelow _ _ hstep)
        exact ⟨.head hstep hpath, hframe⟩
      · have holder := hnew _ _ hid hstep
        by_cases hparent : parent < first
        · exact Nat.lt_of_lt_of_le (ih.1 hparent).2 hid
        · exact Nat.lt_trans (ih.2 (Nat.le_of_not_lt hparent)) holder
  intro id hcycle
  by_cases hid : id < first
  · exact h id ((hway hcycle).1 hid).1
  · exact Nat.lt_irrefl id ((hway hcycle).2 (Nat.le_of_not_lt hid))

theorem Acyclic.congr (h : σ.Acyclic) (hparent : ∀ id, σ'.parent? id = σ.parent? id) : σ'.Acyclic := by
  have hbelow : σ'.Below = σ.Below := funext fun id => funext fun parent =>
    congrArg (· = some parent) (hparent id)
  unfold Acyclic
  rw [hbelow]
  exact h

theorem acyclic_of_parent_lt (h : ∀ id parent, σ.Below id parent → parent < id) : σ.Acyclic := by
  have hway : ∀ {id frame}, Relation.TransGen σ.Below id frame → frame < id := by
    intro id frame hpath
    induction hpath with
    | single hstep => exact h _ _ hstep
    | tail _ hstep ih => exact Nat.lt_trans (h _ _ hstep) ih
  exact fun id hcycle => Nat.lt_irrefl id (hway hcycle)

end Store

namespace Machine

variable {m n : Machine} {layers : Layers} {job : Job}

/-! The layers -/

theorem parent?_begin_top (halive : layers.Alive m.store) :
    (m.begin layers).2.store.parent? m.store.frames.size = none := by
  rw [parent?_begin_eq halive]
  exact halive.parentBelow_new (Nat.le_refl _) (fun _ hid => Store.frame?_eq_none hid) _

theorem parent?_begin_bindings (halive : layers.Alive m.store) :
    (m.begin layers).2.store.parent? layers.bindings =
      some (layers.upper?.getD m.store.frames.size) := by
  rw [parent?_begin_eq halive, Layers.parentBelow, if_pos rfl]

theorem parent?_begin_upper (halive : layers.Alive m.store) {upper : FrameId}
    (hupper : layers.upper? = some upper) :
    (m.begin layers).2.store.parent? upper = some m.store.frames.size := by
  rw [parent?_begin_eq halive, Layers.parentBelow, if_neg (Layers.upper?_ne hupper), if_pos hupper]

theorem above_begin (halive : layers.Alive m.store) :
    (m.begin layers).2.store.Above layers.bindings
      (layers.upper?.toList ++ [m.store.frames.size]) := by
  have hbindings := parent?_begin_bindings halive
  have htop := parent?_begin_top halive
  cases hupper : layers.upper? with
  | none =>
    rw [hupper] at hbindings
    exact ⟨hbindings, htop⟩
  | some upper =>
    rw [hupper] at hbindings
    exact ⟨hbindings, parent?_begin_upper halive hupper, htop⟩

/-- Linking the layers puts no frame above itself: only layers and the new frame are above a layer. -/
theorem acyclic_begin (hacyclic : m.store.Acyclic) (halive : layers.Alive m.store) :
    (m.begin layers).2.store.Acyclic := by
  have htop := parent?_begin_top halive
  have hgone : ¬ m.store.isAlive m.store.frames.size := fun h =>
    Nat.lt_irrefl _ (Store.lt_size_of_isAlive h)
  have hway : ∀ {id frame}, Relation.TransGen (m.begin layers).2.store.Below id frame →
      frame = m.store.frames.size ∨ layers.upper? = some frame ∨
        Relation.TransGen m.store.Below id frame := by
    intro id frame hpath
    induction hpath with
    | single hstep =>
      rcases parent?_begin hstep with h | h | ⟨-, -, h⟩
      · exact Or.inl h
      · exact Or.inr (Or.inl h)
      · exact Or.inr (Or.inr (.single h))
    | tail _ hstep ih =>
      rcases parent?_begin hstep with h | h | ⟨-, hlayer, h⟩
      · exact Or.inl h
      · exact Or.inr (Or.inl h)
      · rcases ih with rfl | hupper | hpath
        · exact absurd (Store.isAlive_of_parent? h) hgone
        · exact absurd hupper hlayer
        · exact Or.inr (Or.inr (.tail hpath h))
  intro id hcycle
  rcases hway hcycle with rfl | hupper | hold
  · obtain ⟨parent, hstep, -⟩ := Relation.TransGen.head'_iff.mp hcycle
    exact absurd (htop.symm.trans hstep) (by simp)
  · obtain ⟨parent, hstep, hrest⟩ := Relation.TransGen.head'_iff.mp hcycle
    obtain rfl := Option.some.inj ((parent?_begin_upper halive hupper).symm.trans hstep)
    rcases Relation.ReflTransGen.cases_head hrest with rfl | ⟨above, habove, -⟩
    · exact hgone (halive.upper _ hupper)
    · exact absurd (htop.symm.trans habove) (by simp)
  · exact hacyclic id hold

theorem parent_le_begin (hrested : m.store.Rested) (halive : layers.Alive m.store) {id parent : FrameId}
    (h : (m.begin layers).2.store.Below id parent) : parent < m.store.frames.size + 1 := by
  rcases parent?_begin h with rfl | hupper | ⟨-, -, hparent⟩
  · exact Nat.lt_succ_self _
  · exact Nat.lt_succ_of_lt (Store.lt_size_of_isAlive (halive.upper _ hupper))
  · exact Nat.lt_succ_of_lt (hrested.parents _ _ hparent)

/-! States of a run -/

/-- The frames from before a run keep, for as long as it goes on, the parents that they get when it
begins. -/
theorem Visits.parent? (h : m.Visits job n) (hrested : m.store.Rested)
    (halive : job.layers.Alive m.store) {id : FrameId} (hid : id < m.store.frames.size + 1) :
    n.store.parent? id = ((m.equipped job).begin job.layers).2.store.parent? id := by
  refine (h.onward hrested halive).1.frames.parent? ?_
  rw [size_begin]
  exact hid

theorem Visits.acyclic (h : m.Visits job n) (hrested : m.store.Rested)
    (hacyclic : m.store.Acyclic) (halive : job.layers.Alive m.store) : n.store.Acyclic := by
  refine (acyclic_begin (m := m.equipped job) hacyclic halive).extend
    (fun _ _ hstep => parent_le_begin (m := m.equipped job) hrested halive hstep)
    (fun id hid => h.parent? hrested halive hid) fun id parent hid hstep => ?_
  obtain ⟨above, habove, holder, -⟩ :=
    (h.onward hrested halive).2 id hid (Store.isAlive_of_parent? hstep)
  obtain rfl := Option.some.inj (habove.symm.trans hstep)
  exact holder

theorem Visits.above (h : m.Visits job n) (hrested : m.store.Rested)
    (halive : job.layers.Alive m.store) :
    n.store.Above job.layers.bindings (job.layers.upper?.toList ++ [m.store.frames.size]) := by
  refine (above_begin (m := m.equipped job) halive).congr fun frame hframe => ?_
  refine h.parent? hrested halive ?_
  rcases List.mem_cons.mp hframe with rfl | hframe
  · exact Nat.lt_succ_of_lt (Store.lt_size_of_isAlive halive.bindings)
  · rcases List.mem_append.mp hframe with hupper | htop
    · have hupper : job.layers.upper? = some frame := by simpa using hupper
      exact Nat.lt_succ_of_lt (Store.lt_size_of_isAlive (halive.upper _ hupper))
    · exact Nat.lt_succ_of_le (Nat.le_of_eq (List.mem_singleton.mp htop))

/-- The names of the standard functions are never taken away. -/
theorem Visits.hasLocal_top (h : m.Visits job n) (hrested : m.store.Rested)
    (halive : job.layers.Alive m.store) {name : String} (hname : name ∈ Store.standardNames) :
    n.store.hasLocal m.store.frames.size name := by
  have hlt : m.store.frames.size < ((m.equipped job).begin job.layers).2.store.frames.size := by
    rw [size_begin]
    exact Nat.lt_succ_self _
  refine Entries.has_iff.mpr (((h.onward hrested halive).1.names _ hlt).mem ?_)
  have htop := bindings_begin_top job.layers (m.equipped job)
  rw [show (m.equipped job).store.frames.size = m.store.frames.size from rfl] at htop
  rw [htop]
  exact hname

/-- Whatever runs have gone before, and however they ended, every frame has the parent that it had
before the first of them. In every state of the next run there are above its bindings its globals, if
these are another set, and the frame with the standard functions, and nothing else. At no time is a
frame above itself, and every search for a name comes to an end. -/
theorem layers_linked_and_restored {jobs : List Job} (hrested : m.store.Rested)
    (hacyclic : m.store.Acyclic) (halive : ∀ job ∈ jobs, job.layers.Alive m.store) :
    ∀ before after, jobs = before ++ after →
      (∀ id, (m.performAll before).store.parent? id = m.store.parent? id) ∧
      (m.performAll before).store.Acyclic ∧
      ∀ job ∈ after.head?, ∀ n, (m.performAll before).Visits job n →
        n.store.Above job.layers.bindings
          (job.layers.upper?.toList ++ [(m.performAll before).store.frames.size]) ∧
        (∀ name ∈ Store.standardNames,
          n.store.hasLocal (m.performAll before).store.frames.size name) ∧
        n.store.Acyclic ∧ ∀ id name, n.store.Searches name id (n.store.resolve id name) := by
  rintro before after rfl
  have hsettles := m.settles_performAll before
  have hparent : ∀ id, (m.performAll before).store.parent? id = m.store.parent? id :=
    fun id => Store.parent?_congr (hsettles.links id)
  have hbetween := hacyclic.congr hparent
  refine ⟨hparent, hbetween, fun job hjob n hn => ?_⟩
  have hjob := List.mem_of_mem_head? hjob
  have hrested' := rested_performAll hrested fun other hother =>
    halive other (List.mem_append_left _ hother)
  have halive' := (halive job (List.mem_append_right _ hjob)).settles hsettles
  have hacyclic' := hn.acyclic hrested' hbetween halive'
  exact ⟨hn.above hrested' halive', fun name hname => hn.hasLocal_top hrested' halive' hname,
    hacyclic', fun id name => hacyclic'.searches name id⟩

/-- Two sets of bindings, of which the second lies below the first. -/
def stacked : Machine :=
  { Machine.start with store := ⟨#[some ⟨[], none, 1⟩, some ⟨[], some 0, 1⟩], #[], 0⟩ }

/-- A run that throws, on a set with globals. -/
def throwing (layers : Layers) : Job :=
  ⟨1, 9, layers, ⟨[.transfer .throw none default], default⟩, .silent, []⟩

theorem bindings_stacked (id : FrameId) : stacked.store.bindings id = [] := by
  rcases id with _ | _ | id <;> simp [stacked, Store.bindings, Store.frame?]

theorem below_stacked {id parent : FrameId} (h : stacked.store.Below id parent) :
    id = 1 ∧ parent = 0 := by
  rcases id with _ | _ | id <;> simp_all [stacked, Store.Below, Store.parent?, Store.frame?]

theorem stacked_rested : stacked.store.Rested := by
  refine ⟨fun id entry hentry => ?_, fun cell content hcell => ?_, fun id parent hparent => ?_⟩
  · rw [bindings_stacked] at hentry
    exact absurd hentry List.not_mem_nil
  · exact absurd hcell (by simp [stacked])
  · obtain ⟨-, rfl⟩ := below_stacked hparent
    decide

theorem stacked_alive {layers : Layers} (h : layers.bindings < 2) (h' : ∀ id ∈ layers.globals, id < 2) :
    layers.Alive stacked.store := by
  have hthere : ∀ id, id < 2 → stacked.store.isAlive id := by decide
  exact ⟨hthere _ h, fun upper hupper => hthere _ (h' upper (Layers.globals_of_upper? hupper))⟩

/-- When the second set has been the globals of the first, the first is those of the second, and at last
a set is its own globals. -/
theorem layers_linked_and_restored_stacked :
    (∀ id, (stacked.performAll [throwing ⟨0, some 1⟩]).store.parent? id = stacked.store.parent? id) ∧
    (stacked.performAll [throwing ⟨0, some 1⟩]).store.Acyclic ∧
    ∀ job ∈ [throwing ⟨1, some 0⟩, throwing ⟨1, some 1⟩].head?, ∀ n,
      (stacked.performAll [throwing ⟨0, some 1⟩]).Visits job n →
      n.store.Above job.layers.bindings
        (job.layers.upper?.toList ++ [(stacked.performAll [throwing ⟨0, some 1⟩]).store.frames.size]) ∧
      (∀ name ∈ Store.standardNames,
        n.store.hasLocal (stacked.performAll [throwing ⟨0, some 1⟩]).store.frames.size name) ∧
      n.store.Acyclic ∧ ∀ id name, n.store.Searches name id (n.store.resolve id name) := by
  have hacyclic : stacked.store.Acyclic := by
    refine Store.acyclic_of_parent_lt fun id parent hstep => ?_
    obtain ⟨rfl, rfl⟩ := below_stacked hstep
    exact Nat.one_pos
  have halive : ∀ job ∈ [throwing ⟨0, some 1⟩, throwing ⟨1, some 0⟩, throwing ⟨1, some 1⟩],
      job.layers.Alive stacked.store := by
    intro job hjob
    simp only [List.mem_cons, List.not_mem_nil, or_false] at hjob
    rcases hjob with rfl | rfl | rfl <;> exact stacked_alive (by decide) (by decide)
  exact layers_linked_and_restored stacked_rested hacyclic halive [throwing ⟨0, some 1⟩] _ rfl

end Machine

end ScriptEngine
