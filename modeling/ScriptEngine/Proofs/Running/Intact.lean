import ScriptEngine.Proofs.Running.Isolation

/-!
Stores in which nothing stands for what was never made. Every array and every struct that a value stands
for was made, every callable has a number that was given out, and functions and frames lie below frames
that were made. Such a store goes together with itself, number by number. So an evaluation that begins on
it does what it does next to itself, and all that it gives out is its own. By this the store stays intact
from one moment of a run to the next.
-/
namespace ScriptEngine

/-- All that is referred to was made. -/
structure Store.Intact (σ : Store) : Prop where
  rested : σ.Rested
  stocked : σ.Stocked

/-- All that the value refers to was made. -/
structure Value.Intact (σ : Store) (v : Value) : Prop where
  predates : v.Predates σ
  stocked : v.Stocked σ

theorem Store.Intact.bindings {σ : Store} (h : σ.Intact) {id : FrameId} {entry : String × Value}
    (hentry : entry ∈ σ.bindings id) : entry.2.Intact σ :=
  ⟨h.rested.bindings id entry hentry, h.stocked.bindings id entry hentry⟩

theorem Store.Intact.content {σ : Store} (h : σ.Intact) {cell : CellId} {content : Cell}
    (hcontent : σ.cells[cell]? = some content) {v : Value} (hv : v ∈ content.values) : v.Intact σ :=
  ⟨h.rested.cells cell content hcontent v hv, h.stocked.cells cell content hcontent v hv⟩

theorem Value.Intact.below {m : Machine} {v : Value} (h : v.Intact m.store) (parent : FrameId) :
    v.Intact (m.below parent).store := by
  refine ⟨h.predates.mono ?_ (Nat.le_refl _), h.stocked⟩
  exact Nat.le_of_lt (Nat.lt_of_lt_of_eq (Nat.lt_succ_self _) (Store.size_newChild ..).symm)

namespace Matching

variable {M N : Matching} {σ σ' : Store} {v v' : Value}

/-! A store and itself -/

theorem pairs_same {scope : FrameId} (hscope : scope < σ.frames.size) :
    (same .everything σ).frames.pairs scope scope := ⟨rfl, hscope, trivial⟩

theorem alike_same (h : v.Intact σ) : (same .everything σ).Alike v v :=
  alike_self ⟨fun _ _ => trivial, fun _ _ => trivial⟩ h.predates h.stocked

theorem forall₂_alike_same {vs : List Value} (h : ∀ v ∈ vs, v.Intact σ) :
    List.Forall₂ (same .everything σ).Alike vs vs :=
  List.forall₂_same.mpr fun v hv => alike_same (h v hv)

theorem likens_same (h : σ.Intact) : (same .everything σ).Likens σ σ := by
  refine ⟨⟨rfl, rfl⟩, ⟨rfl, rfl⟩, ⟨rfl, rfl⟩, ?_, ?_⟩
  · rintro id _ ⟨rfl, -⟩
    have hbindings : ∀ entry ∈ σ.bindings id, (same .everything σ).Alike entry.2 entry.2 :=
      fun entry hentry => alike_same (h.bindings hentry)
    have hparents := h.rested.parents id
    unfold Store.bindings at hbindings
    unfold Store.parent? at hparents
    cases hframe : σ.frame? id with
    | none => exact .none
    | some frame =>
      rw [hframe] at hbindings hparents
      refine .some ⟨List.forall₂_same.mpr fun entry hentry => ⟨rfl, hbindings entry hentry⟩, fun _ => ?_⟩
      cases hparent : frame.parent with
      | none => exact .none
      | some parent => exact .some (pairs_same (hparents parent hparent))
  · rintro cell _ ⟨rfl, -⟩
    cases hcontent : σ.cells[cell]? with
    | none => exact .none
    | some content =>
      exact .some (alikeCells_self fun v hv => alike_same (h.content hcontent hv))

/-- Every frame and every cell on the first side goes together with one. -/
structure Full (M : Matching) : Prop where
  frames : ∀ id < M.frames.left, ∃ id', M.frames.pairs id id'
  cells : ∀ cell < M.cells.left, ∃ cell', M.cells.pairs cell cell'

theorem full_same (σ : Store) : (same .everything σ).Full :=
  ⟨fun id hid => ⟨id, rfl, hid, trivial⟩, fun cell hcell => ⟨cell, rfl, hcell, trivial⟩⟩

theorem Full.grows (h : M.Full) (hN : M.Grows N) : N.Full :=
  ⟨fun _ hid => hN.frames.all h.frames hid, fun _ hcell => hN.cells.all h.cells hcell⟩

theorem LikensBut.intact_of_alike {loose : FrameId → Prop} (h : M.LikensBut loose σ σ')
    (hv : M.Alike v v') : v.Intact σ := by
  refine ⟨?_, hv.stocked h.cellCount.1⟩
  cases hv with
  | scalar hscalar =>
    cases v with
    | function | native => exact absurd hscalar (by simp [Value.isScalar])
    | _ => trivial
  | array | struct => trivial
  | function hidentity hhome =>
    refine ⟨?_, h.frameCount.1 ▸ (M.frames.below _ _ hhome).1⟩
    exact h.identityCount.1 ▸ (M.identities.below _ _ hidentity).1
  | native hidentity => exact Nat.lt_of_lt_of_eq (M.identities.below _ _ hidentity).1 h.identityCount.1

/-- What goes together with something refers to nothing else. -/
theorem LikensBut.intact (h : M.Likens σ σ') (hfull : M.Full) : σ.Intact := by
  refine ⟨⟨fun id entry hentry => ?_, fun cell content hcontent v hv => ?_, fun id parent hparent => ?_⟩,
    h.stocked hfull.frames hfull.cells⟩
  · have hlt := Store.lt_size_of_isAlive (Store.isAlive_of_mem_bindings hentry)
    obtain ⟨id', hpairs⟩ := hfull.frames id (h.frameCount.1 ▸ hlt)
    obtain ⟨_, -, halike⟩ := exists_of_mem (h.bindings hpairs).flip hentry
    exact (h.intact_of_alike halike.2).predates
  · obtain ⟨hlt, -⟩ := Array.getElem?_eq_some_iff.mp hcontent
    obtain ⟨cell', hpairs⟩ := hfull.cells cell (h.cellCount.1 ▸ hlt)
    have halike := h.cells cell cell' hpairs
    rw [hcontent] at halike
    generalize σ'.cells[cell']? = content' at halike
    cases halike with
    | some halike =>
      obtain ⟨_, -, hv⟩ := exists_of_mem halike.values.flip hv
      exact (h.intact_of_alike hv).predates
  · have hlt := Store.lt_size_of_isAlive (Store.isAlive_of_parent? hparent)
    obtain ⟨id', hpairs⟩ := hfull.frames id (h.frameCount.1 ▸ hlt)
    have hup := h.parent? hpairs not_false
    rw [hparent] at hup
    generalize σ'.parent? id' = parent' at hup
    cases hup with
    | some hpairs => exact h.frameCount.1 ▸ (M.frames.below _ _ hpairs).1

/-- What comes to the same on both sides leaves machines that are alike. -/
theorem Meets.machines {α β : Type} {r : Matching → α → β → Prop} {outcome : Outcome α}
    {outcome' : Outcome β} (h : M.Meets r outcome outcome') :
    ∃ N, M.Grows N ∧ N.Machines outcome.machine outcome'.machine := by
  cases h with
  | done hN hm => exact ⟨_, hN, hm⟩
  | signalled hN hm => exact ⟨_, hN, hm⟩
  | failed hN hm => exact ⟨_, hN, hm⟩
  | exhausted hN hm => exact ⟨_, hN, hm⟩

end Matching

/-- The store after it is intact, and it has the frames that it had. -/
structure Machine.Upholds (m n : Machine) : Prop where
  intact : n.store.Intact
  frames : m.store.frames.size ≤ n.store.frames.size

theorem Machine.Upholds.trans {m n k : Machine} (h : m.Upholds n) (h' : n.Upholds k) : m.Upholds k :=
  ⟨h'.intact, Nat.le_trans h.frames h'.frames⟩

namespace Eval

open Matching

variable {α : Type} {m n : Machine} {r : Matching → α → α → Prop} {x : Eval α} {limit : Nat}

/-- The evaluation next to itself. -/
theorem Parallel.meets_self (hx : Parallel (same .everything m.store) r x x) (hm : m.store.Intact) :
    (same .everything m.store).Meets r (x m) (x m) :=
  hx _ m m (.refl _) ⟨likens_same hm, rfl, rfl, rfl⟩

theorem Parallel.upholds (hx : Parallel (same .everything m.store) r x x) (hm : m.store.Intact) :
    m.Upholds (x m).machine := by
  obtain ⟨N, hN, hmachines⟩ := (hx.meets_self hm).machines
  have hfull := (full_same m.store).grows hN
  exact ⟨hmachines.store.intact hfull, hmachines.store.frameCount.1 ▸ hN.frames.left⟩

theorem Parallel.upholds_done (hx : Parallel (same .everything m.store) r x x)
    (hm : m.store.Intact) {a : α} (ha : x m = .done a n) :
    m.Upholds n ∧ ∃ N : Matching, N.Likens n.store n.store ∧ r N a a := by
  have hupholds := hx.upholds hm
  have hmeets := hx.meets_self hm
  rw [ha] at hupholds hmeets
  cases hmeets with
  | done _ hn hr => exact ⟨hupholds, _, hn.store, hr⟩

theorem Parallel.upholds_signalled (hx : Parallel (same .everything m.store) r x x)
    (hm : m.store.Intact) {s : Signal} (hs : x m = .signalled s n) :
    m.Upholds n ∧ ∀ kind v place, s = .transfer kind v place → v.Intact n.store := by
  have hupholds := hx.upholds hm
  have hmeets := hx.meets_self hm
  rw [hs] at hupholds hmeets
  cases hmeets with
  | signalled _ hn hsignal =>
    refine ⟨hupholds, fun kind v place heq => ?_⟩
    subst heq
    cases hsignal with
    | transfer hv => exact hn.store.intact_of_alike hv

theorem upholds_below (hm : m.store.Intact) {parent : FrameId} (hparent : parent < m.store.frames.size) :
    m.Upholds (m.below parent) ∧ m.store.frames.size < (m.below parent).store.frames.size := by
  have hchild := (likens_same hm).newChild (pairs_same hparent)
  have hsize := Nat.lt_of_lt_of_eq (Nat.lt_succ_self m.store.frames.size)
    (Store.size_newChild m.store parent).symm
  exact ⟨⟨hchild.intact ((full_same m.store).grows (grows_withFrame _)), Nat.le_of_lt hsize⟩, hsize⟩

theorem upholds_expr {fuel : Nat} {scope : FrameId} {e : Expr} {v : Value} (hm : m.store.Intact)
    (hscope : scope < m.store.frames.size) (h : expr limit fuel scope e m = .done v n) : m.Upholds n :=
  (((parallels limit fuel).expr e (pairs_same hscope)).upholds_done hm h).1

theorem upholds_exprs {fuel : Nat} {scope : FrameId} {es : List Expr} {vs : List Value}
    (hm : m.store.Intact) (hscope : scope < m.store.frames.size)
    (h : exprs limit fuel scope es m = .done vs n) : m.Upholds n ∧ ∀ v ∈ vs, v.Intact n.store := by
  obtain ⟨hstep, N, hN, hvs⟩ :=
    ((parallels limit fuel).exprs es (pairs_same hscope)).upholds_done hm h
  exact ⟨hstep, fun v hv => hN.intact_of_alike (List.forall₂_same.mp hvs v hv)⟩

theorem upholds_passes {scope : FrameId} {es : List Expr} (h : Passes limit scope es m n)
    (hm : m.store.Intact) (hscope : scope < m.store.frames.size) : m.Upholds n := by
  induction h with
  | nil => exact ⟨hm, Nat.le_refl _⟩
  | cons fuel hfirst _ ih =>
    have hstep := upholds_expr hm hscope hfirst
    exact hstep.trans (ih hstep.intact (Nat.lt_of_lt_of_le hscope hstep.frames))

end Eval

/-- The task refers to what was made only. -/
def Task.Intact (σ : Store) : Task → Prop
  | expr scope _ => scope < σ.frames.size
  | call f arguments _ => (Value.function f).Intact σ ∧ ∀ v ∈ arguments, v.Intact σ
  | native _ arguments _ => ∀ v ∈ arguments, v.Intact σ
  | stmt scope _ => scope < σ.frames.size
  | stmts scope _ => scope < σ.frames.size

structure Moment.Intact (M : Moment) : Prop where
  store : M.machine.store.Intact
  task : M.task.Intact M.machine.store

section

variable {limit : Nat} {M N : Moment}

open Eval Matching

/-- A moment that is entered from one that is intact is intact. -/
theorem Enters.intact (h : Enters limit M N) (hM : M.Intact) : N.Intact := by
  obtain ⟨hm, htask⟩ := hM
  cases h with
  | operand hsubject hoperands hbefore =>
    have hstep := upholds_passes hbefore hm htask
    exact ⟨hstep.intact, Nat.lt_of_lt_of_le htask hstep.frames⟩
  | call fuel hframe harguments hcallee =>
    obtain ⟨hstep, hvs⟩ := upholds_exprs hm htask harguments
    have hf := Entries.mem_of_get? hcallee
    have hcalled := hstep.intact.bindings hf
    exact ⟨hstep.intact, hcalled, hvs⟩
  | native fuel hframe harguments hcallee =>
    obtain ⟨hstep, hvs⟩ := upholds_exprs hm htask harguments
    exact ⟨hstep.intact, hvs⟩
  | @activation f arguments place m m' hcheck hbind =>
    obtain ⟨hbelow, hnew⟩ := upholds_below hm htask.1.predates.2
    have harguments := forall₂_alike_same fun v hv => (htask.2 v hv).below f.home
    obtain ⟨hstep, -⟩ := (parallel_bindParameters f.definition.params (pairs_same hnew)
      harguments).upholds_done hbelow.intact hbind
    exact ⟨hstep.intact, Nat.lt_of_lt_of_le hnew hstep.frames⟩
  | part hoperand => exact ⟨hm, htask⟩
  | block =>
    obtain ⟨hbelow, hnew⟩ := upholds_below hm htask
    exact ⟨hbelow.intact, hnew⟩
  | branch fuel hcondition hchosen =>
    have hstep := upholds_expr hm htask hcondition
    exact ⟨hstep.intact, Nat.lt_of_lt_of_le htask hstep.frames⟩
  | pass fuel hcondition htruth =>
    have hstep := upholds_expr hm htask hcondition
    exact ⟨hstep.intact, Nat.lt_of_lt_of_le htask hstep.frames⟩
  | @again scope condition body _ _ _ m' m'' fuel hcondition htruth hbody =>
    have hstep := upholds_expr hm htask hcondition
    have hscope := Nat.lt_of_lt_of_le htask hstep.frames
    have hparallel := (parallels limit fuel).stmt body (pairs_same hscope)
    have hpass : m'.Upholds m'' :=
      hbody.elim (fun hbody => (hparallel.upholds_done hstep.intact hbody).1)
        fun ⟨_, hbody⟩ => (hparallel.upholds_signalled hstep.intact hbody).1
    exact ⟨hpass.intact, Nat.lt_of_lt_of_le hscope hpass.frames⟩
  | attempt =>
    obtain ⟨hbelow, hnew⟩ := upholds_below hm htask
    exact ⟨hbelow.intact, hnew⟩
  | @handler scope body _ param handler _ _ m payload place m' m'' fuel hthrown hparam =>
    obtain ⟨hstep, hpayload⟩ :=
      ((parallels limit fuel).block (pairs_same htask) body).upholds_signalled hm hthrown
    obtain ⟨hbelow, hnew⟩ := upholds_below hstep.intact (Nat.lt_of_lt_of_le htask hstep.frames)
    have hthrown := alike_same ((hpayload _ _ _ rfl).below scope)
    obtain ⟨hdeclared, -⟩ := (parallel_declareThrown (pairs_same hnew) param
      hthrown).upholds_done hbelow.intact hparam
    exact ⟨hdeclared.intact, Nat.lt_of_lt_of_le hnew hdeclared.frames⟩
  | first => exact ⟨hm, htask⟩
  | @rest scope s _ _ _ fuel hfirst =>
    obtain ⟨hstep, -⟩ := ((parallels limit fuel).stmt s (pairs_same htask)).upholds_done hm hfirst
    exact ⟨hstep.intact, Nat.lt_of_lt_of_le htask hstep.frames⟩

/-- And so is every moment that is reached from it. -/
theorem Moment.Reaches.intact (h : M.Reaches limit N) (hM : M.Intact) : N.Intact := by
  induction h with
  | refl => exact hM
  | tail _ hlast ih => exact hlast.intact ih

/-- Whatever becomes of the task, the store stays intact. -/
theorem Moment.Intact.upholds (hM : M.Intact) (fuel : Nat) :
    M.machine.Upholds (M.task.eval limit fuel M.machine).machine := by
  obtain ⟨task, m⟩ := M
  obtain ⟨hm, htask⟩ := hM
  have hall := parallels limit fuel
  cases task with
  | expr scope e => exact (hall.expr e (pairs_same htask)).upholds hm
  | call f arguments place =>
    have hhome := pairs_same htask.1.predates.2
    exact (hall.call place hhome (forall₂_alike_same htask.2)).upholds hm
  | native f arguments place =>
    exact (parallel_callNative (forall₂_alike_same htask) place).upholds hm
  | stmt scope s =>
    have hnull := (hall.stmt s (pairs_same htask)).bind fun _ _ _ _ _ => parallel_value .null
    exact hnull.upholds hm
  | stmts scope body =>
    have hnull := (hall.stmts body (pairs_same htask)).bind fun _ _ _ _ _ => parallel_value .null
    exact hnull.upholds hm

end

namespace Machine

open Matching

variable {m n : Machine} {layers : Layers} {job : Job}

theorem intact_begin (hm : m.store.Intact) (halive : layers.Alive m.store) :
    m.Upholds (m.begin layers).2 := by
  have hlayers : ∀ id, layers.Has id → (same .everything m.store).frames.pairs id id := by
    intro id hid
    refine pairs_same (Store.lt_size_of_isAlive ?_)
    rcases Layers.has_iff.mp hid with rfl | hupper
    · exact halive.bindings
    · exact halive.upper id hupper
  obtain ⟨N, hN, -, hbegin⟩ :=
    ((likens_same hm).loosen fun _ hid => hid.elim).begin hlayers rfl rfl
  refine ⟨hbegin.store.intact ((full_same m.store).grows hN), ?_⟩
  exact hbegin.store.frameCount.1 ▸ hN.frames.left

/-- When a run begins on an intact store, every moment of the run is intact. -/
theorem intact_of_reaches {limit : Nat} {program : Program} {M : Moment}
    (h : (m.outset layers program).Reaches limit M) (hm : m.store.Intact)
    (halive : layers.Alive m.store) : M.Intact := by
  have hbegin := intact_begin hm halive
  have hscope := Nat.lt_of_lt_of_le (Store.lt_size_of_isAlive halive.bindings) hbegin.frames
  exact h.intact ⟨hbegin.intact, hscope⟩

theorem Visits.intact (h : m.Visits job n) (hm : m.store.Intact) (halive : job.layers.Alive m.store) :
    n.store.Intact := by
  cases h with
  | beginning hM => exact (intact_of_reaches hM hm halive).store
  | ending hM fuel => exact ((intact_of_reaches hM hm halive).upholds fuel).intact

theorem intact_perform (hm : m.store.Intact) (halive : job.layers.Alive m.store) :
    (m.perform job).2.store.Intact :=
  ⟨rested_perform hm.rested halive, stocked_perform hm.rested hm.stocked halive⟩

theorem lone_intact : lone.store.Intact := by
  refine ⟨lone_rested, fun id entry hentry => ?_, fun cell content hcell => ?_⟩
  · rw [bindings_lone] at hentry
    exact absurd hentry List.not_mem_nil
  · exact absurd hcell (by simp [lone])

end Machine

end ScriptEngine
