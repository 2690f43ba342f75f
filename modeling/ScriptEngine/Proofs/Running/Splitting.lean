import ScriptEngine.Proofs.Running.CallDepth
import ScriptEngine.Proofs.Running.Mirroring
import ScriptEngine.Proofs.Running.Spared

/-!
A program that is run in two parts. The second run finds the bindings that the first one left and new
standard functions under a new frame. Seen from the program that has the statements of both, that is a
renaming: the frame of the standard functions has another number, and so have they and the functions
that are declared from then on. Everything else is the same.
-/
namespace ScriptEngine

namespace Eval

variable {limit fuel : Nat} {scope : FrameId}

theorem script_append (first second : List Stmt) :
    ∀ last, script limit fuel scope last (first ++ second) =
      (script limit fuel scope last first >>= fun v => script limit fuel scope v second) := by
  induction first with
  | nil => exact fun _ => rfl
  | cons s rest ih =>
    intro last
    cases s with
    | expression e _ =>
      change (expr limit fuel scope e >>= fun v => script limit fuel scope v (rest ++ second)) =
        (expr limit fuel scope e >>= fun v => script limit fuel scope v rest) >>= _
      rw [bind_assoc]
      exact congrArg _ (funext ih)
    | _ =>
      change (stmt limit fuel scope _ >>= fun _ => script limit fuel scope .null (rest ++ second)) =
        (stmt limit fuel scope _ >>= fun _ => script limit fuel scope .null rest) >>= _
      rw [bind_assoc]
      exact congrArg _ (funext fun _ => ih .null)

/-- The value before the first statement is not that of the script. -/
theorem script_last {body : List Stmt} (hbody : body ≠ []) (last last' : Value) :
    script limit fuel scope last body = script limit fuel scope last' body := by
  cases body with
  | nil => exact absurd rfl hbody
  | cons s rest => cases s <;> rfl

end Eval

def Frame.renumber (ι : Nat → Nat) (frame : Frame) : Frame :=
  { frame with bindings := frame.bindings.mapValues (Value.renumber ι) }

/-- The same machine, but callables may have other numbers. -/
structure Machine.Renumbered (ι : Nat → Nat) (m m' : Machine) : Prop where
  frames : ∀ id, m'.store.frame? id = (m.store.frame? id).map (Frame.renumber ι)
  cells : m'.store.cells = m.store.cells
  console : m'.console = m.console
  files : m'.files = m.files
  depth : m'.depth = m.depth

/-- The number of a callable when as many as the standard functions, from `first` on, are made again,
with the numbers from `second` on. -/
def identityAgain (first second i : Nat) : Nat :=
  if i < first then i
  else if i < first + Store.standardNatives.length then second + (i - first)
  else if i < second then i else i + Store.standardNatives.length

theorem identityAgain_injective {first second : Nat}
    (h : first + Store.standardNatives.length ≤ second) :
    Function.Injective (identityAgain first second) := by
  intro i j hij
  unfold identityAgain at hij
  split_ifs at hij <;> omega

theorem identityAgain_of_lt {first second i : Nat} (h : i < first) :
    identityAgain first second i = i := if_pos h

/-- From the run of a program to the second of two runs that it is split into. -/
def splitting (top middle : Nat) {first second : Nat}
    (hfirst : first + Store.standardNatives.length ≤ second) : Renaming where
  frame := frameAgain top middle
  identity := identityAgain first second
  place := id
  kept := 0
  hollow _ := False
  frame_injective := frameAgain_injective top middle
  identity_injective := identityAgain_injective hfirst
  not_hollow _ h := h

namespace Machine.Ran

variable {m : Machine} {layers : Layers} {σ : Store} (h : m.Ran layers σ)

include h

/-- Between the run of the joined program after its first part, and the beginning of the second run. -/
def split : Renaming := splitting m.store.frames.size σ.frames.size h.identity_le

theorem frame_split {id : FrameId} (hid : id ≠ m.store.frames.size) (hlt : id < σ.frames.size) :
    h.split.frame id = id :=
  frameAgain_of_lt hid hlt

theorem frame_split_top : h.split.frame m.store.frames.size = σ.frames.size :=
  frameAgain_self _ _

theorem frame_split_new {id : FrameId} (hid : σ.frames.size ≤ id) : h.split.frame id = id + 1 :=
  frameAgain_of_le h.size_le hid

theorem frame_split_cases (id : FrameId) :
    id = m.store.frames.size ∧ h.split.frame id = σ.frames.size ∨
      id ≠ m.store.frames.size ∧ id < σ.frames.size ∧ h.split.frame id = id ∨
        σ.frames.size ≤ id ∧ h.split.frame id = id + 1 := by
  by_cases htop : id = m.store.frames.size
  · exact Or.inl ⟨htop, htop ▸ h.frame_split_top⟩
  · rcases Nat.lt_or_ge id σ.frames.size with hlt | hle
    · exact Or.inr (Or.inl ⟨htop, hlt, h.frame_split htop hlt⟩)
    · exact Or.inr (Or.inr ⟨hle, h.frame_split_new hle⟩)

theorem value_split_of_predates {v : Value} (hv : v.Predates m.store) : h.split.value v = v := by
  have hframe : ∀ f, v = .function f → h.split.home f = f.home := by
    rintro f rfl
    exact (if_neg (Nat.not_lt_zero _)).trans
      (h.frame_split (Nat.ne_of_lt hv.2) (Nat.lt_trans hv.2 h.size_le))
  rw [h.split.value_eq_renumber rfl hframe]
  cases v with
  | function f => exact congrArg (fun i => Value.function { f with identity := i }) (if_pos hv.1)
  | native f => exact congrArg (fun i => Value.native { f with identity := i }) (if_pos hv)
  | _ => rfl

/-- A function that the first part declared is the same function in the second run. -/
theorem value_split_of_bound {frame : FrameId} (htop : frame ≠ m.store.frames.size)
    {entry : String × Value} (hentry : entry ∈ σ.bindings frame) :
    h.split.value entry.2 = entry.2 := by
  have hlt := Store.lt_size_of_isAlive (Store.isAlive_of_mem_bindings hentry)
  rcases h.predates_or_declared htop hentry with hold | ⟨f, hf, hhome, hnumber, hnew⟩
  · exact h.value_split_of_predates hold
  · have hframe : h.split.home f = f.home := by
      refine (if_neg (Nat.not_lt_zero _)).trans ?_
      rw [hhome]
      exact h.frame_split htop hlt
    have hsame : h.split.identity f.identity = f.identity :=
      (if_neg (by omega)).trans ((if_neg (by omega)).trans (if_pos hnumber))
    rw [hf, h.split.value_eq_renumber rfl]
    · exact congrArg (fun i => Value.function { f with identity := i }) hsame
    · intro g hg
      obtain rfl := Value.function.inj hg
      exact hframe

theorem standardEntries_split : (Store.standardEntries m.store.nextIdentity).mapValues h.split.value =
    Store.standardEntries σ.nextIdentity := by
  unfold Store.standardEntries Entries.mapValues
  refine List.ext_getElem (by simp) fun i hi hi' => ?_
  have hlt : i < Store.standardNatives.length := by simpa using hi'
  have hnumber : h.split.identity (m.store.nextIdentity + i) = σ.nextIdentity + i := by
    refine (if_neg (by omega)).trans ((if_pos (by omega)).trans ?_)
    omega
  rw [List.getElem_map, List.getElem_mapIdx, List.getElem_mapIdx, ← hnumber]
  rfl

theorem frame_split_old {id : FrameId} (hlt : id < m.store.frames.size) :
    h.split.frame id = id :=
  h.frame_split (Nat.ne_of_lt hlt) (Nat.lt_trans hlt h.size_le)

theorem size_le_frame_split {id : FrameId} (hle : m.store.frames.size ≤ id) :
    m.store.frames.size ≤ h.split.frame id := by
  rcases h.frame_split_cases id with ⟨-, hframe⟩ | ⟨-, -, hframe⟩ | ⟨-, hframe⟩
  · rw [hframe]
    exact Nat.le_of_lt h.size_le
  · rw [hframe]
    exact hle
  · rw [hframe]
    exact Nat.le_succ_of_le hle

/-- The layers are linked below the other frame in the same way. -/
theorem parentBelow_split (hrested : m.store.Rested) (halive : layers.Alive m.store) {τ : Store}
    (hsettles : m.store.Settles τ) (id : FrameId) :
    layers.parentBelow σ.frames.size τ (h.split.frame id) =
      (layers.parentBelow m.store.frames.size m.store id).map h.split.frame := by
  have hupper : ∀ {upper}, layers.upper? = some upper → upper < m.store.frames.size :=
    fun hupper => Store.lt_size_of_isAlive (halive.upper _ hupper)
  by_cases hlt : id < m.store.frames.size
  · rw [h.frame_split_old hlt]
    unfold Layers.parentBelow
    by_cases hid : id = layers.bindings
    · rw [if_pos hid, if_pos hid]
      cases hlayer : layers.upper? with
      | none => exact congrArg some h.frame_split_top.symm
      | some upper => exact congrArg some (h.frame_split_old (hupper hlayer)).symm
    · rw [if_neg hid, if_neg hid]
      by_cases hid' : layers.upper? = some id
      · rw [if_pos hid', if_pos hid']
        exact congrArg some h.frame_split_top.symm
      · rw [if_neg hid', if_neg hid', hsettles.parent? hlt]
        cases hparent : m.store.parent? id with
        | none => rfl
        | some parent =>
          exact congrArg some (h.frame_split_old (hrested.parents id parent hparent)).symm
  · -- a frame that was not there before the first run has no parent before the second
    have hle := Nat.le_of_not_lt hlt
    rw [halive.parentBelow_new hle fun _ hid => Store.frame?_eq_none hid,
      halive.parentBelow_new (h.size_le_frame_split hle) hsettles.gone]
    rfl

/-- When the first part has left the standard functions alone, the machine that the second run begins on
is the one that the joined program has come to, with other numbers. -/
theorem image_split (hrested : m.store.Rested) (halive : layers.Alive m.store)
    (htop : σ.bindings m.store.frames.size = Store.standardEntries m.store.nextIdentity)
    {n : Machine} (hn : n.store = m.unlink layers σ) :
    h.split.Image σ (n.begin layers).2.store := by
  have hsize : n.store.frames.size = σ.frames.size := hn ▸ m.size_unlink layers σ
  have hidentity : n.store.nextIdentity = σ.nextIdentity := hn ▸ m.nextIdentity_unlink layers σ
  have hsettles : m.store.Settles n.store := hn ▸ h.settles
  have hpredates : ∀ (cell : CellId) (content : Cell), σ.cells[cell]? = some content →
      ∀ v ∈ content.values, h.split.value v = v := fun cell content hcell v hv =>
    h.value_split_of_predates (h.settled.holds.cells cell content trivial hcell v hv)
  have hmiddle : m.store.frames.size < σ.frames.size := h.size_le
  refine ⟨?_, fun id => ?_, fun id => ?_, fun id => Or.inl ?_, fun k => ?_, fun k => ?_,
    Nat.zero_le _⟩
  · rw [Renaming.cells_eq_self hpredates, Machine.cells_begin, hn, cells_unlink]
  · rw [isAlive_begin, hsize, hsettles.isAlive, h.isAlive]
    rcases h.frame_split_cases id with ⟨rfl, hframe⟩ | ⟨htop', hlt, hframe⟩ | ⟨hle, hframe⟩
    · rw [hframe, if_pos rfl, if_pos rfl]
    · rw [hframe, if_neg (Nat.ne_of_lt hlt), if_neg htop']
    · have hle' : m.store.frames.size ≤ id := Nat.le_trans (Nat.le_of_lt hmiddle) hle
      rw [hframe, if_neg (Nat.ne_of_gt (Nat.lt_succ_of_le hle)), if_neg (Nat.ne_of_gt
        (Nat.lt_of_lt_of_le hmiddle hle)), Store.isAlive, Store.isAlive, Store.frame?_eq_none hle',
        Store.frame?_eq_none (Nat.le_succ_of_le hle')]
  · rcases h.frame_split_cases id with ⟨rfl, hframe⟩ | ⟨htop', hlt, hframe⟩ | ⟨hle, hframe⟩
    · rw [hframe, htop, h.standardEntries_split, ← hsize, bindings_begin_top, hidentity]
    · rw [hframe, bindings_begin layers (hsize ▸ Nat.ne_of_lt hlt), hn, bindings_unlink,
        if_neg (Ne.symm htop')]
      exact (Entries.mapValues_eq_self fun entry hentry => h.value_split_of_bound htop' hentry).symm
    · rw [hframe, bindings_begin layers (hsize ▸ Nat.ne_of_gt (Nat.lt_succ_of_le hle)),
        Store.bindings_eq_nil (hsize ▸ Nat.le_succ_of_le hle), Store.bindings_eq_nil hle]
      rfl
  · rw [parent?_begin_eq (halive.settles hsettles), h.parent? halive, hsize]
    exact h.parentBelow_split hrested halive hsettles id
  · rw [size_begin, hsize]
    exact (h.frame_split_new (Nat.le_add_right _ k)).trans (Nat.add_right_comm _ k 1)
  · rw [nextIdentity_begin, hidentity]
    have hle := h.identity_le
    refine (if_neg (by omega)).trans ((if_neg (by omega)).trans ((if_neg (by omega)).trans ?_))
    exact Nat.add_right_comm _ k _

end Machine.Ran

namespace Machine

variable {m : Machine} {layers : Layers}

theorem script_eq_of_joined {limit fuel : Nat} {first second : List Stmt} {v : Value} {k : Machine}
    {scope : FrameId} (hfirst : Eval.script limit fuel scope .null first m = .done v k) :
    Eval.script limit fuel scope .null (first ++ second) m =
      Eval.script limit fuel scope v second k := by
  rw [Eval.script_append, Eval.bind_apply, hfirst]

/-- The second run does what the second part of the joined program does. -/
theorem mirrored_split (hrested : m.store.Rested) (halive : layers.Alive m.store)
    {limit fuel : Nat} {v : Value} {k : Machine} (hran : m.Ran layers k.store) (hdepth : k.depth = 0)
    (htop : k.store.bindings m.store.frames.size = Store.standardEntries m.store.nextIdentity)
    {second : List Stmt} (hsecond : second ≠ []) :
    hran.split.Mirrored 0 hran.split.value (Eval.script limit fuel layers.bindings v second k)
      (Eval.script limit fuel layers.bindings .null second
        (Machine.begin layers { k with store := m.unlink layers k.store }).2) := by
  have htwins : hran.split.Twins k
      (Machine.begin layers { k with store := m.unlink layers k.store }).2 :=
    ⟨hran.image_split hrested halive htop rfl, rfl, rfl, hdepth.symm⟩
  have hmirror := Eval.mirrors_script (hran.split.suits_all rfl limit) 0 fuel layers.bindings second v
    k trivial _ htwins
  have hbindings : hran.split.frame layers.bindings = layers.bindings := by
    have hlt := Store.lt_size_of_isAlive halive.bindings
    exact hran.frame_split (Nat.ne_of_lt hlt) (Nat.lt_trans hlt hran.size_le)
  have hbody : Stmt.mapBody hran.split.place second = second := Stmt.mapBody_id second
  rwa [Nat.zero_add, hbindings, hbody, Eval.script_last hsecond (hran.split.value v) .null] at hmirror

/-- What the host gets from a run is of the run, or was there before. -/
theorem ending_split {σ : Store} (h : m.Ran layers σ)
    {outcome : Outcome Value} {τ : Store} (hkeeps : outcome.Keeps m.store.runRealm τ
      m.store.runRealm.data) : h.split.ending (conclude outcome).1 = (conclude outcome).1 := by
  cases hending : (conclude outcome).1 with
  | value w =>
    exact congrArg Ending.value (h.value_split_of_predates ((Outcome.Keeps.conclude hkeeps).2 w hending))
  | error e =>
    refine congrArg Ending.error ?_
    change { e with span := e.span.map id } = e
    rw [Option.map_id]
    rfl
  | exhausted => rfl

/-- What is bound after the second run is what is bound after the joined program, under other
numbers. -/
theorem frame?_split {σ τ τ' : Store} (h : m.Ran layers σ) (hτ : m.Ran layers τ) {n : Machine}
    (hn : n.store = m.unlink layers σ) (hτ' : n.Ran layers τ') (himage : h.split.Image τ τ')
    (id : FrameId) : (n.unlink layers τ').frame? id = ((m.unlink layers τ).frame? id).map
      (Frame.renumber (identityAgain m.store.nextIdentity σ.nextIdentity)) := by
  have hsettles : m.store.Settles (n.unlink layers τ') := by
    have hfirst : m.store.Settles n.store := hn ▸ h.settles
    exact hfirst.trans hτ'.settles
  by_cases hlt : id < m.store.frames.size
  · refine Store.frame?_eq_map ((hsettles.links id).trans (hτ.settles.links id).symm) ?_
    have htop := Nat.ne_of_lt hlt
    have hmiddle : n.store.frames.size ≠ id := by
      rw [hn, size_unlink]
      exact Nat.ne_of_gt (Nat.lt_trans hlt h.size_le)
    have hframe := h.frame_split htop (Nat.lt_trans hlt h.size_le)
    have hbindings := himage.bindings id
    rw [hframe] at hbindings
    rw [bindings_unlink, if_neg hmiddle, bindings_unlink, if_neg (Ne.symm htop), hbindings]
    refine Entries.mapValues_congr fun entry hentry => ?_
    -- a function is declared in the frame that binds it, or was declared before
    have hhome : ∀ f, entry.2 = .function f → h.split.frame f.home = f.home := by
      intro f hf
      rcases hτ.predates_or_declared htop hentry with hold | ⟨g, hg, hhome, -⟩
      · rw [hf] at hold
        exact h.frame_split (Nat.ne_of_lt hold.2) (Nat.lt_trans hold.2 h.size_le)
      · obtain rfl := Value.function.inj (hf.symm.trans hg)
        rw [hhome]
        exact hframe
    exact h.split.value_eq_renumber rfl fun f hf => (if_neg (Nat.not_lt_zero _)).trans (hhome f hf)
  · have hle := Nat.le_of_not_lt hlt
    rw [hsettles.gone id hle, hτ.settles.gone id hle]
    rfl

/-- Running a program in two parts changes nothing. When the first part comes to its end and assigns to
no name of a standard function, a second run on the bindings and globals that it left gives the same
value or error as the second part in one program with the first, has read and written the same, and
leaves the same bindings, with the same values in the same order, and the same arrays and structs.
Only the numbers of callables that were made since may differ. -/
theorem run_append {limit fuel : Nat} {first second : Program} {v : Value} {k : Machine}
    (hrested : m.store.Rested) (halive : layers.Alive m.store)
    (hfirst : Eval.script limit fuel layers.bindings .null first.body (m.begin layers).2 = .done v k)
    (hassigns : ∀ N, (m.outset layers first).Reaches limit N → ¬ N.Assigns m.store.frames.size)
    (hsecond : second.body ≠ []) (span : Span) :
    let joined := m.run limit fuel layers ⟨first.body ++ second.body, span⟩
    let split := (m.run limit fuel layers first).2.run limit fuel layers second
    split.1 = joined.1 ∧ ∃ ι : Nat → Nat, Function.Injective ι ∧
      (∀ i < m.store.nextIdentity, ι i = i) ∧ joined.2.Renumbered ι split.2 := by
  intro joined split
  have hran : m.Ran layers k.store := by
    have hkeeps := keeps_run hrested halive limit fuel first.body
    exact .of_settled hrested (hkeeps.of_done hfirst).1
  have hdepth : k.depth = 0 :=
    (Eval.agrees_script (Nat.le_refl limit) fuel _ first.body .null).depth hfirst
  have htop : k.store.bindings m.store.frames.size = Store.standardEntries m.store.nextIdentity := by
    have hspared := bindings_top_script hrested halive hassigns fuel
    rwa [hfirst] at hspared
  let n : Machine := { k with store := m.unlink layers k.store }
  have hn : (m.run limit fuel layers first).2 = n := by
    rw [run_eq, hfirst]
    rfl
  have hjoined := keeps_run hrested halive limit fuel (first.body ++ second.body)
  have hsplit := keeps_run (m := n) (hran.rested hrested) (halive.settles hran.settles) limit fuel
    second.body
  have hmirror : hran.split.Mirrored 0 _ (Eval.script limit fuel layers.bindings v second.body k) _ :=
    mirrored_split hrested halive hran hdepth htop hsecond
  rw [← script_eq_of_joined hfirst] at hmirror
  obtain ⟨hending, htwins⟩ := hmirror.conclude
  have hτ : m.Ran layers _ := .of_settled hrested (Outcome.Keeps.conclude hjoined).1
  have hτ' : n.Ran layers _ := .of_settled (hran.rested hrested) (Outcome.Keeps.conclude hsplit).1
  have hrun : split = n.run limit fuel layers second := congrArg (run limit fuel layers second) hn
  rw [hrun]
  refine ⟨hending.trans (ending_split hran hjoined),
    identityAgain m.store.nextIdentity k.store.nextIdentity,
    identityAgain_injective hran.identity_le, fun i hi => identityAgain_of_lt hi, ?_⟩
  refine ⟨frame?_split hran hτ rfl hτ' htwins.store, ?_, htwins.console, htwins.files, htwins.depth⟩
  refine (cells_unlink ..).trans (htwins.store.cells.trans (Eq.trans ?_ (cells_unlink ..).symm))
  refine Renaming.cells_eq_self fun cell content hcell w hw => ?_
  exact hran.value_split_of_predates (hτ.settled.holds.cells cell content trivial hcell w hw)

/-- What comes in a script that only declares a variable. -/
theorem task_of_reaches_declaration {limit : Nat} {scope : FrameId} {name : Name} {value : Literal}
    {place span : Span} {start : Machine} {N : Moment}
    (h : Moment.Reaches limit
      ⟨.stmts scope [.declare name (some (.literal value place)) span], start⟩ N) :
    N.task ∈ [Task.stmts scope [.declare name (some (.literal value place)) span],
      .stmt scope (.declare name (some (.literal value place)) span),
      .expr scope (.literal value place), .stmts scope []] := by
  induction h with
  | refl => exact List.mem_cons_self
  | @tail M N _ hlast ih =>
    obtain ⟨task, n⟩ := M
    simp only [List.mem_cons, List.not_mem_nil, or_false] at ih ⊢
    rcases ih with rfl | rfl | rfl | rfl
    · cases hlast with
      | first => exact Or.inr (Or.inl rfl)
      | rest => exact Or.inr (Or.inr (Or.inr rfl))
    · cases hlast with
      | part hoperand =>
        obtain rfl := Option.some.inj hoperand
        exact Or.inr (Or.inr (Or.inl rfl))
    · cases hlast with
      | operand _ hoperands => exact absurd hoperands (by simp [Expr.operands])
    · cases hlast

/-- `var x = 1;` and then `x;`. -/
theorem run_append_declaration :
    let first : Program :=
      ⟨[.declare ⟨"x", default⟩ (some (.literal (.integer 1) default)) default], default⟩
    let second : Program := ⟨[.expression (.variable ⟨"x", default⟩) default], default⟩
    let joined := lone.run 1 9 ⟨0, none⟩ ⟨first.body ++ second.body, default⟩
    let split := (lone.run 1 9 ⟨0, none⟩ first).2.run 1 9 ⟨0, none⟩ second
    split.1 = joined.1 ∧ (∃ ι : Nat → Nat, Function.Injective ι ∧ (∀ i < 0, ι i = i) ∧
      joined.2.Renumbered ι split.2) ∧ joined.1 = .value (.integer 1) := by
  intro first second joined split
  suffices h : ∀ N, (lone.outset ⟨0, none⟩ first).Reaches 1 N → ¬ N.Assigns 1 by
    have hfirst : ∃ v k, Eval.script 1 9 0 .null first.body (lone.begin ⟨0, none⟩).2 = .done v k :=
      ⟨_, _, rfl⟩
    obtain ⟨_, _, hfirst⟩ := hfirst
    have hsecond : second.body ≠ [] := List.cons_ne_nil _ _
    obtain ⟨hending, hmachine⟩ := run_append lone_rested lone_alive hfirst h hsecond default
    exact ⟨hending, hmachine, rfl⟩
  rintro N hN ⟨scope, e, name, htask, he, -⟩
  have hcases := task_of_reaches_declaration hN
  rw [htask] at hcases
  simp only [List.mem_cons, List.not_mem_nil, or_false] at hcases
  rcases hcases with h | h | h | h
  · exact absurd h (by simp)
  · exact absurd h (by simp)
  · injection h with _ h
    subst h
    rcases he with ⟨_, _, he⟩ | ⟨_, _, he⟩
    · exact absurd he (by simp)
    · exact absurd he (by simp)
  · exact absurd h (by simp)

end Machine

end ScriptEngine
