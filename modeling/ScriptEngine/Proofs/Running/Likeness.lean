import Mathlib.Data.List.Nodup
import Mathlib.Data.List.Perm.Subperm
import ScriptEngine.Proofs.Running.Image
import ScriptEngine.Proofs.Running.Matching
import ScriptEngine.Run.Native

/-!
Stores on two sides. Frames that go together bind the same names to values that are alike and lie below
frames that go together, and cells that go together have contents that are alike. Of everything else on
either side nothing is said. A change that is made on both sides leaves this so, a name is found on one
side where it is found on the other, and values that are alike have the same text.
-/
namespace ScriptEngine

namespace Matching

/-- The frames bind the same names to values that are alike. What lies above them goes together, if
that is asked for. -/
structure AlikeFrames (M : Matching) (linked : Prop) (frame frame' : Frame) : Prop where
  bindings : M.AlikeEntries frame.bindings frame'.bindings
  parent : linked → Option.Rel M.frames.pairs frame.parent frame'.parent

/-- What goes together is alike, but for what lies above the frames that are loose. -/
structure LikensBut (M : Matching) (loose : FrameId → Prop) (σ σ' : Store) : Prop where
  frameCount : M.frames.left = σ.frames.size ∧ M.frames.right = σ'.frames.size
  cellCount : M.cells.left = σ.cells.size ∧ M.cells.right = σ'.cells.size
  identityCount : M.identities.left = σ.nextIdentity ∧ M.identities.right = σ'.nextIdentity
  frames : ∀ id id', M.frames.pairs id id' →
    Option.Rel (M.AlikeFrames ¬ loose id) (σ.frame? id) (σ'.frame? id')
  cells : ∀ cell cell', M.cells.pairs cell cell' →
    Option.Rel M.AlikeCells σ.cells[cell]? σ'.cells[cell']?

/-- What goes together is alike. -/
abbrev Likens (M : Matching) (σ σ' : Store) : Prop := M.LikensBut (fun _ => False) σ σ'

/-- The next frames go together. -/
def withFrame (M : Matching) : Matching := { M with frames := M.frames.next }

def withCell (M : Matching) : Matching := { M with cells := M.cells.next }

def withIdentity (M : Matching) : Matching := { M with identities := M.identities.next }

variable {M N : Matching} {loose : FrameId → Prop} {σ σ' : Store}

theorem grows_withFrame (M : Matching) : M.Grows M.withFrame := ⟨M.frames.grows_next, .refl _, .refl _⟩

theorem grows_withCell (M : Matching) : M.Grows M.withCell := ⟨.refl _, M.cells.grows_next, .refl _⟩

theorem grows_withIdentity (M : Matching) : M.Grows M.withIdentity :=
  ⟨.refl _, .refl _, M.identities.grows_next⟩

theorem AlikeFrames.mono {linked : Prop} {frame frame' : Frame} (h : M.AlikeFrames linked frame frame')
    (hN : M.Grows N) : N.AlikeFrames linked frame frame' := by
  refine ⟨h.bindings.mono hN, fun hlinked => ?_⟩
  have hparent := h.parent hlinked
  generalize frame.parent = parent, frame'.parent = parent' at hparent
  cases hparent with
  | none => exact .none
  | some hpairs => exact .some (hN.frames.kept _ _ hpairs)

theorem rel_imp {α β : Type} {r s : α → β → Prop} (h : ∀ a b, r a b → s a b) {a : Option α}
    {b : Option β} (hab : Option.Rel r a b) : Option.Rel s a b := by
  cases hab with
  | none => exact .none
  | some hr => exact .some (h _ _ hr)

theorem rel_map {α β γ δ : Type} {r : α → β → Prop} {s : γ → δ → Prop} {f : α → γ} {g : β → δ}
    (h : ∀ a b, r a b → s (f a) (g b)) {a : Option α} {b : Option β} (hab : Option.Rel r a b) :
    Option.Rel s (a.map f) (b.map g) := by
  cases hab with
  | none => exact .none
  | some hr => exact .some (h _ _ hr)

theorem forall₂_set {as bs : List Value} (h : List.Forall₂ M.Alike as bs) {v v' : Value}
    (hv : M.Alike v v') : ∀ i, List.Forall₂ M.Alike (as.set i v) (bs.set i v') := by
  induction h with
  | nil => exact fun _ => .nil
  | cons hfirst hrest ih =>
    intro i
    cases i with
    | zero => exact .cons hv hrest
    | succ i => exact .cons hfirst (ih i)

namespace LikensBut

variable (h : M.LikensBut loose σ σ')

include h

/-! Looking -/

theorem isAlive {id id' : FrameId} (hid : M.frames.pairs id id') : σ'.isAlive id' = σ.isAlive id := by
  have hframe := h.frames id id' hid
  unfold Store.isAlive
  generalize σ.frame? id = frame, σ'.frame? id' = frame' at hframe
  cases hframe <;> rfl

theorem bindings {id id' : FrameId} (hid : M.frames.pairs id id') :
    M.AlikeEntries (σ.bindings id) (σ'.bindings id') := by
  have hframe := h.frames id id' hid
  unfold Store.bindings
  generalize σ.frame? id = frame, σ'.frame? id' = frame' at hframe
  cases hframe with
  | none => exact .nil
  | some hframe => exact hframe.bindings

theorem parent? {id id' : FrameId} (hid : M.frames.pairs id id') (hloose : ¬ loose id) :
    Option.Rel M.frames.pairs (σ.parent? id) (σ'.parent? id') := by
  have hframe := h.frames id id' hid
  unfold Store.parent?
  generalize σ.frame? id = frame, σ'.frame? id' = frame' at hframe
  cases hframe with
  | none => exact .none
  | some hframe => exact hframe.parent hloose

theorem getLocal? {id id' : FrameId} (hid : M.frames.pairs id id') (name : String) :
    Option.Rel M.Alike (σ.getLocal? id name) (σ'.getLocal? id' name) :=
  (h.bindings hid).get? name

theorem hasLocal {id id' : FrameId} (hid : M.frames.pairs id id') (name : String) :
    σ'.hasLocal id' name = σ.hasLocal id name :=
  (h.bindings hid).has name

theorem items {cell cell' : CellId} (hcell : M.cells.pairs cell cell') :
    List.Forall₂ M.Alike (σ.items cell).toList (σ'.items cell').toList := by
  have hcontent := h.cells cell cell' hcell
  unfold Store.items
  generalize σ.cells[cell]? = content, σ'.cells[cell']? = content' at hcontent
  cases hcontent with
  | none => exact .nil
  | some hcontent =>
    cases hcontent with
    | array hitems => exact hitems
    | struct => exact .nil

theorem fields {cell cell' : CellId} (hcell : M.cells.pairs cell cell') :
    M.AlikeEntries (σ.fields cell) (σ'.fields cell') := by
  have hcontent := h.cells cell cell' hcell
  unfold Store.fields
  generalize σ.cells[cell]? = content, σ'.cells[cell']? = content' at hcontent
  cases hcontent with
  | none => exact .nil
  | some hcontent =>
    cases hcontent with
    | array => exact .nil
    | struct hfields => exact hfields

theorem nextFrame : M.withFrame.frames.pairs σ.frames.size σ'.frames.size := by
  have hnext := M.frames.next_pairs
  rwa [h.frameCount.1, h.frameCount.2] at hnext

theorem nextCell : M.withCell.cells.pairs σ.cells.size σ'.cells.size := by
  have hnext := M.cells.next_pairs
  rwa [h.cellCount.1, h.cellCount.2] at hnext

theorem nextIdentity : M.withIdentity.identities.pairs σ.nextIdentity σ'.nextIdentity := by
  have hnext := M.identities.next_pairs
  rwa [h.identityCount.1, h.identityCount.2] at hnext

/-! Changes -/

theorem loosen {loose' : FrameId → Prop} (hloose : ∀ id, loose id → loose' id) :
    M.LikensBut loose' σ σ' :=
  ⟨h.frameCount, h.cellCount, h.identityCount, fun id id' hid => rel_imp (fun _ _ hframe =>
    ⟨hframe.bindings, fun hlinked => hframe.parent fun hid => hlinked (hloose id hid)⟩)
    (h.frames id id' hid), h.cells⟩

theorem modifyFrame {id id' : FrameId} (hid : M.frames.pairs id id') {f g : Frame → Frame}
    {loose' : FrameId → Prop} (hloose : ∀ other, other ≠ id → loose other → loose' other)
    (hf : ∀ frame frame', M.AlikeFrames (¬ loose id) frame frame' →
      M.AlikeFrames (¬ loose' id) (f frame) (g frame')) :
    M.LikensBut loose' (σ.modifyFrame id f) (σ'.modifyFrame id' g) := by
  refine ⟨?_, h.cellCount, h.identityCount, fun other other' hother => ?_, h.cells⟩
  · exact ⟨h.frameCount.1.trans Array.size_modify.symm, h.frameCount.2.trans Array.size_modify.symm⟩
  · have hsame := M.frames.one_to_one id id' other other' hid hother
    rw [Store.frame?_modifyFrame, Store.frame?_modifyFrame]
    by_cases heq : id = other
    · obtain rfl := heq
      rw [if_pos rfl, if_pos (hsame.mp rfl)]
      exact rel_map hf (h.frames id other' hother)
    · rw [if_neg heq, if_neg fun heq' => heq (hsame.mpr heq')]
      exact rel_imp (fun _ _ hframe => ⟨hframe.bindings, fun hlinked => hframe.parent fun hl =>
        hlinked (hloose other (Ne.symm heq) hl)⟩) (h.frames other other' hother)

theorem setLocal {id id' : FrameId} (hid : M.frames.pairs id id') (name : String) {v v' : Value}
    (hv : M.Alike v v') : M.LikensBut loose (σ.setLocal id name v) (σ'.setLocal id' name v') :=
  h.modifyFrame hid (fun _ _ hloose => hloose) fun _ _ hframe =>
    ⟨hframe.bindings.put name hv, hframe.parent⟩

/-- A frame that is linked below frames that go together is no longer loose. -/
theorem relink {id id' : FrameId} (hid : M.frames.pairs id id') {parent parent' : Option FrameId}
    {loose' : FrameId → Prop} (hloose : ∀ other, other ≠ id → loose other → loose' other)
    (hparent : ¬ loose' id → Option.Rel M.frames.pairs parent parent') :
    M.LikensBut loose' (σ.relink id parent) (σ'.relink id' parent') :=
  h.modifyFrame hid hloose fun _ _ hframe => ⟨hframe.bindings, hparent⟩

theorem addFrame {frame frame' : Frame} (hbindings : M.AlikeEntries frame.bindings frame'.bindings)
    (hparent : Option.Rel M.frames.pairs frame.parent frame'.parent) :
    M.withFrame.LikensBut loose (σ.addFrame frame).2 (σ'.addFrame frame').2 := by
  have hgrows := M.grows_withFrame
  refine ⟨?_, h.cellCount, h.identityCount, fun id id' hid => ?_, fun cell cell' hcell => ?_⟩
  · exact ⟨(congrArg (· + 1) h.frameCount.1).trans (Array.size_push _).symm,
      (congrArg (· + 1) h.frameCount.2).trans (Array.size_push _).symm⟩
  · have hsame := M.withFrame.frames.one_to_one _ _ _ _ hid h.nextFrame
    rw [Store.frame?_addFrame, Store.frame?_addFrame]
    by_cases hnew : id = σ.frames.size
    · rw [if_pos hnew, if_pos (hsame.mp hnew)]
      have halike : M.AlikeFrames (¬ loose id) frame frame' := ⟨hbindings, fun _ => hparent⟩
      exact .some (halike.mono hgrows)
    · rw [if_neg hnew, if_neg fun heq => hnew (hsame.mpr heq)]
      rcases hid with hid | ⟨rfl, -⟩
      · exact rel_imp (fun _ _ hframe => hframe.mono hgrows) (h.frames id id' hid)
      · exact absurd h.frameCount.1 hnew
  · exact rel_imp (fun _ _ hcontent => hcontent.mono hgrows) (h.cells cell cell' hcell)

theorem newChild {parent parent' : FrameId} (hparent : M.frames.pairs parent parent') :
    M.withFrame.LikensBut loose (σ.newChild parent).2 (σ'.newChild parent').2 :=
  h.addFrame .nil (.some hparent)

theorem dropFrame {id id' : FrameId} (hid : M.frames.pairs id id') :
    M.LikensBut loose (σ.dropFrame id) (σ'.dropFrame id') := by
  refine ⟨?_, h.cellCount, h.identityCount, fun other other' hother => ?_, h.cells⟩
  · exact ⟨h.frameCount.1.trans Array.size_setIfInBounds.symm,
      h.frameCount.2.trans Array.size_setIfInBounds.symm⟩
  · have hsame := M.frames.one_to_one id id' other other' hid hother
    rw [Store.frame?_dropFrame, Store.frame?_dropFrame]
    by_cases heq : id = other
    · rw [if_pos heq, if_pos (hsame.mp heq)]
      exact .none
    · rw [if_neg heq, if_neg fun heq' => heq (hsame.mpr heq')]
      exact h.frames other other' hother

theorem newIdentity : M.withIdentity.LikensBut loose σ.newIdentity.2 σ'.newIdentity.2 := by
  have hgrows := M.grows_withIdentity
  refine ⟨h.frameCount, h.cellCount, ?_, fun id id' hid => ?_, fun cell cell' hcell => ?_⟩
  · exact ⟨congrArg (· + 1) h.identityCount.1, congrArg (· + 1) h.identityCount.2⟩
  · exact rel_imp (fun _ _ hframe => hframe.mono hgrows) (h.frames id id' hid)
  · exact rel_imp (fun _ _ hcontent => hcontent.mono hgrows) (h.cells cell cell' hcell)

theorem addCell {content content' : Cell} (hcontent : M.AlikeCells content content') :
    M.withCell.LikensBut loose (σ.addCell content).2 (σ'.addCell content').2 := by
  have hgrows := M.grows_withCell
  refine ⟨h.frameCount, ?_, h.identityCount, fun id id' hid => ?_, fun cell cell' hcell => ?_⟩
  · exact ⟨(congrArg (· + 1) h.cellCount.1).trans (Array.size_push _).symm,
      (congrArg (· + 1) h.cellCount.2).trans (Array.size_push _).symm⟩
  · exact rel_imp (fun _ _ hframe => hframe.mono hgrows) (h.frames id id' hid)
  · have hsame := M.withCell.cells.one_to_one _ _ _ _ hcell h.nextCell
    unfold Store.addCell
    rw [Array.getElem?_push, Array.getElem?_push]
    by_cases hnew : cell = σ.cells.size
    · rw [if_pos hnew, if_pos (hsame.mp hnew)]
      exact .some (hcontent.mono hgrows)
    · rw [if_neg hnew, if_neg fun heq => hnew (hsame.mpr heq)]
      rcases hcell with hcell | ⟨rfl, -⟩
      · exact rel_imp (fun _ _ hold => hold.mono hgrows) (h.cells cell cell' hcell)
      · exact absurd h.cellCount.1 hnew

theorem newArray {items items' : Array Value}
    (hitems : List.Forall₂ M.Alike items.toList items'.toList) :
    M.withCell.Alike (σ.newArray items).1 (σ'.newArray items').1 ∧
      M.withCell.LikensBut loose (σ.newArray items).2 (σ'.newArray items').2 :=
  ⟨.array h.nextCell, h.addCell (.array hitems)⟩

theorem newStruct {fields fields' : Entries Value} (hfields : M.AlikeEntries fields fields') :
    M.withCell.Alike (σ.newStruct fields).1 (σ'.newStruct fields').1 ∧
      M.withCell.LikensBut loose (σ.newStruct fields).2 (σ'.newStruct fields').2 :=
  ⟨.struct h.nextCell, h.addCell (.struct hfields)⟩

theorem modifyCell {cell cell' : CellId} (hcell : M.cells.pairs cell cell') {f g : Cell → Cell}
    (hf : ∀ content content', M.AlikeCells content content' → M.AlikeCells (f content) (g content')) :
    M.LikensBut loose { σ with cells := σ.cells.modify cell f }
      { σ' with cells := σ'.cells.modify cell' g } := by
  refine ⟨h.frameCount, ?_, h.identityCount, h.frames, fun other other' hother => ?_⟩
  · exact ⟨h.cellCount.1.trans Array.size_modify.symm, h.cellCount.2.trans Array.size_modify.symm⟩
  · have hsame := M.cells.one_to_one cell cell' other other' hcell hother
    rw [Array.getElem?_modify, Array.getElem?_modify]
    by_cases heq : cell = other
    · rw [if_pos heq, if_pos (hsame.mp heq)]
      exact rel_map hf (h.cells other other' hother)
    · rw [if_neg heq, if_neg fun heq' => heq (hsame.mpr heq')]
      exact h.cells other other' hother

theorem setItem {cell cell' : CellId} (hcell : M.cells.pairs cell cell') (i : Nat) {v v' : Value}
    (hv : M.Alike v v') : M.LikensBut loose (σ.setItem cell i v) (σ'.setItem cell' i v') := by
  refine h.modifyCell hcell fun content content' hcontent => ?_
  cases hcontent with
  | array hitems =>
    refine .array ?_
    rw [Array.toList_setIfInBounds, Array.toList_setIfInBounds]
    exact forall₂_set hitems hv i
  | struct hfields => exact .struct hfields

theorem setField {cell cell' : CellId} (hcell : M.cells.pairs cell cell') (name : String)
    {v v' : Value} (hv : M.Alike v v') :
    M.LikensBut loose (σ.setField cell name v) (σ'.setField cell' name v') := by
  refine h.modifyCell hcell fun content content' hcontent => ?_
  cases hcontent with
  | array hitems => exact .array hitems
  | struct hfields => exact .struct (hfields.put name hv)

end LikensBut

namespace Likens

/-! Names -/

variable (h : M.Likens σ σ')

include h

theorem means {name : String} {id frame : FrameId} (hmeans : σ.Means name id frame) :
    ∀ id', M.frames.pairs id id' → ∃ frame', σ'.Means name id' frame' ∧ M.frames.pairs frame frame' := by
  induction hmeans with
  | here hhas => exact fun id' hid => ⟨id', .here ((h.hasLocal hid name).trans hhas), hid⟩
  | above hhas hparent _ ih =>
    intro id' hid
    have hup := h.parent? hid not_false
    rw [hparent] at hup
    generalize hparent' : σ'.parent? id' = parent' at hup
    cases hup with
    | some hpairs =>
      obtain ⟨frame', hframe', hpairs'⟩ := ih _ hpairs
      exact ⟨frame', .above ((h.hasLocal hid name).trans hhas) hparent' hframe', hpairs'⟩

theorem of_means {name : String} {id' frame' : FrameId} (hmeans : σ'.Means name id' frame') :
    ∀ id, M.frames.pairs id id' → ∃ frame, σ.Means name id frame ∧ M.frames.pairs frame frame' := by
  induction hmeans with
  | here hhas => exact fun id hid => ⟨id, .here ((h.hasLocal hid name).symm.trans hhas), hid⟩
  | above hhas hparent _ ih =>
    intro id hid
    have hup := h.parent? hid not_false
    rw [hparent] at hup
    generalize hparent' : σ.parent? id = parent at hup
    cases hup with
    | some hpairs =>
      obtain ⟨frame, hframe, hpairs'⟩ := ih _ hpairs
      exact ⟨frame, .above ((h.hasLocal hid name).symm.trans hhas) hparent' hframe, hpairs'⟩

theorem resolve {id id' : FrameId} (hid : M.frames.pairs id id') (name : String) :
    Option.Rel M.frames.pairs (σ.resolve id name) (σ'.resolve id' name) := by
  cases hfound : σ.resolve id name with
  | some frame =>
    obtain ⟨frame', hframe', hpairs⟩ := h.means (Store.resolve_eq_some_iff.mp hfound) id' hid
    rw [Store.resolve_eq_some_iff.mpr hframe']
    exact .some hpairs
  | none =>
    cases hfound' : σ'.resolve id' name with
    | none => exact .none
    | some frame' =>
      obtain ⟨frame, hframe, -⟩ := h.of_means (Store.resolve_eq_some_iff.mp hfound') id hid
      rw [Store.resolve_eq_some_iff.mpr hframe] at hfound
      exact absurd hfound (by simp)

/-- The variable has values that are alike, or none on either side. -/
theorem read {id id' : FrameId} (hid : M.frames.pairs id id') (name : String) :
    (∃ v v', σ.read id name = .ok v ∧ σ'.read id' name = .ok v' ∧ M.Alike v v') ∨
      ∃ fault, σ.read id name = .error fault ∧ σ'.read id' name = .error fault := by
  have hframe := h.resolve hid name
  unfold Store.read
  generalize σ.resolve id name = frame, σ'.resolve id' name = frame' at hframe
  cases hframe with
  | none => exact Or.inr ⟨_, rfl, rfl⟩
  | @some frame frame' hpairs =>
    have hvalue := h.getLocal? hpairs name
    rw [Option.bind_some, Option.bind_some]
    generalize σ.getLocal? frame name = v, σ'.getLocal? frame' name = v' at hvalue
    cases hvalue with
    | none => exact Or.inr ⟨_, rfl, rfl⟩
    | some hv => exact Or.inl ⟨_, _, rfl, rfl, hv⟩

end Likens

/-! Texts -/

theorem length_le_of_nodup {ids : List Nat} {count : Nat} (hnodup : ids.Nodup)
    (hlt : ∀ i ∈ ids, i < count) : ids.length ≤ count := by
  have hsub : ids ⊆ List.range count := fun i hi => List.mem_range.mpr (hlt i hi)
  simpa using (List.subperm_of_subset hnodup hsub).length_le

/-- The cells around a value inside a text are all different, and go together. -/
structure Around (p : Pairing) (cells cells' : List CellId) : Prop where
  pairs : List.Forall₂ p.pairs cells cells'
  nodup : cells.Nodup
  nodup' : cells'.Nodup

namespace Around

variable {p : Pairing} {cells cells' : List CellId}

theorem below (h : Around p cells cells') : (∀ c ∈ cells, c < p.left) ∧ ∀ c ∈ cells', c < p.right := by
  have hpairs := h.pairs
  clear h
  induction hpairs with
  | nil => simp
  | cons hfirst _ ih =>
    obtain ⟨hleft, hright⟩ := p.below _ _ hfirst
    exact ⟨List.forall_mem_cons.mpr ⟨hleft, ih.1⟩, List.forall_mem_cons.mpr ⟨hright, ih.2⟩⟩

/-- There are no more of them than there are cells. -/
theorem length_le (h : Around p cells cells') :
    cells.length ≤ p.left ∧ cells'.length ≤ p.right :=
  ⟨length_le_of_nodup h.nodup h.below.1, length_le_of_nodup h.nodup' h.below.2⟩

theorem cons (h : Around p cells cells') {cell cell' : CellId} (hpairs : p.pairs cell cell')
    (hfree : cell ∉ cells) : Around p (cell :: cells) (cell' :: cells') :=
  ⟨.cons hpairs h.pairs, List.nodup_cons.mpr ⟨hfree, h.nodup⟩,
    List.nodup_cons.mpr ⟨fun hmem => hfree ((Pairing.mem_iff h.pairs hpairs).mpr hmem), h.nodup'⟩⟩

end Around

theorem map_eq_of_forall₂ {α β : Type} {r : α → α → Prop} {f g : α → β} {as bs : List α}
    (h : List.Forall₂ r as bs) (hfg : ∀ a b, r a b → g b = f a) : bs.map g = as.map f := by
  induction h with
  | nil => rfl
  | cons hfirst _ ih => rw [List.map_cons, List.map_cons, ih, hfg _ _ hfirst]

/-- Values that are alike have the same text inside cells that go together, when there is room for all
the cells that there are. -/
theorem LikensBut.textWithin (h : M.LikensBut loose σ σ') (depth : Nat) :
    ∀ {depth' : Nat} {around around' : List CellId} {v v' : Value}, M.Alike v v' →
      Around M.cells around around' → σ.cells.size < depth + around.length →
      σ'.cells.size < depth' + around'.length →
      v'.textWithin σ' depth' around' = v.textWithin σ depth around := by
  induction depth with
  | zero =>
    intro depth' around around' v v' _ haround hroom _
    have hlength := haround.length_le.1
    rw [h.cellCount.1] at hlength
    omega
  | succ depth ih =>
    intro depth' around around' v v' hv haround hroom hroom'
    cases depth' with
    | zero =>
      have hlength := haround.length_le.2
      rw [h.cellCount.2] at hlength
      omega
    | succ depth' =>
      cases hv with
      | scalar hv => cases v <;> first | rfl | exact absurd hv (by simp [Value.isScalar])
      | @array cell cell' hcell =>
        have hmem := Pairing.mem_iff haround.pairs hcell
        simp only [Value.textWithin]
        by_cases hinside : cell ∈ around
        · rw [if_pos hinside, if_pos (hmem.mp hinside)]
        · rw [if_neg hinside, if_neg (mt hmem.mpr hinside)]
          refine congrArg Value.arrayText (map_eq_of_forall₂ (h.items hcell) fun w w' hw => ?_)
          refine ih hw (haround.cons hcell hinside) ?_ ?_ <;> rw [List.length_cons] <;> omega
      | @struct cell cell' hcell =>
        have hmem := Pairing.mem_iff haround.pairs hcell
        simp only [Value.textWithin]
        by_cases hinside : cell ∈ around
        · rw [if_pos hinside, if_pos (hmem.mp hinside)]
        · rw [if_neg hinside, if_neg (mt hmem.mpr hinside)]
          refine congrArg Value.structText (map_eq_of_forall₂ (h.fields hcell) fun w w' hw => ?_)
          refine Prod.ext hw.1.symm (ih hw.2 (haround.cons hcell hinside) ?_ ?_) <;>
            rw [List.length_cons] <;> omega
      | function => rfl
      | native => rfl

theorem LikensBut.text (h : M.LikensBut loose σ σ') {v v' : Value} (hv : M.Alike v v') :
    v'.text σ' = v.text σ :=
  h.textWithin _ hv ⟨.nil, .nil, .nil⟩ (Nat.lt_succ_self _) (Nat.lt_succ_self _)

/-! Operators -/

theorem LikensBut.binary (h : M.LikensBut loose σ σ') (op : BinaryOp) {a a' b b' : Value}
    (ha : M.Alike a a') (hb : M.Alike b b') : op.apply σ' a' b' = op.apply σ a b := by
  cases op with
  | add =>
    refine congrArg Except.ok ?_
    unfold Value.add
    rw [ha.isString, hb.isString, h.text ha, h.text hb, ha.arithmetic hb]
  | sub => exact congrArg Except.ok (ha.arithmetic hb _ _)
  | mul => exact congrArg Except.ok (ha.arithmetic hb _ _)
  | div =>
    unfold BinaryOp.apply Value.divide
    rw [ha.number, hb.number]
  | mod =>
    unfold BinaryOp.apply Value.modulo
    rw [ha.toInt32, hb.toInt32]
  | equal => exact congrArg (fun c => Except.ok (Value.boolean c)) (ha.looselyEqual hb)
  | notEqual => exact congrArg (fun c => Except.ok (Value.boolean !c)) (ha.looselyEqual hb)
  | less => exact congrArg (fun c => Except.ok (Value.boolean c)) (ha.less hb)
  | greater => exact congrArg (fun c => Except.ok (Value.boolean c)) (hb.less ha)
  | lessEqual => exact congrArg (fun c => Except.ok (Value.boolean !c)) (hb.less ha)
  | greaterEqual => exact congrArg (fun c => Except.ok (Value.boolean !c)) (ha.less hb)
  | and | or =>
    refine congrArg (fun c => Except.ok (Value.boolean c)) ?_
    rw [ha.truth, hb.truth]

theorem LikensBut.length? (h : M.LikensBut loose σ σ') {v v' : Value} (hv : M.Alike v v') :
    v'.length? σ' = v.length? σ := by
  cases hv with
  | scalar hv => cases v <;> first | rfl | exact absurd hv (by simp [Value.isScalar])
  | array hcell => exact congrArg some (h.items hcell).length_eq.symm
  | struct hcell => exact congrArg some (h.fields hcell).length_eq.symm
  | function => rfl
  | native => rfl

theorem LikensBut.path (h : M.LikensBut loose σ σ') {v v' : Value} (hv : M.Alike v v') :
    v'.path σ' = v.path σ := by
  have htext := h.text hv
  cases hv with
  | scalar hv =>
    cases v with
    | null => rfl
    | _ => exact congrArg Except.ok htext
  | _ => exact congrArg Except.ok htext

end Matching

end ScriptEngine
