import ScriptEngine.Proofs.Hosting.Handles
import ScriptEngine.Proofs.Hosting.Lifetime

/-!
The laws of the scope chain. A name means the binding in the first frame on the way up that has it;
writing to it changes what it means for just those frames from which the way up meets this frame first.
The names in a frame are in the order in which they came, as the operations that were done tell it: a
name that is bound again keeps its place, and one that was taken out and comes again comes last.
-/
namespace ScriptEngine

namespace Store

variable {σ σ' : Store} {id frame : FrameId} {name : String} {v : Value} {fault : ScopeFault}

/-! What a name means -/

theorem Searches.eq_none_iff {result : Option FrameId} (h : σ.Searches name id result) :
    result = none ↔ ∀ frame, σ.Rises id frame → σ.hasLocal frame name = false := by
  induction h with
  | @found id hname =>
    refine iff_of_false (by simp) fun hnone => ?_
    exact absurd (hnone id .refl) (by simp [hname])
  | @top id hname hparent =>
    refine iff_of_true rfl fun frame hway => ?_
    rcases Relation.ReflTransGen.cases_head hway with rfl | ⟨parent, hstep, -⟩
    · exact hname
    · exact absurd (hparent.symm.trans hstep) (by simp)
  | @up id parent result hname hparent _ ih =>
    rw [ih]
    constructor
    · intro hnone frame hway
      rcases Relation.ReflTransGen.cases_head hway with rfl | ⟨above, hstep, hway⟩
      · exact hname
      · obtain rfl := Option.some.inj (hparent.symm.trans hstep)
        exact hnone frame hway
    · exact fun hnone frame hway => hnone frame (.head hparent hway)

theorem Acyclic.resolve_eq_none_iff (h : σ.Acyclic) :
    σ.resolve id name = none ↔ ∀ frame, σ.Rises id frame → σ.hasLocal frame name = false :=
  (h.searches name id).eq_none_iff

theorem exists_getLocal?_of_resolve (h : σ.resolve id name = some frame) :
    ∃ v, σ.getLocal? frame name = some v :=
  Option.isSome_iff_exists.mp (hasLocal_of_resolve h)

theorem read_eq_ok_iff :
    σ.read id name = .ok v ↔
      ∃ frame, σ.resolve id name = some frame ∧ σ.getLocal? frame name = some v := by
  unfold read
  cases hresolve : σ.resolve id name with
  | none => simp
  | some frame =>
    obtain ⟨u, hu⟩ := exists_getLocal?_of_resolve hresolve
    simp [hu]

theorem read_eq_error_iff :
    σ.read id name = .error fault ↔ fault = .notDeclared name ∧ σ.resolve id name = none := by
  unfold read
  cases hresolve : σ.resolve id name with
  | none => simp [eq_comm]
  | some frame =>
    obtain ⟨u, hu⟩ := exists_getLocal?_of_resolve hresolve
    simp [hu]

/-- What is read depends on where names are found and what is there. -/
theorem read_congr (hresolve : σ'.resolve id name = σ.resolve id name)
    (hlocal : ∀ frame, σ.resolve id name = some frame →
      σ'.getLocal? frame name = σ.getLocal? frame name) : σ'.read id name = σ.read id name := by
  unfold read
  rw [hresolve]
  cases hfound : σ.resolve id name with
  | none => rfl
  | some frame => rw [Option.bind_some, Option.bind_some, hlocal frame hfound]

/-! Writing -/

theorem write_eq_ok_iff :
    σ.write id name v = .ok σ' ↔
      ∃ frame, σ.resolve id name = some frame ∧ σ' = σ.setLocal frame name v := by
  unfold write
  cases σ.resolve id name <;> simp [eq_comm]

theorem write_eq_error_iff :
    σ.write id name v = .error fault ↔ fault = .notDeclared name ∧ σ.resolve id name = none := by
  unfold write
  cases σ.resolve id name <;> simp [eq_comm]

theorem declare_eq_error_iff :
    σ.declare id name v = .error fault ↔ fault = .alreadyDeclared name ∧ σ.hasLocal id name := by
  unfold declare
  by_cases hname : σ.hasLocal id name
  · rw [if_pos hname]
    simp [hname, eq_comm]
  · rw [if_neg hname]
    simp [hname]

theorem localNames_setLocal (hid : σ.isAlive id) (other : FrameId) :
    (σ.setLocal id name v).localNames other =
      if id = other ∧ name ∉ σ.localNames other then σ.localNames other ++ [name]
      else σ.localNames other := by
  unfold localNames
  by_cases hother : id = other
  · subst hother
    rw [bindings_setLocal hid, Entries.names_put]
    by_cases hname : name ∈ (σ.bindings id).names <;> simp [hname]
  · rw [bindings_setLocal_of_ne hother, if_neg fun h => hother h.1]

/-- A name that the frame has already keeps its place. -/
theorem localNames_setLocal_of_has (h : σ.hasLocal frame name) (id : FrameId) :
    (σ.setLocal frame name v).localNames id = σ.localNames id := by
  refine (localNames_setLocal (isAlive_of_hasLocal h) id).trans (if_neg fun hnew => hnew.2 ?_)
  rw [← hnew.1]
  exact Entries.has_iff.mp h

theorem resolve_setLocal_of_has (h : σ.hasLocal frame name) (id : FrameId) (other : String) :
    (σ.setLocal frame name v).resolve id other = σ.resolve id other := by
  have hstore : σ.Settles (σ.setLocal frame name v) := σ.settles_modifyFrame frame fun _ => rfl
  exact resolve_congr hstore.links (localNames_setLocal_of_has h) hstore.size id other

theorem read_setLocal_of_has (h : σ.hasLocal frame name) (id : FrameId) (other : String) :
    (σ.setLocal frame name v).read id other =
      if other = name ∧ σ.resolve id name = some frame then .ok v else σ.read id other := by
  have hresolve := resolve_setLocal_of_has (v := v) h id other
  have hlocal : ∀ found, (σ.setLocal frame name v).getLocal? found other =
      if frame = found ∧ other = name then some v else σ.getLocal? found other := fun found =>
    getLocal?_setLocal (isAlive_of_hasLocal h) name other v
  split
  · rename_i hhere
    obtain ⟨rfl, hfound⟩ := hhere
    rw [read_eq_ok_iff]
    exact ⟨frame, hresolve.trans hfound, (hlocal frame).trans (if_pos ⟨rfl, rfl⟩)⟩
  · rename_i helse
    refine read_congr hresolve fun found hfound => (hlocal found).trans (if_neg ?_)
    rintro ⟨rfl, rfl⟩
    exact helse ⟨rfl, hfound⟩

/-! Names in frames -/

theorem localNames_removeLocal (σ : Store) (id other : FrameId) (name : String) :
    (σ.removeLocal id name).localNames other =
      if id = other then (σ.localNames other).erase name else σ.localNames other := by
  unfold localNames bindings removeLocal
  rw [frame?_modifyFrame]
  by_cases hid : id = other
  · rw [if_pos hid, if_pos hid]
    cases σ.frame? other with
    | none => rfl
    | some frame => exact Entries.names_erase name frame.bindings
  · rw [if_neg hid, if_neg hid]

/-- The frames that are there have the names that they had. -/
structure Sheds (σ σ' : Store) : Prop where
  names : ∀ id, σ'.isAlive id → σ.isAlive id ∧ σ'.localNames id = σ.localNames id
  size : σ.frames.size ≤ σ'.frames.size

theorem Sheds.refl (σ : Store) : σ.Sheds σ := ⟨fun _ hid => ⟨hid, rfl⟩, Nat.le_refl _⟩

theorem Sheds.trans {σ'' : Store} (h : σ.Sheds σ') (h' : σ'.Sheds σ'') : σ.Sheds σ'' := by
  refine ⟨fun id hid => ?_, Nat.le_trans h.size h'.size⟩
  obtain ⟨hid', hsame'⟩ := h'.names id hid
  obtain ⟨hid, hsame⟩ := h.names id hid'
  exact ⟨hid, hsame'.trans hsame⟩

theorem sheds_modifyFrame (σ : Store) (id : FrameId) {f : Frame → Frame}
    (hf : ∀ frame, (f frame).bindings = frame.bindings) : σ.Sheds (σ.modifyFrame id f) := by
  refine ⟨fun other hother => ⟨(isAlive_modifyFrame ..).symm.trans hother, ?_⟩,
    Nat.le_of_eq (Array.size_modify ..).symm⟩
  unfold localNames bindings
  rw [frame?_modifyFrame]
  by_cases hid : id = other
  · rw [if_pos hid]
    cases σ.frame? other with
    | none => rfl
    | some frame => exact congrArg Entries.names (hf frame)
  · rw [if_neg hid]

theorem sheds_setLocal_of_has (h : σ.hasLocal frame name) (v : Value) :
    σ.Sheds (σ.setLocal frame name v) := by
  refine ⟨fun id hid => ⟨?_, localNames_setLocal_of_has h id⟩, Nat.le_of_eq (Array.size_modify ..).symm⟩
  exact (isAlive_modifyFrame ..).symm.trans hid

theorem sheds_collapse (σ : Store) (count : Nat) (id : FrameId) : σ.Sheds (σ.collapse count id) := by
  refine ⟨fun other hother => ?_, (narrows_collapse count σ id).size⟩
  have hsame := frame?_collapse hother
  refine ⟨?_, ?_⟩
  · rw [isAlive, ← hsame]
    exact hother
  · unfold localNames bindings
    rw [hsame]

theorem sheds_release (σ : Store) (id : FrameId) : σ.Sheds (σ.release id) :=
  (σ.sheds_modifyFrame id (by exact fun _ => rfl)).trans (sheds_collapse ..)

theorem sheds_setParent (σ : Store) (id : FrameId) (parent : Option FrameId) :
    σ.Sheds (σ.setParent id parent) := by
  have hrelinked : σ.Sheds (σ.relink id parent) := σ.sheds_modifyFrame id fun _ => rfl
  unfold Store.setParent
  cases σ.parent? id with
  | none => exact hrelinked
  | some old => exact hrelinked.trans (sheds_collapse ..)

end Store

/-! The order of names -/

/-- When the name came that the frame has: so many operations had been done before. The last operation
comes first. -/
def cameAt (id : FrameId) (name : String) : List Operation → Option Nat
  | [] => none
  | op :: past =>
    match op with
    | .declare other n _ | .setLocal other n _ =>
      if other = id ∧ n = name then (cameAt id name past).or (some past.length)
      else cameAt id name past
    | .removeLocal other n => if other = id ∧ n = name then none else cameAt id name past
    | _ => cameAt id name past

/-- The first of the names came into the frame before the second. -/
def Earlier (past : List Operation) (id : FrameId) (first second : String) : Prop :=
  ∃ s t, cameAt id first past = some s ∧ cameAt id second past = some t ∧ s < t

/-- The frames have the names that have come and not been taken out, in the order in which they came. -/
structure Listed (past : List Operation) (σ : Store) : Prop where
  names : ∀ id, σ.isAlive id → ∀ name, name ∈ σ.localNames id ↔ (cameAt id name past).isSome
  order : ∀ id, σ.isAlive id → (σ.localNames id).Pairwise (Earlier past id)
  before : ∀ id name t, cameAt id name past = some t → t < past.length
  unborn : ∀ id name, σ.frames.size ≤ id → cameAt id name past = none

namespace Listed

variable {σ σ' : Store} {past : List Operation} {op : Operation} {id : FrameId} {name : String}

theorem nodup (h : Listed past σ) (hid : σ.isAlive id) : (σ.localNames id).Nodup := by
  refine (h.order id hid).imp ?_
  rintro first second ⟨s, t, hs, ht, hlt⟩ rfl
  exact Nat.lt_irrefl s (Option.some.inj (hs.symm.trans ht) ▸ hlt)

/-- An operation by which no name comes or goes. -/
theorem unchanged (h : Listed past σ)
    (hcame : ∀ id name, cameAt id name (op :: past) = cameAt id name past)
    (hnames : ∀ id, σ'.isAlive id → σ.isAlive id ∧ σ'.localNames id = σ.localNames id ∨
      σ.frames.size ≤ id ∧ σ'.localNames id = [])
    (hsize : σ.frames.size ≤ σ'.frames.size) : Listed (op :: past) σ' := by
  refine ⟨fun id hid name => ?_, fun id hid => ?_, fun id name t ht => ?_, fun id name hid => ?_⟩
  · rw [hcame]
    rcases hnames id hid with ⟨hold, hsame⟩ | ⟨hnew, hempty⟩
    · rw [hsame]
      exact h.names id hold name
    · rw [hempty, h.unborn id name hnew]
      simp
  · rcases hnames id hid with ⟨hold, hsame⟩ | ⟨-, hempty⟩
    · rw [hsame]
      refine (h.order id hold).imp fun ⟨s, t, hs, ht, hlt⟩ => ?_
      exact ⟨s, t, (hcame ..).trans hs, (hcame ..).trans ht, hlt⟩
    · rw [hempty]
      exact .nil
  · exact Nat.lt_succ_of_lt (h.before id name t ((hcame id name).symm.trans ht))
  · exact (hcame id name).trans (h.unborn id name (Nat.le_trans hsize hid))

/-- A name that comes into a frame comes last, unless the frame has it. -/
theorem put {v : Value} (h : Listed past σ) (hid : σ.isAlive id)
    (hcame : ∀ other n, cameAt other n (op :: past) = if id = other ∧ name = n then
      (cameAt other n past).or (some past.length) else cameAt other n past) :
    Listed (op :: past) (σ.setLocal id name v) := by
  have hkept : ∀ {other n t}, cameAt other n past = some t → cameAt other n (op :: past) = some t := by
    intro other n t ht
    rw [hcame, ht]
    simp
  have hearlier : ∀ {other first second}, Earlier past other first second →
      Earlier (op :: past) other first second :=
    fun ⟨s, t, hs, ht, hlt⟩ => ⟨s, t, hkept hs, hkept ht, hlt⟩
  refine ⟨fun other hother n => ?_, fun other hother => ?_, fun other n t ht => ?_,
    fun other n hother => ?_⟩
  · rw [Store.isAlive_setLocal] at hother
    have hold := h.names other hother
    rw [Store.localNames_setLocal hid, hcame]
    by_cases hhere : id = other ∧ name = n
    · obtain ⟨rfl, rfl⟩ := hhere
      by_cases hname : name ∈ σ.localNames id <;> simp [hname]
    · rw [if_neg hhere, ← hold n]
      split
      · rename_i hnew
        have hne : n ≠ name := fun heq => hhere ⟨hnew.1, heq.symm⟩
        simp [hne]
      · rfl
  · rw [Store.isAlive_setLocal] at hother
    have hold := (h.order other hother).imp hearlier
    rw [Store.localNames_setLocal hid]
    split
    · rename_i hnew
      obtain ⟨rfl, hfree⟩ := hnew
      have hnone : cameAt id name past = none := by
        rw [← Option.not_isSome_iff_eq_none, ← h.names id hid]
        exact hfree
      refine List.pairwise_append.mpr ⟨hold, List.pairwise_singleton _ _, ?_⟩
      intro first hfirst second hsecond
      obtain rfl := List.mem_singleton.mp hsecond
      obtain ⟨s, hs⟩ := Option.isSome_iff_exists.mp ((h.names id hid first).mp hfirst)
      refine ⟨s, past.length, hkept hs, ?_, h.before id first s hs⟩
      rw [hcame, if_pos ⟨rfl, rfl⟩, hnone]
      rfl
    · exact hold
  · rw [hcame] at ht
    rw [List.length_cons]
    split at ht
    · rcases hold : cameAt other n past with _ | s
      · rw [hold] at ht
        obtain rfl := Option.some.inj ht
        exact Nat.lt_succ_self _
      · rw [hold] at ht
        obtain rfl := Option.some.inj ht
        exact Nat.lt_succ_of_lt (h.before other n s hold)
    · exact Nat.lt_succ_of_lt (h.before other n t ht)
  · have hsize : (σ.setLocal id name v).frames.size = σ.frames.size := Array.size_modify ..
    rw [hsize] at hother
    rw [hcame, if_neg]
    · exact h.unborn other n hother
    · rintro ⟨rfl, -⟩
      exact absurd (Store.lt_size_of_isAlive hid) (Nat.not_lt_of_le hother)

/-- A name that is taken out of a frame loses its place, and the others keep theirs. -/
theorem erase (h : Listed past σ)
    (hcame : ∀ other n, cameAt other n (op :: past) = if id = other ∧ name = n then none
      else cameAt other n past) : Listed (op :: past) (σ.removeLocal id name) := by
  have hnames := σ.localNames_removeLocal id
  refine ⟨fun other hother n => ?_, fun other hother => ?_, fun other n t ht => ?_,
    fun other n hother => ?_⟩
  · rw [Store.removeLocal, Store.isAlive_modifyFrame] at hother
    rw [hnames, hcame]
    by_cases hhere : id = other
    · subst hhere
      rw [if_pos rfl, (h.nodup hother).mem_erase_iff, h.names id hother]
      by_cases hn : name = n
      · simp [hn]
      · simp [hn, Ne.symm hn]
    · rw [if_neg hhere, if_neg fun heq => hhere heq.1]
      exact h.names other hother n
  · rw [Store.removeLocal, Store.isAlive_modifyFrame] at hother
    rw [hnames]
    -- the names that are left are others
    have hleft : ∀ n ∈ if id = other then (σ.localNames other).erase name else σ.localNames other,
        cameAt other n (op :: past) = cameAt other n past := by
      intro n hn
      rw [hcame, if_neg]
      rintro ⟨rfl, rfl⟩
      rw [if_pos rfl, (h.nodup hother).mem_erase_iff] at hn
      exact hn.1 rfl
    have hsub : (if id = other then (σ.localNames other).erase name else σ.localNames other).Sublist
        (σ.localNames other) := by
      split
      · exact List.erase_sublist
      · exact List.Sublist.refl _
    refine ((h.order other hother).sublist hsub).imp_of_mem fun hfirst hsecond ⟨s, t, hs, ht, hlt⟩ => ?_
    exact ⟨s, t, (hleft _ hfirst).trans hs, (hleft _ hsecond).trans ht, hlt⟩
  · rw [hcame] at ht
    split at ht
    · exact absurd ht (by simp)
    · exact Nat.lt_succ_of_lt (h.before other n t ht)
  · have hsize : (σ.removeLocal id name).frames.size = σ.frames.size := Array.size_modify ..
    rw [hsize] at hother
    rw [hcame]
    split
    · rfl
    · exact h.unborn other n hother

theorem sheds (h : Listed past σ) (hstore : σ.Sheds σ')
    (hcame : ∀ id name, cameAt id name (op :: past) = cameAt id name past) : Listed (op :: past) σ' :=
  h.unchanged hcame (fun id hid => Or.inl (hstore.names id hid)) hstore.size

theorem addFrame (h : Listed past σ) (parent : Option FrameId)
    (hcame : ∀ id name, cameAt id name (op :: past) = cameAt id name past) :
    Listed (op :: past) (σ.addFrame ⟨[], parent, 1⟩).2 := by
  refine h.unchanged hcame (fun id hid => ?_) (by simp [Store.addFrame])
  unfold Store.localNames
  rw [Store.bindings_addFrame]
  by_cases hnew : id = σ.frames.size
  · rw [if_pos hnew]
    exact Or.inr ⟨Nat.le_of_eq hnew.symm, rfl⟩
  · rw [if_neg hnew]
    exact Or.inl ⟨(Store.isAlive_addFrame.mp hid).resolve_left hnew, rfl⟩

end Listed

namespace Handles

variable {h : Handles} {past : List Operation}

theorem Arises.sound (harises : Arises past h) : h.Sound := harises.follows.sound sound_start

theorem Arises.listed (harises : Arises past h) : Listed past h.store := by
  induction harises with
  | start =>
    have hgone : ∀ id, ¬ Handles.start.store.isAlive id := fun id hid =>
      absurd (Store.lt_size_of_isAlive hid) (Nat.not_lt_zero id)
    exact ⟨fun id hid => absurd hid (hgone id), fun id hid => absurd hid (hgone id),
      fun _ _ _ ht => absurd ht (by simp [cameAt]), fun _ _ _ => rfl⟩
  | @act past h op hpast hallows ih =>
    have hsound := hpast.sound
    cases op with
    | root => exact ih.addFrame none fun _ _ => rfl
    | child parent => exact ih.addFrame (some parent) fun _ _ => rfl
    | declare id name v =>
      have hput : Listed (.declare id name v :: past) (h.store.setLocal id name v) :=
        ih.put (hsound.isAlive hallows) fun _ _ => rfl
      simp only [Handles.act, Store.declare]
      split
      · rename_i hname
        -- the name is there, so that nothing has changed
        refine ih.sheds (.refl _) fun other n => ?_
        rw [cameAt]
        split
        · rename_i hhere
          obtain ⟨rfl, rfl⟩ := hhere
          have hcame := (ih.names id (hsound.isAlive hallows) name).mp (Entries.has_iff.mp hname)
          exact Option.or_of_isSome hcame
        · rfl
      · exact hput
    | write id name v =>
      simp only [Handles.act, Store.write]
      split
      · rename_i frame hframe
        have hname := Store.hasLocal_of_resolve hframe
        exact ih.sheds (Store.sheds_setLocal_of_has hname v) fun _ _ => rfl
      · exact ih.sheds (.refl _) fun _ _ => rfl
    | setLocal id name v => exact ih.put (hsound.isAlive hallows) fun _ _ => rfl
    | removeLocal id name => exact ih.erase fun _ _ => rfl
    | setParent id parent => exact ih.sheds (h.store.sheds_setParent id parent) fun _ _ => rfl
    | again id =>
      exact ih.sheds (h.store.sheds_modifyFrame id fun _ => rfl) fun _ _ => rfl
    | weaken id => exact ih.sheds (.refl _) fun _ _ => rfl
    | release handle =>
      simp only [Handles.act, Handles.release]
      split
      · exact ih.sheds (h.store.sheds_release _) fun _ _ => rfl
      · exact ih.sheds (.refl _) fun _ _ => rfl

theorem act_eq_of_fault {op : Operation} {fault : ScopeFault} (hfault : (h.act op).1 = some fault) :
    (h.act op).2 = h := by
  have hsettle : ∀ result : Except ScopeFault Store,
      (h.settle result).1 = some fault → (h.settle result).2 = h := by
    intro result hresult
    cases result with
    | ok σ => exact absurd hresult (by simp [settle])
    | error fault => rfl
  cases op with
  | declare id name v => exact hsettle _ hfault
  | write id name v => exact hsettle _ hfault
  | _ => exact absurd hfault (by simp [act])

/-- What can be relied upon when these operations have been done. -/
structure Lawful (past : List Operation) (h : Handles) : Prop where
  searches : ∀ id name, h.store.Searches name id (h.store.resolve id name)
  read_ok : ∀ id name v, h.store.read id name = .ok v ↔
    ∃ frame, h.store.resolve id name = some frame ∧ h.store.getLocal? frame name = some v
  read_error : ∀ id name fault, h.store.read id name = .error fault ↔
    fault = .notDeclared name ∧ ∀ frame, h.store.Rises id frame → h.store.hasLocal frame name = false
  /-- What has been written is read from wherever the search ends in the same frame; all else is read
  as before. -/
  write_ok : ∀ id name v σ, h.store.write id name v = .ok σ →
    ∃ frame, h.store.resolve id name = some frame ∧ ∀ other n,
      σ.resolve other n = h.store.resolve other n ∧ σ.read other n =
        if n = name ∧ h.store.resolve other name = some frame then .ok v else h.store.read other n
  write_error : ∀ id name v fault, h.store.write id name v = .error fault ↔
    fault = .notDeclared name ∧ ∀ frame, h.store.Rises id frame → h.store.hasLocal frame name = false
  declare_error : ∀ id name v fault, h.store.declare id name v = .error fault ↔
    fault = .alreadyDeclared name ∧ h.store.hasLocal id name
  unchanged : ∀ op fault, (h.act op).1 = some fault → (h.act op).2 = h
  nodup : ∀ id, h.store.isAlive id → (h.store.localNames id).Nodup
  names : ∀ id, h.store.isAlive id →
    ∀ name, name ∈ h.store.localNames id ↔ ∃ t, cameAt id name past = some t
  order : ∀ id, h.store.isAlive id → (h.store.localNames id).Pairwise (Earlier past id)

/-- Whatever operations have been done, a read gives the value in the first frame on the way up that has
the name, and it fails if there is none; a write fails then, too, and otherwise changes what is read for
just this name from just those frames from which the search for it ends in the same frame; a declaration
fails if the frame itself has the name. A failure changes nothing. In a frame that is there, each name
stands once, and they are in the order in which they came since they were taken out last. -/
theorem scope_laws {past : List Operation} {h : Handles} (harises : Arises past h) : Lawful past h := by
  have hacyclic := harises.sound.acyclic
  have hlisted := harises.listed
  exact {
    searches := fun id name => hacyclic.searches name id
    read_ok := fun id name v => Store.read_eq_ok_iff
    read_error := fun id name fault => by
      rw [Store.read_eq_error_iff, hacyclic.resolve_eq_none_iff]
    write_ok := fun id name v σ hwrite => by
      obtain ⟨frame, hframe, rfl⟩ := Store.write_eq_ok_iff.mp hwrite
      have hname := Store.hasLocal_of_resolve hframe
      exact ⟨frame, hframe, fun other n => ⟨Store.resolve_setLocal_of_has hname other n,
        Store.read_setLocal_of_has hname other n⟩⟩
    write_error := fun id name v fault => by
      rw [Store.write_eq_error_iff, hacyclic.resolve_eq_none_iff]
    declare_error := fun id name v fault => Store.declare_eq_error_iff
    unchanged := fun op fault => act_eq_of_fault
    nodup := fun id => hlisted.nodup
    names := fun id hid name => by rw [hlisted.names id hid, Option.isSome_iff_exists]
    order := hlisted.order }

/-- Two frames below a root, one of them with a name of its own that the root has, too; in the root the
name has been taken out and put in again behind another one. -/
def sharedOperations : List Operation :=
  [.write 1 "x" (.integer 5), .declare 2 "x" (.integer 4), .setLocal 0 "x" (.integer 3),
    .removeLocal 0 "x", .declare 0 "y" (.integer 2), .declare 0 "x" (.integer 1), .child 0, .child 0,
    .root]

theorem shared_arises : Arises sharedOperations (made sharedOperations) :=
  .act (.act (.act (.act (.act (.act (.act (.act (.act .start trivial) ⟨0, rfl⟩) ⟨0, rfl⟩) ⟨0, rfl⟩)
    ⟨0, rfl⟩) ⟨0, rfl⟩) ⟨0, rfl⟩) ⟨2, rfl⟩) ⟨1, rfl⟩

theorem scope_laws_shared :
    ((made sharedOperations).store.localNames 0 = ["y", "x"] ∧
      cameAt 0 "y" sharedOperations = some 4 ∧ cameAt 0 "x" sharedOperations = some 6 ∧
      (made sharedOperations).store.resolve 1 "x" = some 0 ∧
      (made sharedOperations).store.resolve 2 "x" = some 2) ∧
    (made sharedOperations).store.read 0 "x" = .ok (.integer 5) ∧
    (made sharedOperations).store.read 2 "x" = .ok (.integer 4) ∧
    Lawful sharedOperations (made sharedOperations) :=
  ⟨by decide +kernel, rfl, rfl, scope_laws shared_arises⟩

end Handles

end ScriptEngine
