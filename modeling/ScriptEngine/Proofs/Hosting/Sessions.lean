import Mathlib.Logic.Relation
import ScriptEngine.Proofs.Hosting.Handles
import ScriptEngine.Proofs.Running.Realm

/-!
What a host can do with its sets of bindings: it runs programs on them, binds values that it has come
by, removes bindings, and takes and gives back handles. Whatever it does, the frames that are there
between runs are the sets that it holds, and every script function was declared in a set.
-/
namespace ScriptEngine

namespace Store

/-- The value is in an array or a struct. -/
def InCell (σ : Store) (v : Value) : Prop :=
  ∃ (cell : CellId) (content : Cell), σ.cells[cell]? = some content ∧ v ∈ content.values

/-- The function is bound somewhere, or it is in an array or a struct. -/
def HasFunction (σ : Store) (f : Closure) : Prop :=
  (∃ id name, (name, .function f) ∈ σ.bindings id) ∨ σ.InCell (.function f)

end Store

theorem Store.Narrows.hasFunction {σ σ' : Store} {f : Closure} (h : σ.Narrows σ')
    (hf : σ'.HasFunction f) : σ.HasFunction f := by
  rcases hf with ⟨id, name, hf⟩ | ⟨cell, content, hcell, hf⟩
  · exact Or.inl ⟨id, name, h.bindings id _ hf⟩
  · exact Or.inr ⟨cell, content, h.cells ▸ hcell, hf⟩

namespace Session

/-- A name stands for the set, or the set is the globals. -/
def Holds (s : Session) (id : FrameId) : Prop :=
  (∃ name, s.sets.get? name = some id) ∨ s.globals = some id

/-- The host can come by the value: it is no callable, or it is bound in a set, or it is in an array or
a struct. -/
def Knows (s : Session) (v : Value) : Prop :=
  v.isCallable = false ∨ (∃ id name, s.Holds id ∧ s.get? id name = some v) ∨ s.store.InCell v

/-- With another console and other files. -/
def equipped (s : Session) (console : Console) (files : Files) : Session :=
  { s with machine := { s.machine with console := console, files := files } }

inductive Step : Session → Session → Prop where
  | mention {s} (name : String) : Step s (s.set name).2
  | globals {s} (name : String) (hnone : s.globals = none) : Step s (s.withGlobals name)
  | run {s on} (program : Program) (console : Console) (files : Files) (hon : s.Holds on) :
      Step s ((s.equipped console files).run on program).2
  | aggregate {s} (content : Cell) (hcontent : ∀ v ∈ content.values, s.Knows v) :
      Step s (s.withStore (s.store.addCell content).2)
  | insert {s on v} (name : String) (hon : s.Holds on) (hv : s.Knows v) :
      Step s (s.insert on name v).2
  | remove {s on} (name : String) (hon : s.Holds on) : Step s (s.remove on name).2
  | share {s on} (name : String) (hon : s.Holds on) : Step s (s.share on name)
  | drop {s} (name : String) : Step s (s.drop name)

/-- From one state the session can come to another one. -/
def Follows : Session → Session → Prop := Relation.ReflTransGen Step

/-- A session in which nothing has happened. -/
def fresh (limit : Nat) : Session := { start with limit := limit }

/-- How many handles there are on a set. -/
def holders (s : Session) (id : FrameId) : Nat :=
  (s.sets.map Prod.snd).count id + if s.globals = some id then 1 else 0

/-- What is true of a session between runs. Functions have homes that are known to have been sets. -/
structure Sound (s : Session) (known : FrameId → Prop) : Prop where
  names : s.sets.names.Nodup
  counts : s.store.Counts s.holders
  functions : ∀ f, s.store.HasFunction f → known f.home ∧ f.identity < s.store.nextIdentity
  born : ∀ id, known id → id < s.store.frames.size

variable {s : Session} {known : FrameId → Prop} {on id : FrameId} {name : String}

theorem holds_iff (hnames : s.sets.names.Nodup) : s.Holds id ↔ 0 < s.holders id := by
  unfold Holds holders
  constructor
  · intro hcase
    rcases hcase with ⟨name, hname⟩ | hglobals
    · have hmem : id ∈ s.sets.map Prod.snd :=
        List.mem_map.mpr ⟨_, Entries.mem_of_get? hname, rfl⟩
      have hcount := List.count_pos_iff.mpr hmem
      omega
    · rw [if_pos hglobals]
      omega
  · intro hpos
    by_cases hglobals : s.globals = some id
    · exact Or.inr hglobals
    · rw [if_neg hglobals, Nat.add_zero] at hpos
      obtain ⟨⟨name, id'⟩, hmem, rfl⟩ := List.mem_map.mp (List.count_pos_iff.mp hpos)
      exact Or.inl ⟨name, Entries.get?_of_mem hnames hmem⟩

/-- The frames that are there are the sets that are held. -/
theorem Sound.isAlive_iff (h : s.Sound known) : s.store.isAlive id ↔ s.Holds id := by
  rw [h.counts.isAlive_iff, holds_iff h.names]

theorem Sound.mono {known' : FrameId → Prop} (h : s.Sound known)
    (hknown : ∀ id, known id → known' id) (hborn : ∀ id, known' id → id < s.store.frames.size) :
    s.Sound known' :=
  ⟨h.names, h.counts, fun f hf => ⟨hknown _ (h.functions f hf).1, (h.functions f hf).2⟩, hborn⟩

/-! Changes of the store -/

/-- A change that leaves the frames what they were and brings no functions. -/
theorem Sound.withStore {σ : Store} (h : s.Sound known) (hstore : s.store.Settles σ)
    (hidentity : σ.nextIdentity = s.store.nextIdentity)
    (hfunctions : ∀ f, σ.HasFunction f → s.store.HasFunction f) : (s.withStore σ).Sound known := by
  refine ⟨h.names, h.counts.settles hstore, fun f hf => ?_, fun id hid => ?_⟩
  · obtain ⟨hhome, hnumber⟩ := h.functions f (hfunctions f hf)
    exact ⟨hhome, hidentity ▸ hnumber⟩
  · exact Nat.lt_of_lt_of_le (h.born id hid) hstore.size

theorem hasFunction_of_knows {f : Closure} (h : s.Knows (.function f)) : s.store.HasFunction f := by
  rcases h with h | ⟨id, name, -, h⟩ | h
  · exact absurd h (by simp [Value.isCallable])
  · exact Or.inl ⟨id, name, Entries.mem_of_get? h⟩
  · exact Or.inr h

theorem hasFunction_insert {v : Value} {f : Closure} (hv : s.Knows v)
    (hf : (s.insert on name v).2.store.HasFunction f) : s.store.HasFunction f := by
  rcases hf with ⟨id, name', hf⟩ | hf
  · rcases Store.mem_bindings_setLocal hf with ⟨-, heq⟩ | hf
    · have hfunction : v = .function f := (congrArg Prod.snd heq).symm
      exact hasFunction_of_knows (hfunction ▸ hv)
    · exact Or.inl ⟨id, name', hf⟩
  · exact Or.inr hf

theorem hasFunction_remove {f : Closure} (hf : (s.remove on name).2.store.HasFunction f) :
    s.store.HasFunction f :=
  (s.store.narrows_removeLocal on name).hasFunction hf

theorem hasFunction_aggregate {content : Cell} {f : Closure}
    (hcontent : ∀ v ∈ content.values, s.Knows v)
    (hf : (s.withStore (s.store.addCell content).2).store.HasFunction f) :
    s.store.HasFunction f := by
  rcases hf with hf | ⟨cell, content', hcell, hf⟩
  · exact Or.inl hf
  · have hcell : (s.store.addCell content).2.cells[cell]? = some content' := hcell
    rw [Store.addCell, Array.getElem?_push] at hcell
    split at hcell
    · obtain rfl := Option.some.inj hcell
      exact hasFunction_of_knows (hcontent _ hf)
    · exact Or.inr ⟨cell, content', hcell, hf⟩

theorem Sound.insert {v : Value} (h : s.Sound known) (hv : s.Knows v) :
    (s.insert on name v).2.Sound known :=
  h.withStore (s.store.settles_modifyFrame on fun _ => rfl) rfl fun _ hf => hasFunction_insert hv hf

theorem Sound.remove (h : s.Sound known) : (s.remove on name).2.Sound known :=
  h.withStore (s.store.settles_modifyFrame on fun _ => rfl) rfl fun _ hf => hasFunction_remove hf

theorem Sound.aggregate {content : Cell} (h : s.Sound known)
    (hcontent : ∀ v ∈ content.values, s.Knows v) :
    (s.withStore (s.store.addCell content).2).Sound known :=
  h.withStore ⟨⟨Nat.le_refl _, fun _ _ => rfl⟩, (Store.Settles.refl s.store).gone⟩ rfl
    fun _ hf => hasFunction_aggregate hcontent hf

/-! Handles -/

theorem Sound.fresh (limit : Nat) : (fresh limit).Sound fun _ => False := by
  refine ⟨List.nodup_nil, fun id => ?_, ?_, fun _ h => h.elim⟩
  · simp [Session.fresh, start, holders, Session.store, Machine.start, Store.empty, Store.frame?]
  · intro f hcase
    rcases hcase with ⟨id, name, hf⟩ | ⟨cell, content, hcell, -⟩
    · exact absurd hf (by
        simp [Session.fresh, start, Session.store, Machine.start, Store.empty, Store.bindings,
          Store.frame?])
    · exact absurd hcell (by
        simp [Session.fresh, start, Session.store, Machine.start, Store.empty])

theorem Sound.widen (h : s.Sound known) : s.Sound fun id => known id ∨ s.Holds id := by
  refine h.mono (fun _ hid => Or.inl hid) ?_
  intro id hcase
  rcases hcase with hid | hid
  · exact h.born id hid
  · exact Store.lt_size_of_isAlive (h.isAlive_iff.mpr hid)

theorem Sound.narrow {s' : Session} (h : s.Sound known) (hstore : s.store.Narrows s'.store)
    (hnames : s'.sets.names.Nodup) (hcounts : s'.store.Counts s'.holders) : s'.Sound known := by
  refine ⟨hnames, hcounts, fun f hf => ?_, fun id hid => ?_⟩
  · rw [hstore.nextIdentity]
    exact h.functions f (hstore.hasFunction hf)
  · exact Nat.lt_of_lt_of_le (h.born id hid) hstore.size

/-- A name that did not stand for a set gets one handle more. -/
theorem holders_put {sets : Entries FrameId} (h : name ∉ sets.names) (frame id : FrameId) :
    ((sets.put name frame).map Prod.snd).count id =
      (sets.map Prod.snd).count id + if frame = id then 1 else 0 := by
  rw [Entries.values_put h, List.count_append, List.count_singleton]
  simp

theorem narrows_set (s : Session) (name : String) : s.store.Narrows (s.set name).2.store := by
  unfold Session.set
  cases s.sets.get? name with
  | some frame => exact .refl _
  | none => exact s.store.narrows_newRoot

theorem narrows_withGlobals (s : Session) (name : String) :
    s.store.Narrows (s.withGlobals name).store :=
  (s.narrows_set name).trans (Store.narrows_retain _ _)

theorem narrows_drop (s : Session) (name : String) : s.store.Narrows (s.drop name).store := by
  unfold Session.drop
  cases s.sets.get? name with
  | none => exact .refl _
  | some frame => exact s.store.narrows_release frame

theorem narrows_share (s : Session) (on : FrameId) (name : String) :
    s.store.Narrows (s.share on name).store :=
  (s.store.narrows_retain on).trans (narrows_drop (s.withStore (s.store.retain on)) name)

theorem Sound.set (h : s.Sound known) (name : String) : (s.set name).2.Sound known := by
  unfold Session.set
  cases hname : s.sets.get? name with
  | some frame => exact h
  | none =>
    have hfree := Entries.not_mem_names_of_get? hname
    refine h.narrow s.store.narrows_newRoot (Entries.names_nodup_put h.names _ _) ?_
    apply h.counts.newRoot
    intro id
    have hput := holders_put hfree s.store.frames.size id
    change ((s.sets.put name s.store.frames.size).map Prod.snd).count id +
      (if s.globals = some id then 1 else 0) = _
    rw [hput, holders]
    omega

theorem get?_set (s : Session) (name : String) :
    (s.set name).2.sets.get? name = some (s.set name).1 := by
  unfold Session.set
  cases hname : s.sets.get? name with
  | some frame => exact hname
  | none => exact Entries.get?_put_self _ _ _

theorem globals_set (s : Session) (name : String) : (s.set name).2.globals = s.globals := by
  unfold Session.set
  cases s.sets.get? name <;> rfl

theorem Sound.withGlobals (h : s.Sound known) (hnone : s.globals = none) (name : String) :
    (s.withGlobals name).Sound known := by
  have hset := h.set name
  have hheld : (s.set name).2.Holds (s.set name).1 := Or.inl ⟨name, s.get?_set name⟩
  refine hset.narrow (Store.narrows_retain _ _) hset.names ?_
  change ((s.set name).2.store.retain (s.set name).1).Counts _
  refine hset.counts.retain (hset.isAlive_iff.mpr hheld) fun id => ?_
  change ((s.set name).2.sets.map Prod.snd).count id +
    (if some (s.set name).1 = some id then 1 else 0) = _
  rw [holders, globals_set, hnone]
  simp

theorem Sound.drop (h : s.Sound known) (name : String) : (s.drop name).Sound known := by
  unfold Session.drop
  cases hname : s.sets.get? name with
  | none => exact h
  | some frame =>
    refine h.narrow (s.store.narrows_release frame) ?_ ?_
    · dsimp only
      rw [Entries.names_erase]
      exact h.names.erase name
    · refine h.counts.release (h.isAlive_iff.mpr (Or.inl ⟨name, hname⟩)) fun id => ?_
      have herase := Entries.count_erase hname id
      change ((s.sets.erase name).map Prod.snd).count id +
        (if s.globals = some id then 1 else 0) = _
      rw [holders, herase]
      omega

theorem Sound.share (h : s.Sound known) (hon : s.Holds on) (name : String) :
    (s.share on name).Sound known := by
  have halive := h.isAlive_iff.mpr hon
  have hkept := s.store.narrows_retain on
  unfold Session.share Session.drop
  cases hname : s.sets.get? name with
  | none =>
    have hfree := Entries.not_mem_names_of_get? hname
    have hname' : (s.withStore (s.store.retain on)).sets.get? name = none := hname
    rw [hname']
    refine h.narrow hkept (Entries.names_nodup_put h.names _ _) ?_
    apply h.counts.retain halive
    intro id
    change ((s.sets.put name on).map Prod.snd).count id +
      (if s.globals = some id then 1 else 0) = _
    rw [holders_put hfree, holders]
    omega
  | some frame =>
    have hname' : (s.withStore (s.store.retain on)).sets.get? name = some frame := hname
    rw [hname']
    have hnames : (s.sets.erase name).names.Nodup := by
      rw [Entries.names_erase]
      exact h.names.erase name
    have hfree : name ∉ (s.sets.erase name).names := by
      rw [Entries.names_erase]
      exact h.names.not_mem_erase
    have hretain : (s.store.retain on).Counts fun id => s.holders id + if on = id then 1 else 0 :=
      h.counts.retain halive fun _ => rfl
    have hframe : (s.store.retain on).isAlive frame := by
      have hheld := (holds_iff h.names).mp (Or.inl ⟨name, hname⟩)
      exact hretain.isAlive_iff.mpr (Nat.lt_of_lt_of_le hheld (Nat.le_add_right _ _))
    refine h.narrow (hkept.trans (Store.narrows_release _ frame))
      (Entries.names_nodup_put hnames _ _) (hretain.release hframe fun id => ?_)
    have herase := Entries.count_erase hname id
    change (((s.sets.erase name).put name on).map Prod.snd).count id +
      (if s.globals = some id then 1 else 0) = _
    rw [holders_put hfree, holders, herase]
    omega

end Session

end ScriptEngine
