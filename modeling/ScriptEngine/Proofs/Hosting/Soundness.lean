import ScriptEngine.Proofs.Hosting.Sessions
import ScriptEngine.Proofs.Running.Layers
import ScriptEngine.Proofs.Running.Moments

/-!
Sessions through runs. Code can come by functions that were declared in sets before the run, and what
it declares itself is bound where it was declared. So a run leaves the session sound.
-/
namespace ScriptEngine

namespace Session

variable {s : Session} {known : FrameId → Prop} {on : FrameId}

/-- What code can come by in a run: functions that were declared in sets before it. Where else a
function is bound is where it was declared. -/
def realm (s : Session) (known : FrameId → Prop)
    (hborn : ∀ id, known id → id < s.store.frames.size) : Realm where
  frames := fun _ => True
  scopes := fun id => id ≠ s.store.frames.size
  cells := fun _ => True
  data := fun v => ∀ f, v = .function f → known f.home ∧ f.identity < s.store.nextIdentity
  bound := fun id _ v => ∀ f, v = .function f →
    f.home = id ∧ id ≠ s.store.frames.size ∨ known f.home ∧ f.identity < s.store.nextIdentity
  code := fun scope _ => scope ≠ s.store.frames.size
  callable := fun f => f.home ≠ s.store.frames.size
  firstFrame := s.store.frames.size + 1
  firstCell := 0
  firstIdentity := 0
  scope_of_new := fun id hid => by
    have hlt : s.store.frames.size < id := hid
    exact Nat.ne_of_gt hlt
  frame_of_scope := fun _ _ => trivial
  cell_of_new := fun _ _ => trivial
  data_scalar := by
    rintro v hv f rfl
    exact absurd hv (by simp [Value.isScalar])
  data_array := fun cell => ⟨fun _ => trivial, fun _ f hf => absurd hf (by simp)⟩
  data_struct := fun cell => ⟨fun _ => trivial, fun _ f hf => absurd hf (by simp)⟩
  bound_of_new := fun _ _ _ _ hv f hf => Or.inr (hv f hf)
  bound_again := fun _ _ _ _ _ hv f hf => Or.inr (hv f hf)
  data_of_bound := by
    rintro id _ v hv hcallable f rfl
    exact absurd hcallable (by simp [Value.isCallable])
  scope_of_callable := fun _ h => h
  code_of_callable := fun _ _ _ hnew => Nat.ne_of_gt hnew
  scope_of_code := fun _ _ h => h
  code_of_part := fun _ _ _ h _ => h
  code_of_opens := fun _ _ _ _ _ _ hnew => Nat.ne_of_gt hnew
  bound_of_declare := fun _ _ _ _ _ _ hv f hf => Or.inr (hv f hf)
  bound_of_function := by
    intro scope name params body span identity hscope _ g hg
    obtain rfl := Value.function.inj hg
    exact Or.inl ⟨rfl, hscope⟩
  callable_of_bound := by
    intro id _ f _ hf
    rcases hf f rfl with ⟨hhome, hid⟩ | ⟨hhome, -⟩
    · rw [hhome]
      exact hid
    · exact Nat.ne_of_lt (hborn _ hhome)

theorem realm_holds_begin (h : s.Sound known) (layers : Layers) :
    (s.realm known h.born).Holds (s.machine.begin layers).2.store := by
  have hold : ∀ f, s.store.HasFunction f → known f.home ∧ f.identity < s.store.nextIdentity :=
    h.functions
  refine ⟨?_, fun _ _ _ _ => trivial, ?_, ?_, Nat.zero_le _, Nat.zero_le _⟩
  · intro id _ hresult hentry f hf
    obtain ⟨name, v⟩ := hresult
    have hf : v = .function f := hf
    subst hf
    exact Or.inr (hold f (Or.inl ⟨id, name, Machine.function_of_bindings_begin hentry⟩))
  · rintro cell content - hcontent v hv f rfl
    rw [Machine.cells_begin] at hcontent
    exact hold f (Or.inr ⟨cell, content, hcontent, hv⟩)
  · exact Nat.le_of_eq (Machine.size_begin layers s.machine).symm

theorem numbered_begin (h : s.Sound known) (layers : Layers) :
    (s.machine.begin layers).2.store.Numbered ∧
      (s.realm known h.born).Numbers (s.machine.begin layers).2.store := by
  have hidentity := Machine.nextIdentity_le_begin layers s.machine
  constructor
  · intro id name f hf
    have hf := Machine.function_of_bindings_begin hf
    have hnumber := (h.functions f (Or.inl ⟨id, name, hf⟩)).2
    exact Nat.lt_of_lt_of_le hnumber hidentity
  · intro f hf
    exact Nat.lt_of_lt_of_le (hf f rfl).2 hidentity

theorem Sound.lt_size (h : s.Sound known) (hon : s.Holds on) : on < s.store.frames.size :=
  Store.lt_size_of_isAlive (h.isAlive_iff.mpr hon)

theorem settled_script (h : s.Sound known) (hon : s.Holds on) (fuel : Nat) (program : Program) :
    (s.realm known h.born).Settled (s.machine.begin ⟨on, s.globals⟩).2.store
      (Machine.conclude (Eval.script s.limit fuel on .null program.body
        (s.machine.begin ⟨on, s.globals⟩).2)).2.store := by
  have hscope : (s.realm known h.born).scopes on := Nat.ne_of_lt (h.lt_size hon)
  have hscript := Eval.keeps_script s.limit fuel program.body hscope .null
    (realm_holds_begin h ⟨on, s.globals⟩) ((s.realm known h.born).data_scalar .null rfl)
  exact (Outcome.Keeps.conclude hscript).1

/-- After a run the session is sound again. -/
theorem Sound.run (h : s.Sound known) (hon : s.Holds on) (program : Program) :
    (s.run on program).2.Sound fun id => known id ∨ s.Holds id := by
  have hscript := settled_script h hon ampleFuel program
  have hunlink := Machine.settles_unlink hscript.settles
  have hcounts : (s.run on program).2.store.Counts s.holders := h.counts.settles hunlink
  have hnext : (s.run on program).2.store.nextIdentity =
      (Machine.conclude (Eval.script s.limit ampleFuel on .null program.body
        (s.machine.begin ⟨on, s.globals⟩).2)).2.store.nextIdentity :=
    Layers.nextIdentity_restore _ _
  have hlater : s.store.nextIdentity ≤ (s.run on program).2.store.nextIdentity := by
    rw [hnext]
    exact Nat.le_trans (Machine.nextIdentity_le_begin _ s.machine) hscript.identities
  refine ⟨h.names, hcounts, ?_, ?_⟩
  · intro f hcase
    rcases hcase with ⟨id, name, hf⟩ | ⟨cell, content, hcontent, hf⟩
    · have hheld : s.Holds id :=
        (holds_iff h.names).mpr (hcounts.isAlive_iff.mp (Store.isAlive_of_mem_bindings hf))
      have hf := ((Store.narrows_dropFrame _ _).bindings id _ hf)
      rw [Layers.bindings_restore] at hf
      obtain ⟨hnumbered, hnumbers⟩ := numbered_begin h ⟨on, s.globals⟩
      have hnumber := hscript.numbered hnumbers hnumbered id name f hf
      rw [← hnext] at hnumber
      rcases hscript.holds.bindings id trivial _ hf f rfl with ⟨hhome, -⟩ | ⟨hhome, -⟩
      · exact ⟨Or.inr (hhome ▸ hheld), hnumber⟩
      · exact ⟨Or.inl hhome, hnumber⟩
    · have hcontent : (Layers.restore (Layers.parents ⟨on, s.globals⟩ s.store) _).cells[cell]? =
        some content := hcontent
      rw [Layers.cells_restore] at hcontent
      obtain ⟨hhome, hnumber⟩ := hscript.holds.cells cell content trivial hcontent _ hf f rfl
      exact ⟨Or.inl hhome, Nat.lt_of_lt_of_le hnumber hlater⟩
  · intro id hcase
    rcases hcase with hid | hid
    · exact Nat.lt_of_lt_of_le (h.born id hid) hunlink.size
    · exact Nat.lt_of_lt_of_le (h.lt_size hid) hunlink.size

theorem Sound.equipped (h : s.Sound known) (console : Console) (files : Files) :
    (s.equipped console files).Sound known :=
  ⟨h.names, h.counts, h.functions, h.born⟩

theorem Sound.step {s' : Session} (h : s.Sound known) (hstep : s.Step s') :
    s'.Sound fun id => known id ∨ s'.Holds id := by
  cases hstep with
  | mention name => exact (h.set name).widen
  | globals name hnone => exact (h.withGlobals hnone name).widen
  | run program console files hon => exact (h.equipped console files).run hon program
  | aggregate content hcontent => exact (h.aggregate hcontent).widen
  | insert name hon hv => exact (h.insert hv).widen
  | remove name hon => exact h.remove.widen
  | share name hon => exact (h.share hon name).widen
  | drop name => exact (h.drop name).widen

/-- At some time in the session the frame was a set that the host held. -/
def WasSet (limit : Nat) (s : Session) (id : FrameId) : Prop :=
  ∃ earlier, (fresh limit).Follows earlier ∧ earlier.Follows s ∧ earlier.Holds id

theorem exists_sound {limit : Nat} (hs : (fresh limit).Follows s) :
    ∃ known, s.Sound known ∧ ∀ id, known id → s.WasSet limit id := by
  induction hs with
  | refl => exact ⟨_, .fresh limit, fun _ hid => hid.elim⟩
  | tail hway hlast ih =>
    obtain ⟨known, hsound, hknown⟩ := ih
    refine ⟨_, hsound.step hlast, ?_⟩
    intro id hcase
    rcases hcase with hid | hid
    · obtain ⟨earlier, hearlier, hlater, hheld⟩ := hknown id hid
      exact ⟨earlier, hearlier, hlater.tail hlast, hheld⟩
    · exact ⟨_, hway.tail hlast, .refl, hid⟩

/-- The first moment of a run of the program on a set. -/
def outset (s : Session) (on : FrameId) (program : Program) : Moment :=
  s.machine.outset ⟨on, s.globals⟩ program

end Session

end ScriptEngine
