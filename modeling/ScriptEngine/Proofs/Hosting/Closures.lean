import ScriptEngine.Proofs.Hosting.Soundness
import ScriptEngine.Proofs.Running.Origin
import ScriptEngine.Proofs.Running.Stranded

/-!
The homes of functions. A function only keeps a weak handle on the frame that it was declared in, and
yet no script can lose one: a call fails for that reason only when the host has given back the set in
which the function was declared.
-/
namespace ScriptEngine

namespace Session

variable {s : Session} {known : FrameId → Prop} {on : FrameId}

theorem isAlive_begin {id : FrameId} (hid : id < s.store.frames.size) (layers : Layers) :
    (s.machine.begin layers).2.store.isAlive id = s.store.isAlive id := by
  have hsome := congrArg Option.isSome
    (Machine.handles_begin (m := s.machine) layers (Nat.ne_of_lt hid))
  rwa [Option.isSome_map, Option.isSome_map] at hsome

theorem grounded_outset (h : s.Sound known) (hon : s.Holds on) (program : Program) :
    (s.outset on program).Grounded s.store.frames.size := by
  have hsize := Machine.size_begin ⟨on, s.globals⟩ s.machine
  constructor
  · intro id hid halive
    have hlt : id < (s.machine.begin ⟨on, s.globals⟩).2.store.frames.size :=
      Store.lt_size_of_isAlive halive
    rw [hsize] at hlt
    exact absurd hid (Nat.not_lt_of_le (Nat.le_of_lt_succ hlt))
  · intro id hid
    obtain rfl : on = id := Option.some.inj hid
    exact (isAlive_begin (h.lt_size hon) ⟨on, s.globals⟩).trans (h.isAlive_iff.mpr hon)

/-- A function that is called is bound to a name. -/
theorem exists_binding_of_call {limit : Nat} {M : Moment} {f : Closure} {arguments : List Value}
    {place : Span} {m : Machine} (h : M.Reaches limit ⟨.call f arguments place, m⟩)
    (hM : M.task.scope? ≠ none) : ∃ frame name, m.store.getLocal? frame name = some (.function f) := by
  cases h with
  | refl => exact absurd rfl hM
  | tail _ hlast =>
    cases hlast with
    | call fuel hframe harguments hcallee => exact ⟨_, _, hcallee⟩

/-- At every call in a run the home of the function lies in a set, and it is there just when the host
holds the set. The set of a function that the run has declared is held. -/
theorem Sound.home_of_call (h : s.Sound known) (hon : s.Holds on) {program : Program} {limit : Nat}
    {f : Closure} {arguments : List Value} {place : Span} {m : Machine}
    (hM : (s.outset on program).Reaches limit ⟨.call f arguments place, m⟩) :
    ∃ set, (known set ∨ s.Holds set) ∧ m.store.Under s.store.frames.size set f.home ∧
      (m.store.isAlive f.home ↔ s.Holds set) ∧
      (s.store.nextIdentity ≤ f.identity → s.Holds set) := by
  have hscope : (s.realm known h.born).scopes on := Nat.ne_of_lt (h.lt_size hon)
  have hbegin := realm_holds_begin h ⟨on, s.globals⟩
  obtain ⟨hway, -⟩ := reaches_keeps hM hbegin hscope
  have htop : ¬ (s.realm known h.born).scopes s.store.frames.size := fun hne => hne rfl
  have hground := reaches_grounded hM htop hbegin hscope (grounded_outset h hon program)
  -- the frames from before the run are there as long as they are held
  have hheld : ∀ id, id < s.store.frames.size → (m.store.isAlive id ↔ s.Holds id) := by
    intro id hid
    have hlt : id < (s.machine.begin ⟨on, s.globals⟩).2.store.frames.size := by
      rw [Machine.size_begin]
      exact Nat.lt_succ_of_lt hid
    have hsame : m.store.isAlive id = (s.machine.begin ⟨on, s.globals⟩).2.store.isAlive id :=
      hway.frames.isAlive hlt
    rw [hsame, isAlive_begin hid, h.isAlive_iff]
  obtain ⟨frame, name, hbinding⟩ := exists_binding_of_call hM (by
    simp [outset, Machine.outset, Task.scope?, Task.place?])
  have hbound := Realm.bound_of_getLocal? hway.holds trivial hbinding
  rcases hbound f rfl with ⟨hhome, hne⟩ | ⟨hhome, hnumber⟩
  · have halive : m.store.isAlive f.home := hhome ▸ Store.isAlive_of_getLocal? hbinding
    obtain ⟨set, hunder, hset⟩ := hground.linked.exists_under f.home halive (hhome ▸ hne)
    have hholds := (hheld set hunder.lt).mp hset
    exact ⟨set, Or.inr hholds, hunder, ⟨fun _ => hholds, fun _ => halive⟩, fun _ => hholds⟩
  · have hlt := h.born f.home hhome
    refine ⟨f.home, Or.inl hhome, .base hlt, hheld f.home hlt, fun hlater => ?_⟩
    exact absurd hnumber (Nat.not_lt_of_le hlater)

/-- No script can take a function's scope away. In every session a call fails because the home of the
function is gone when, and only when, the host holds the set no more in which the function was
declared, unless the call is too deep. This is never so for a function that the run has declared. A
run that fails for this reason has come to such a call. -/
theorem call_homeGone_iff {limit : Nat} (hs : (fresh limit).Follows s) (hon : s.Holds on)
    (console : Console) (files : Files) (program : Program) :
    (∀ f arguments place m,
      ((s.equipped console files).outset on program).Reaches s.limit
        ⟨.call f arguments place, m⟩ →
      ∃ set, s.WasSet limit set ∧ m.store.Under s.store.frames.size set f.home ∧
        (∀ fuel, Eval.call s.limit (fuel + 1) f arguments place m =
          .failed (.homeGone f.name) place m ↔ m.depth < s.limit ∧ ¬ s.Holds set) ∧
        (s.store.nextIdentity ≤ f.identity → s.Holds set)) ∧
    ∀ fuel name place m,
      Eval.script s.limit fuel on .null program.body
        ((s.equipped console files).outset on program).machine =
          .failed (.homeGone name) place m →
      ∃ f arguments m' set,
        ((s.equipped console files).outset on program).Reaches s.limit
          ⟨.call f arguments place, m'⟩ ∧
        f.name = name ∧ m'.store.Under s.store.frames.size set f.home ∧ ¬ s.Holds set := by
  obtain ⟨known, hsound, hknown⟩ := exists_sound hs
  have hequipped := hsound.equipped console files
  constructor
  · intro f arguments place m hM
    obtain ⟨set, hset, hunder, hhome, hdeclared⟩ := hequipped.home_of_call hon hM
    refine ⟨set, ?_, hunder, fun fuel => ?_, hdeclared⟩
    · rcases hset with hset | hset
      · exact hknown set hset
      · exact ⟨s, hs, .refl, hset⟩
    · rw [Eval.call_eq_homeGone_iff, hhome]
      rfl
  · intro fuel name place m hfail
    obtain ⟨⟨task, m'⟩, hN, f, arguments, hcall, hname, -, hgone⟩ :=
      Eval.misses_script s.limit fuel on program.body .null _ name place m hfail
    obtain rfl : task = .call f arguments place := hcall
    obtain ⟨set, -, hunder, hhome, -⟩ := hequipped.home_of_call hon hN
    exact ⟨f, arguments, m', set, hN, hname, hunder, fun hset => hgone (hhome.mpr hset)⟩

/-- A function that was declared in one set and is bound in another one. -/
def orphan : Closure := ⟨7, ⟨⟨"f", default⟩, [], [], default⟩, 0⟩

def orphanCall : Program := ⟨[.expression (.call ⟨"f", default⟩ [] default) default], default⟩

/-- The session after the declaration. -/
def nursery (limit : Nat) : Session :=
  ((((fresh limit).set "a").2.equipped .silent []).run 0
    ⟨[.function ⟨"f", default⟩ [] [] default], default⟩).2

/-- The session after the set in which the function was declared has been given back. -/
def orphanage (limit : Nat) : Session :=
  (((nursery limit).set "b").2.insert 2 "f" (.function orphan)).2.drop "a"

theorem nursery_eq (limit : Nat) : nursery limit = { nursery 0 with limit := limit } := by
  -- the declaration of a function does not ask how deep calls may be
  have hrun : ∀ layers m,
      Machine.run limit ampleFuel layers ⟨[.function ⟨"f", default⟩ [] [] default], default⟩ m =
        Machine.run 0 ampleFuel layers ⟨[.function ⟨"f", default⟩ [] [] default], default⟩ m :=
    fun _ _ => rfl
  have hstart : ((fresh limit).set "a").2.equipped .silent [] =
      { ((fresh 0).set "a").2.equipped .silent [] with limit := limit } := rfl
  unfold nursery Session.run
  rw [hstart]
  dsimp only
  rw [hrun]
  rfl

theorem orphanage_eq (limit : Nat) : orphanage limit = { orphanage 0 with limit := limit } := by
  unfold orphanage
  rw [nursery_eq]
  rfl

theorem follows_orphanage (limit : Nat) : (fresh limit).Follows (orphanage limit) := by
  have ha : ((fresh limit).set "a").2.Holds 0 := Or.inl ⟨"a", rfl⟩
  have hrun : ((fresh limit).set "a").2.Step (nursery limit) := .run _ .silent [] ha
  have hknows : ((nursery limit).set "b").2.Knows (.function orphan) := by
    rw [nursery_eq]
    exact Or.inr (Or.inl ⟨0, "f", Or.inl ⟨"a", rfl⟩, rfl⟩)
  have hb : ((nursery limit).set "b").2.Holds 2 := by
    rw [nursery_eq]
    exact Or.inl ⟨"b", rfl⟩
  have hstart : (fresh limit).Follows ((nursery limit).set "b").2 :=
    .tail (.tail (.single (.mention "a")) hrun) (.mention "b")
  exact .tail (.tail hstart (.insert "f" hb hknows)) (.drop "a")

theorem orphanage_holds (limit : Nat) : (orphanage limit).Holds 2 := by
  rw [orphanage_eq]
  exact Or.inl ⟨"b", rfl⟩

theorem orphanage_not_holds (limit : Nat) : ¬ (orphanage limit).Holds 0 := by
  rw [orphanage_eq]
  have hsets : (orphanage 0).sets = [("b", 2)] := rfl
  have hglobals : (orphanage 0).globals = none := rfl
  intro hcase
  rcases hcase with ⟨name, hname⟩ | hheld
  · have hmem := Entries.mem_of_get? hname
    rw [hsets] at hmem
    exact absurd hmem (by simp)
  · rw [hglobals] at hheld
    exact absurd hheld (by simp)

theorem orphan_home_lt (limit : Nat) : orphan.home < (orphanage limit).store.frames.size := by
  have hlt : orphan.home < (orphanage 0).store.frames.size := by decide +kernel
  rw [orphanage_eq]
  exact hlt

theorem reaches_orphan (limit : Nat) :
    ((orphanage limit).outset 2 orphanCall).Reaches limit
      ⟨.call orphan [] default, ((orphanage limit).outset 2 orphanCall).machine⟩ := by
  rw [orphanage_eq]
  have hframe : ((orphanage 0).outset 2 orphanCall).machine.store.resolve 2 "f" = some 2 := by
    decide +kernel
  have hcallee : ((orphanage 0).outset 2 orphanCall).machine.store.getLocal? 2 "f" =
      some (.function orphan) := by
    with_unfolding_all rfl
  refine .tail (.tail (.single .first) (.part rfl)) ?_
  exact .call 1 hframe rfl hcallee

theorem call_homeGone_orphan :
    (fresh 1).Follows (orphanage 1) ∧ (orphanage 1).Holds 2 ∧
      ∀ fuel, Eval.call 1 (fuel + 1) orphan [] default
        ((orphanage 1).outset 2 orphanCall).machine =
          .failed (.homeGone "f") default ((orphanage 1).outset 2 orphanCall).machine := by
  refine ⟨follows_orphanage 1, orphanage_holds 1, fun fuel => ?_⟩
  obtain ⟨hcalls, -⟩ := call_homeGone_iff (follows_orphanage 1) (orphanage_holds 1)
    (orphanage 1).machine.console (orphanage 1).machine.files orphanCall
  obtain ⟨set, -, hunder, hfails, -⟩ := hcalls orphan [] default _ (reaches_orphan 1)
  obtain rfl : set = 0 := hunder.unique (.base (orphan_home_lt 1))
  exact (hfails fuel).mpr ⟨Nat.one_pos, orphanage_not_holds 1⟩

/-- When calls are too deep they fail for that reason, whether or not the home is gone. -/
theorem not_call_homeGone_iff_not_holds :
    ¬ ∀ (limit : Nat) (s : Session) (on : FrameId) (program : Program) (f : Closure)
        (arguments : List Value) (place : Span) (m : Machine) (set : FrameId) (fuel : Nat),
      (fresh limit).Follows s → s.Holds on →
      (s.outset on program).Reaches s.limit ⟨.call f arguments place, m⟩ →
      m.store.Under s.store.frames.size set f.home →
      (Eval.call s.limit (fuel + 1) f arguments place m = .failed (.homeGone f.name) place m ↔
        ¬ s.Holds set) := by
  intro h
  have hcall := (h 0 (orphanage 0) 2 orphanCall orphan [] default _ 0 0 (follows_orphanage 0)
    (orphanage_holds 0) (reaches_orphan 0) (.base (orphan_home_lt 0))).mpr (orphanage_not_holds 0)
  rw [Eval.call_eq_homeGone_iff] at hcall
  exact absurd hcall.1 (Nat.not_lt_zero _)

end Session

end ScriptEngine
