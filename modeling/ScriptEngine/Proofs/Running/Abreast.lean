import ScriptEngine.Proofs.Running.Parallel
import ScriptEngine.Proofs.Running.Territory

/-!
Runs on two sides. The layers go together with themselves, and so does what they lead to, in this way or
another; what else is on either side does not matter. A run on these layers then comes to the same on both
sides, and afterwards the sides are as like as they were.
-/
namespace ScriptEngine

namespace Matching

variable {M N : Matching} {layers : Layers} {loose : FrameId → Prop} {σ σ' : Store} {m m' : Machine}

/-! What the host gets -/

inductive AlikeEndings (M : Matching) : Ending → Ending → Prop where
  | value {v v' : Value} (h : M.Alike v v') : AlikeEndings M (.value v) (.value v')
  | error {e : ScriptError} : AlikeEndings M (.error e) (.error e)
  | exhausted : AlikeEndings M .exhausted .exhausted

theorem AlikeEndings.mono {ending ending' : Ending} (h : M.AlikeEndings ending ending')
    (hN : M.Grows N) : N.AlikeEndings ending ending' := by
  cases h with
  | value hv => exact .value (hv.mono hN)
  | error => exact .error
  | exhausted => exact .exhausted

theorem Meets.conclude {outcome outcome' : Outcome Value} (h : M.Meets Alike outcome outcome') :
    ∃ N, M.Grows N ∧ N.AlikeEndings (Machine.conclude outcome).1 (Machine.conclude outcome').1 ∧
      N.Machines (Machine.conclude outcome).2 (Machine.conclude outcome').2 := by
  cases h with
  | done hN hm hv => exact ⟨_, hN, .value hv, hm⟩
  | @signalled M' n n' s s' hN hm hs =>
    refine ⟨_, hN, ?_⟩
    cases hs with
    | jump => exact ⟨.error, hm⟩
    | @transfer kind v v' place hv =>
      cases kind with
      | «return» => exact ⟨.error, hm⟩
      | exit => exact ⟨.value hv, hm⟩
      | throw =>
        have hsame : RuntimeFault.uncaughtThrow (v'.text _) = .uncaughtThrow (v.text _) :=
          congrArg RuntimeFault.uncaughtThrow (hm.store.text hv)
        refine ⟨?_, hm⟩
        show M'.AlikeEndings (.error _) (.error (RuntimeFault.toError (.uncaughtThrow (v'.text _)) place))
        rw [hsame]
        exact .error
  | failed hN hm => exact ⟨_, hN, .error, hm⟩
  | exhausted hN hm => exact ⟨_, hN, .exhausted, hm⟩

/-! The beginning -/

theorem LikensBut.installNatives (natives : List (String × List String × NativeAction))
    {top top' : FrameId} : ∀ {M : Matching} {σ σ' : Store}, M.LikensBut loose σ σ' →
      M.frames.pairs top top' → ∃ N, M.Grows N ∧ N.LikensBut loose
        (natives.foldl (fun σ native =>
          let (v, σ) := σ.newNative native.1 native.2.1 native.2.2
          σ.setLocal top native.1 v) σ)
        (natives.foldl (fun σ native =>
          let (v, σ) := σ.newNative native.1 native.2.1 native.2.2
          σ.setLocal top' native.1 v) σ') := by
  induction natives with
  | nil => exact fun {M} _ _ h _ => ⟨M, .refl M, h⟩
  | cons native rest ih =>
    intro M σ σ' h htop
    have hgrows := M.grows_withIdentity
    have hnative : M.withIdentity.Alike (σ.newNative native.1 native.2.1 native.2.2).1
        (σ'.newNative native.1 native.2.1 native.2.2).1 := .native h.nextIdentity
    have hbound := h.newIdentity.setLocal (hgrows.frames.kept _ _ htop) native.1 hnative
    obtain ⟨N, hN, hrest⟩ := ih hbound (hgrows.frames.kept _ _ htop)
    exact ⟨N, hgrows.trans hN, hrest⟩

/-- When the layers are linked no frame is loose. -/
theorem LikensBut.link (h : M.LikensBut layers.Has σ σ')
    (hlayers : ∀ id, layers.Has id → M.frames.pairs id id) {top top' : FrameId}
    (htop : M.frames.pairs top top') : M.Likens (layers.link top σ) (layers.link top' σ') := by
  have hbindings := hlayers layers.bindings (Or.inl rfl)
  unfold Layers.link
  cases hupper : layers.upper? with
  | none =>
    refine h.relink hbindings (fun id hid hlayer => ?_) fun _ => .some htop
    rcases Layers.has_iff.mp hlayer with rfl | hlayer
    · exact hid rfl
    · exact absurd (hupper.symm.trans hlayer) (by simp)
  | some upper =>
    have hpairs := hlayers upper (Layers.has_iff.mpr (Or.inr hupper))
    have hfirst : M.LikensBut (fun id => id = layers.bindings) _ _ :=
      h.relink hpairs (fun id hid hlayer => ?_) fun _ => .some htop
    · exact hfirst.relink hbindings (fun id hid hlayer => hid hlayer) fun _ => .some hpairs
    · rcases Layers.has_iff.mp hlayer with heq | hlayer
      · exact heq
      · exact absurd (Option.some.inj (hlayer.symm.trans hupper)) hid

theorem LikensBut.begin (h : M.LikensBut layers.Has m.store m'.store)
    (hlayers : ∀ id, layers.Has id → M.frames.pairs id id) (hconsole : m'.console = m.console)
    (hfiles : m'.files = m.files) :
    ∃ N, M.Grows N ∧ N.frames.pairs m.store.frames.size m'.store.frames.size ∧
      N.Machines (m.begin layers).2 (m'.begin layers).2 := by
  have hgrows := M.grows_withFrame
  have hroot : M.withFrame.LikensBut layers.Has m.store.newRoot.2 m'.store.newRoot.2 :=
    h.addFrame .nil .none
  obtain ⟨N, hN, hnatives⟩ := hroot.installNatives Store.standardNatives h.nextFrame
  have htop := hN.frames.kept _ _ h.nextFrame
  have hlinked := hnatives.link
    (fun id hid => hN.frames.kept _ _ (hgrows.frames.kept _ _ (hlayers id hid))) htop
  exact ⟨N, hgrows.trans hN, htop, hlinked, hconsole, hfiles, rfl⟩

/-! The end -/

theorem LikensBut.restore (hlayers : ∀ id, layers.Has id → M.frames.pairs id id)
    (f g : FrameId → Option FrameId) (ids : List FrameId) (hids : ∀ id ∈ ids, layers.Has id)
    (h : M.LikensBut layers.Has σ σ') : M.LikensBut layers.Has
      (Layers.restore (ids.map fun id => (id, f id)) σ)
      (Layers.restore (ids.map fun id => (id, g id)) σ') := by
  induction ids with
  | nil => exact h
  | cons id rest ih =>
    rw [List.forall_mem_cons] at hids
    exact (ih hids.2).relink (hlayers id hids.1) (fun _ _ hloose => hloose)
      fun hloose => absurd hids.1 hloose

theorem LikensBut.unlink (h : N.LikensBut layers.Has σ σ')
    (hlayers : ∀ id, layers.Has id → N.frames.pairs id id)
    (htop : N.frames.pairs m.store.frames.size m'.store.frames.size) :
    N.LikensBut layers.Has (m.unlink layers σ) (m'.unlink layers σ') := by
  have hids : ∀ id ∈ layers.upper?.toList ++ [layers.bindings], layers.Has id := by
    intro id hid
    rcases List.mem_append.mp hid with hid | hid
    · exact Layers.has_iff.mpr (Or.inr (by simpa using hid))
    · exact Or.inl (List.mem_singleton.mp hid)
  exact (LikensBut.restore hlayers m.store.parent? m'.store.parent? _ hids h).dropFrame htop

end Matching

/-! A run -/

/-- The layers go together with themselves, and the sides are alike. -/
structure Matching.Abreast (M : Matching) (layers : Layers) (alone together : Store) : Prop where
  pinned : ∀ id, layers.Has id → M.frames.pairs id id
  likens : M.LikensBut layers.Has alone together

namespace Machine

/-- What a host gets from a run. -/
structure Report where
  job : Job
  ending : Ending
  console : Console
  files : Files

def report (m : Machine) (job : Job) : Report :=
  ⟨job, (m.perform job).1, (m.perform job).2.console, (m.perform job).2.files⟩

/-- What a host gets from runs one after another. -/
def reports (m : Machine) : List Job → List Report
  | [] => []
  | job :: rest => m.report job :: (m.perform job).2.reports rest

end Machine

/-- The same run ended in the same way, with the same output. -/
structure Matching.AlikeReports (M : Matching) (r r' : Machine.Report) : Prop where
  job : r'.job = r.job
  ending : M.AlikeEndings r.ending r'.ending
  console : r'.console = r.console
  files : r'.files = r.files

namespace Matching

variable {M N : Matching} {job : Job} {m m' : Machine}

theorem AlikeReports.mono {r r' : Machine.Report} (h : M.AlikeReports r r') (hN : M.Grows N) :
    N.AlikeReports r r' := ⟨h.job, h.ending.mono hN, h.console, h.files⟩

/-- A run comes to the same on both sides, and leaves them alike. -/
theorem Abreast.perform (h : M.Abreast job.layers m.store m'.store) :
    ∃ N, M.Grows N ∧ N.Abreast job.layers (m.perform job).2.store (m'.perform job).2.store ∧
      N.AlikeReports (m.report job) (m'.report job) := by
  have hready : M.LikensBut job.layers.Has (m.equipped job).store (m'.equipped job).store := h.likens
  obtain ⟨N, hN, htop, hbegin⟩ := hready.begin h.pinned rfl rfl
  have hscope := hN.frames.kept _ _ (h.pinned job.layers.bindings (Or.inl rfl))
  have hscript := Eval.parallel_script job.limit job.fuel job.program.body hscope .null N _ _
    (.refl N) hbegin
  obtain ⟨L, hL, hending, hended⟩ := hscript.conclude
  have hlayers : ∀ id, job.layers.Has id → L.frames.pairs id id :=
    fun id hid => hL.frames.kept _ _ (hN.frames.kept _ _ (h.pinned id hid))
  have hloosened : L.LikensBut job.layers.Has _ _ := hended.store.loosen fun _ hid => absurd hid id
  have hunlinked : L.LikensBut job.layers.Has ((m.equipped job).unlink job.layers _)
      ((m'.equipped job).unlink job.layers _) := hloosened.unlink hlayers (hL.frames.kept _ _ htop)
  exact ⟨L, hN.trans hL, ⟨hlayers, hunlinked⟩, rfl, hending, hended.console, hended.files⟩

end Matching

end ScriptEngine
