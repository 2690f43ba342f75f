import ScriptEngine.Proofs.Running.Likeness
import ScriptEngine.Proofs.Running.Moments

/-!
Evaluations on two sides. From machines that are alike the same code comes to the same: it ends in the
same way, with values that are alike and with the same output, and leaves machines that are alike. What
the evaluations make on the way goes together. The induction is on the fuel, which is the same.
-/
namespace ScriptEngine

namespace Matching

inductive AlikeSignals (M : Matching) : Signal → Signal → Prop where
  | jump {j : LoopJump} {place : Span} : AlikeSignals M (.jump j place) (.jump j place)
  | transfer {kind : Transfer} {v v' : Value} {place : Span} (h : M.Alike v v') :
      AlikeSignals M (.transfer kind v place) (.transfer kind v' place)

structure Machines (M : Matching) (m m' : Machine) : Prop where
  store : M.Likens m.store m'.store
  console : m'.console = m.console
  files : m'.files = m.files
  depth : m'.depth = m.depth

/-- The outcomes are the same, and results go together in this way; more goes together by then. -/
inductive Meets {α β : Type} (M : Matching) (r : Matching → α → β → Prop) :
    Outcome α → Outcome β → Prop where
  | done {N : Matching} {a : α} {b : β} {m m' : Machine} (hN : M.Grows N) (hm : N.Machines m m')
      (ha : r N a b) : Meets M r (.done a m) (.done b m')
  | signalled {N : Matching} {s s' : Signal} {m m' : Machine} (hN : M.Grows N) (hm : N.Machines m m')
      (hs : N.AlikeSignals s s') : Meets M r (.signalled s m) (.signalled s' m')
  | failed {N : Matching} {fault : RuntimeFault} {place : Span} {m m' : Machine} (hN : M.Grows N)
      (hm : N.Machines m m') : Meets M r (.failed fault place m) (.failed fault place m')
  | exhausted {N : Matching} {m m' : Machine} (hN : M.Grows N) (hm : N.Machines m m') :
      Meets M r (.exhausted m) (.exhausted m')

variable {M N : Matching}

theorem Meets.of_grows {α β : Type} {r : Matching → α → β → Prop} {outcome : Outcome α}
    {outcome' : Outcome β} (h : N.Meets r outcome outcome') (hN : M.Grows N) :
    M.Meets r outcome outcome' := by
  cases h with
  | done hL hm ha => exact .done (hN.trans hL) hm ha
  | signalled hL hm hs => exact .signalled (hN.trans hL) hm hs
  | failed hL hm => exact .failed (hN.trans hL) hm
  | exhausted hL hm => exact .exhausted (hN.trans hL) hm

theorem Machines.withStore {m m' : Machine} (h : M.Machines m m') {σ σ' : Store}
    (hstore : N.Likens σ σ') : N.Machines { m with store := σ } { m' with store := σ' } :=
  ⟨hstore, h.console, h.files, h.depth⟩

end Matching

namespace Eval

variable {α β γ δ : Type} {M : Matching} {r : Matching → α → β → Prop}

/-- The results are of no account. -/
abbrev Whatever : Matching → α → β → Prop := fun _ _ _ => True

/-- From machines that are alike the evaluations come to the same, whatever else goes together. -/
def Parallel (M : Matching) (r : Matching → α → β → Prop) (x : Eval α) (y : Eval β) : Prop :=
  ∀ N m m', M.Grows N → N.Machines m m' → N.Meets r (x m) (y m')

theorem Parallel.mono {N : Matching} {x : Eval α} {y : Eval β} (h : Parallel M r x y)
    (hN : M.Grows N) : Parallel N r x y :=
  fun L m m' hL hm => h L m m' (hN.trans hL) hm

theorem Parallel.bind {s : Matching → γ → δ → Prop} {x : Eval α} {y : Eval β} {f : α → Eval γ}
    {g : β → Eval δ} (h : Parallel M r x y)
    (hf : ∀ N a b, M.Grows N → r N a b → Parallel N s (f a) (g b)) :
    Parallel M s (x >>= f) (y >>= g) := by
  intro N m m' hN hm
  have hfirst := h N m m' hN hm
  rw [bind_apply, bind_apply]
  generalize x m = first, y m' = second at hfirst
  cases hfirst with
  | done hL hn ha => exact (hf _ _ _ (hN.trans hL) ha _ _ _ (.refl _) hn).of_grows hL
  | signalled hL hn hs => exact .signalled hL hn hs
  | failed hL hn => exact .failed hL hn
  | exhausted hL hn => exact .exhausted hL hn

theorem parallel_pure {a : α} {b : β} (h : ∀ N, M.Grows N → r N a b) :
    Parallel M r (Pure.pure a) (Pure.pure b) :=
  fun N _ _ hN hm => .done (.refl N) hm (h N hN)

theorem parallel_value {v v' : Value} (h : M.Alike v v') :
    Parallel M Matching.Alike (Pure.pure v) (Pure.pure v') :=
  parallel_pure fun _ hN => h.mono hN

theorem parallel_unit : Parallel M Whatever (Pure.pure () : Eval Unit) (Pure.pure () : Eval Unit) :=
  parallel_pure fun _ _ => trivial

theorem parallel_fail (fault : RuntimeFault) (place : Span) :
    Parallel M r (fail fault place) (fail fault place) :=
  fun N _ _ _ hm => .failed (.refl N) hm

theorem parallel_signal {s s' : Signal} (h : ∀ N, M.Grows N → N.AlikeSignals s s') :
    Parallel M r (signal s) (signal s') :=
  fun N _ _ hN hm => .signalled (.refl N) hm (h N hN)

theorem parallel_exhausted : Parallel M r exhausted exhausted :=
  fun N _ _ _ hm => .exhausted (.refl N) hm

theorem parallel_ask {f : Store → α} {g : Store → β}
    (h : ∀ N σ σ', M.Grows N → N.Likens σ σ' → r N (f σ) (g σ')) :
    Parallel M r (ask f) (ask g) :=
  fun N _ _ hN hm => .done (.refl N) hm (h N _ _ hN hm.store)

theorem parallel_change {f g : Store → Store}
    (h : ∀ N σ σ', M.Grows N → N.Likens σ σ' → N.Likens (f σ) (g σ')) :
    Parallel M Whatever (change f) (change g) :=
  fun N _ _ hN hm => .done (.refl N) (hm.withStore (h N _ _ hN hm.store)) trivial

theorem parallel_add {f : Store → α × Store} {g : Store → β × Store}
    (h : ∀ N σ σ', M.Grows N → N.Likens σ σ' →
      ∃ L, N.Grows L ∧ r L (f σ).1 (g σ').1 ∧ L.Likens (f σ).2 (g σ').2) :
    Parallel M r (add f) (add g) := by
  intro N m m' hN hm
  obtain ⟨L, hL, hresult, hstore⟩ := h N _ _ hN hm.store
  exact .done hL (hm.withStore hstore) hresult

/-! Variables -/

section

variable {scope scope' : FrameId} (hscope : M.frames.pairs scope scope')

include hscope

theorem parallel_resolve (name : Name) :
    Parallel M (fun M => M.frames.pairs) (resolve scope name) (resolve scope' name) := by
  intro N m m' hN hm
  have hframe := hm.store.resolve (hN.frames.kept _ _ hscope) name.text
  unfold resolve
  generalize m.store.resolve scope name.text = frame, m'.store.resolve scope' name.text = frame'
    at hframe
  cases hframe with
  | none => exact .failed (.refl N) hm
  | some hpairs => exact .done (.refl N) hm hpairs

theorem parallel_setLocal (name : Name) {v v' : Value} (hv : M.Alike v v') :
    Parallel M Whatever (setLocal scope name v) (setLocal scope' name v') :=
  parallel_change fun _ _ _ hN hσ =>
    hσ.setLocal (hN.frames.kept _ _ hscope) name.text (hv.mono hN)

theorem parallel_declare (name : Name) {v v' : Value} (hv : M.Alike v v') :
    Parallel M Whatever (declare scope name v) (declare scope' name v') := by
  unfold declare
  refine Parallel.bind (r := fun _ a b => b = a) (parallel_ask fun N σ σ' hN hσ =>
    hσ.hasLocal (hN.frames.kept _ _ hscope) name.text) ?_
  rintro N taken _ hN rfl
  split
  · exact parallel_fail _ _
  · exact (parallel_setLocal hscope name hv).mono hN

theorem parallel_declareThrown (param : Option Name) {v v' : Value} (hv : M.Alike v v') :
    Parallel M Whatever (declareThrown scope param v) (declareThrown scope' param v') := by
  cases param with
  | none => exact parallel_unit
  | some name => exact parallel_declare hscope name hv

/-- The numbers that the function gets go together from now on. -/
theorem parallel_declareFunction (definition : FunctionDef) :
    Parallel M Whatever (declareFunction scope definition) (declareFunction scope' definition) := by
  have hnumber : Parallel M (fun M => M.identities.pairs) (add (·.newIdentity))
      (add (·.newIdentity)) := parallel_add fun N σ σ' _ hσ =>
    ⟨N.withIdentity, N.grows_withIdentity, hσ.nextIdentity, hσ.newIdentity⟩
  refine hnumber.bind fun N i i' hN hi => ?_
  have hhome := hN.frames.kept _ _ hscope
  exact parallel_declare hhome definition.name (.function hi hhome)

theorem parallel_readVariable (name : Name) :
    Parallel M Matching.Alike (readVariable scope name) (readVariable scope' name) := by
  intro N m m' hN hm
  unfold readVariable
  rcases hm.store.read (hN.frames.kept _ _ hscope) name.text with
    ⟨v, v', hread, hread', hv⟩ | ⟨fault, hread, hread'⟩
  · rw [hread, hread']
    dsimp only
    rw [hv.isCallable]
    split
    · exact .failed (.refl N) hm
    · exact .done (.refl N) hm hv
  · rw [hread, hread']
    exact .failed (.refl N) hm

theorem parallel_assigned (name : Name) {v v' : Value} (hv : M.Alike v v') :
    Parallel M Matching.Alike (do setLocal scope name v; pure v)
      (do setLocal scope' name v'; pure v') :=
  (parallel_setLocal hscope name hv).bind fun _ _ _ hN _ => parallel_value (hv.mono hN)

theorem parallel_adjust (name : Name) (step : Step) :
    Parallel M Matching.Alike (adjust scope name step) (adjust scope' name step) := by
  refine (parallel_readVariable hscope name).bind fun N old old' hN hold => ?_
  rw [hold.toInt32]
  refine Parallel.bind (r := Whatever) ?_ fun L _ _ hL _ => parallel_value (hold.mono hL)
  refine (parallel_resolve (hN.frames.kept _ _ hscope) name).bind fun L frame frame' _ hframe => ?_
  exact parallel_setLocal hframe name (.scalar rfl)

end

theorem parallel_bindParameters {frame frame' : FrameId} (params : List Name) :
    ∀ {M : Matching} {arguments arguments' : List Value}, M.frames.pairs frame frame' →
      List.Forall₂ M.Alike arguments arguments' →
      Parallel M Whatever (bindParameters frame params arguments)
        (bindParameters frame' params arguments') := by
  induction params with
  | nil => exact fun _ _ => parallel_unit
  | cons param params ih =>
    intro M arguments arguments' hframe h
    have hfirst : M.Alike (arguments.headD .null) (arguments'.headD .null) := by
      cases h with
      | nil => exact .null
      | cons hv _ => exact hv
    have hrest : List.Forall₂ M.Alike arguments.tail arguments'.tail := by
      cases h with
      | nil => exact .nil
      | cons _ hrest => exact hrest
    refine (parallel_setLocal hframe param hfirst).bind fun N _ _ hN _ => ?_
    exact ih (hN.frames.kept _ _ hframe) (hrest.imp fun _ _ hv => hv.mono hN)

/-! Arrays and structs -/

theorem parallel_newArray {items items' : Array Value}
    (h : List.Forall₂ M.Alike items.toList items'.toList) :
    Parallel M Matching.Alike (newArray items) (newArray items') :=
  parallel_add fun N _ _ hN hσ =>
    ⟨N.withCell, N.grows_withCell, hσ.newArray (h.imp fun _ _ hv => hv.mono hN)⟩

theorem parallel_newStruct {fields fields' : Entries Value} (h : M.AlikeEntries fields fields') :
    Parallel M Matching.Alike (newStruct fields) (newStruct fields') :=
  parallel_add fun N _ _ hN hσ => ⟨N.withCell, N.grows_withCell, hσ.newStruct (h.mono hN)⟩

theorem parallel_newArrayOfSize (size : Int32) (place : Span) :
    Parallel M Matching.Alike (newArrayOfSize size place) (newArrayOfSize size place) := by
  unfold newArrayOfSize
  split
  · exact parallel_fail _ _
  · refine parallel_newArray (List.forall₂_same.mpr fun v hv => ?_)
    rw [Array.toList_replicate] at hv
    obtain rfl := List.eq_of_mem_replicate hv
    exact .null

theorem parallel_position (index : Int32) (length : Nat) (place : Span) :
    Parallel M (fun _ i j => j = i) (position index length place) (position index length place) := by
  unfold position
  split
  · exact parallel_pure fun _ _ => rfl
  · exact parallel_fail _ _

theorem alike_getD {vs vs' : List Value} (h : List.Forall₂ M.Alike vs vs') (i : Nat) :
    M.Alike (vs.getD i .null) (vs'.getD i .null) := by
  induction h generalizing i with
  | nil => exact .null
  | cons hfirst _ ih =>
    cases i with
    | zero => exact hfirst
    | succ i => exact ih i

section

variable {target target' : Value} (htarget : M.Alike target target')

include htarget

theorem parallel_readIndex (index : Int32) (place : Span) :
    Parallel M Matching.Alike (readIndex target index place) (readIndex target' index place) := by
  cases htarget with
  | scalar hv =>
    cases target with
    | string text =>
      refine (parallel_position index text.length place).bind ?_
      rintro N i _ hN rfl
      refine parallel_value (.scalar ?_)
      split <;> rfl
    | array | struct | function | native => exact absurd hv (by simp [Value.isScalar])
    | _ => exact parallel_fail _ _
  | array hcell =>
    refine Parallel.bind (r := fun M items items' => List.Forall₂ M.Alike items.toList items'.toList)
      (parallel_ask fun N σ σ' hN hσ => hσ.items (hN.cells.kept _ _ hcell)) ?_
    intro N items items' hN hitems
    have hsize : items'.size = items.size := hitems.length_eq.symm
    rw [hsize]
    refine (parallel_position index items.size place).bind ?_
    rintro L _ i hL rfl
    refine parallel_value ?_
    have hitem := (alike_getD hitems i).mono hL
    rwa [List.getD_eq_getElem?_getD, List.getD_eq_getElem?_getD, Array.getElem?_toList,
      Array.getElem?_toList, ← Array.getD_eq_getD_getElem?, ← Array.getD_eq_getD_getElem?] at hitem
  | struct | function | native => exact parallel_fail _ _

theorem parallel_writeIndex (index : Int32) {v v' : Value} (hv : M.Alike v v') (place : Span) :
    Parallel M Matching.Alike (writeIndex target index v place)
      (writeIndex target' index v' place) := by
  cases htarget with
  | @array cell cell' hcell =>
    refine Parallel.bind (r := fun _ a b => b = a) (parallel_ask fun N σ σ' hN hσ =>
      (hσ.items (hN.cells.kept _ _ hcell)).length_eq.symm) ?_
    rintro N _ size hN rfl
    refine (parallel_position index size place).bind ?_
    rintro L _ i hL rfl
    have hgrows := hN.trans hL
    refine Parallel.bind (r := Whatever) (parallel_change fun N' σ σ' hN' hσ => ?_)
      fun N' _ _ hN' _ => parallel_value (hv.mono (hgrows.trans hN'))
    exact hσ.setItem ((hgrows.trans hN').cells.kept _ _ hcell) i (hv.mono (hgrows.trans hN'))
  | scalar hscalar =>
    cases target with
    | array | struct | function | native => exact absurd hscalar (by simp [Value.isScalar])
    | _ => exact parallel_fail _ _
  | struct | function | native => exact parallel_fail _ _

theorem parallel_readMember (member : Name) (place : Span) :
    Parallel M Matching.Alike (readMember target member place)
      (readMember target' member place) := by
  cases htarget with
  | struct hcell =>
    refine Parallel.bind (r := fun M => Option.Rel M.Alike) (parallel_ask fun N σ σ' hN hσ =>
      (hσ.fields (hN.cells.kept _ _ hcell)).get? member.text) ?_
    intro N found found' hN hfound
    cases hfound with
    | none => exact parallel_fail _ _
    | some hv => exact parallel_value hv
  | scalar hscalar =>
    cases target with
    | array | struct | function | native => exact absurd hscalar (by simp [Value.isScalar])
    | _ => exact parallel_fail _ _
  | array | function | native => exact parallel_fail _ _

theorem parallel_writeMember (member : Name) {v v' : Value} (hv : M.Alike v v') (place : Span) :
    Parallel M Matching.Alike (writeMember target member v place)
      (writeMember target' member v' place) := by
  cases htarget with
  | struct hcell =>
    refine Parallel.bind (r := fun _ a b => b = a) (parallel_ask fun N σ σ' hN hσ =>
      (hσ.fields (hN.cells.kept _ _ hcell)).has member.text) ?_
    rintro N _ found hN rfl
    split
    · refine Parallel.bind (r := Whatever) (parallel_change fun L σ σ' hL hσ => ?_)
        fun L _ _ hL _ => parallel_value (hv.mono (hN.trans hL))
      exact hσ.setField ((hN.trans hL).cells.kept _ _ hcell) member.text (hv.mono (hN.trans hL))
    · exact parallel_fail _ _
  | scalar hscalar =>
    cases target with
    | array | struct | function | native => exact absurd hscalar (by simp [Value.isScalar])
    | _ => exact parallel_fail _ _
  | array | function | native => exact parallel_fail _ _

end

theorem parallel_applyBinary (op : BinaryOp) {a a' b b' : Value} (ha : M.Alike a a')
    (hb : M.Alike b b') (place : Span) :
    Parallel M Matching.Alike (applyBinary op a b place) (applyBinary op a' b' place) := by
  intro N m m' hN hm
  unfold applyBinary
  rw [hm.store.binary op (ha.mono hN) (hb.mono hN)]
  cases hv : op.apply m.store a b with
  | error fault => exact .failed (.refl N) hm
  | ok v => exact .done (.refl N) hm (.scalar (BinaryOp.isScalar_apply hv))

/-! Calls -/

theorem alike_fit {vs vs' : List Value} (h : List.Forall₂ M.Alike vs vs') (f : Native) :
    List.Forall₂ M.Alike (f.fit vs) (f.fit vs') := by
  unfold Native.fit
  rw [h.length_eq]
  refine List.rel_append (List.forall₂_take _ h) (List.forall₂_same.mpr fun v hv => ?_)
  obtain rfl := List.eq_of_mem_replicate hv
  exact .null

/-- Both natives give back values that are alike, or both fail for the same reason. -/
inductive MeetsHost (M : Matching) : Except HostFault Value × Machine →
    Except HostFault Value × Machine → Prop where
  | ok {N : Matching} {v v' : Value} {m m' : Machine} (hN : M.Grows N) (hm : N.Machines m m')
      (hv : N.Alike v v') : MeetsHost M (.ok v, m) (.ok v', m')
  | error {fault : HostFault} {m m' : Machine} (hm : M.Machines m m') :
      MeetsHost M (.error fault, m) (.error fault, m')

theorem meets_scalar {m m' : Machine} (hm : M.Machines m m') {result : Except HostFault Value}
    (hscalar : ∀ v, result = .ok v → v.isScalar) : MeetsHost M (result, m) (result, m') := by
  cases result with
  | ok v => exact .ok (.refl M) hm (.scalar (hscalar v rfl))
  | error fault => exact .error hm

theorem isScalar_of_map {γ : Type} {result : Except HostFault γ} {f : γ → Value}
    (hf : ∀ c, (f c).isScalar) : ∀ v, result.map f = .ok v → v.isScalar := by
  intro v hv
  cases result with
  | ok c =>
    obtain rfl := Except.ok.inj hv
    exact hf c
  | error fault => exact absurd hv (by simp [Except.map])

theorem alike_strings (names : List String) :
    List.Forall₂ M.Alike (names.map Value.string).toArray.toList
      (names.map Value.string).toArray.toList := by
  refine List.forall₂_same.mpr fun v hv => ?_
  obtain ⟨name, -, rfl⟩ := List.mem_map.mp hv
  exact .scalar rfl

theorem countP_alike {vs vs' : List Value} (h : List.Forall₂ M.Alike vs vs') :
    (vs'.countP fun v => !v.isNull) = vs.countP fun v => !v.isNull := by
  induction h with
  | nil => rfl
  | cons hv _ ih => rw [List.countP_cons, List.countP_cons, hv.isNull, ih]

/-- A native does the same, and what it makes goes together. -/
theorem meets_run {m m' : Machine} (hm : M.Machines m m') (action : NativeAction)
    {vs vs' : List Value} (h : List.Forall₂ M.Alike vs vs') :
    MeetsHost M (action.run vs m) (action.run vs' m') := by
  have hfirst := alike_getD h 0
  have hsecond := alike_getD h 1
  cases action with
  | print =>
    simp only [NativeAction.run, Machine.print, hm.store.text hfirst, hm.console]
    refine meets_scalar ?_ (isScalar_of_map (f := fun _ => .null) fun _ => rfl)
    exact ⟨hm.store, rfl, hm.files, hm.depth⟩
  | read =>
    simp only [NativeAction.run, Machine.readLine, hm.console]
    refine meets_scalar ?_ (isScalar_of_map fun line => ?_)
    · exact ⟨hm.store, rfl, hm.files, hm.depth⟩
    · cases line <;> rfl
  | readFile =>
    simp only [NativeAction.run, Machine.readFile, hm.store.path hfirst, hm.files]
    cases (vs.getD 0 .null).path m.store with
    | error fault => exact .error hm
    | ok path => exact meets_scalar hm (isScalar_of_map (f := Value.string) fun _ => rfl)
  | writeFile =>
    simp only [NativeAction.run, Machine.writeFile, hm.store.path hfirst, hm.store.text hsecond,
      hsecond.isNull, hm.files]
    cases (vs.getD 0 .null).path m.store with
    | error fault => exact .error hm
    | ok path =>
      dsimp only
      split
      · exact .error hm
      · cases m.files.write path ((vs.getD 1 .null).text m.store) with
        | error fault => exact .error hm
        | ok files => exact .ok (.refl M) ⟨hm.store, hm.console, rfl, hm.depth⟩ .null
  | length =>
    simp only [NativeAction.run, hm.store.length? hfirst]
    refine .ok (.refl M) hm (.scalar ?_)
    cases (vs.getD 0 .null).length? m.store <;> rfl
  | keys =>
    simp only [NativeAction.run]
    generalize vs.getD 0 .null = v, vs'.getD 0 .null = v' at hfirst
    cases hfirst with
    | @struct cell cell' hcell =>
      obtain ⟨hresult, hstore⟩ := hm.store.newArray (alike_strings (m.store.fields cell).names)
      simp only [Machine.keys, (hm.store.fields hcell).names]
      exact .ok M.grows_withCell (hm.withStore hstore) hresult
    | scalar hv =>
      cases v with
      | struct => exact absurd hv (by simp [Value.isScalar])
      | _ => exact .ok (.refl M) hm .null
    | _ => exact .ok (.refl M) hm .null
  | typeOf =>
    simp only [NativeAction.run, hfirst.typeName]
    exact .ok (.refl M) hm (.scalar rfl)
  | gather =>
    have hitems : List.Forall₂ M.Alike vs.toArray.toList vs'.toArray.toList := h
    obtain ⟨hresult, hstore⟩ := hm.store.newArray hitems
    exact .ok M.grows_withCell (hm.withStore hstore) hresult
  | count =>
    simp only [NativeAction.run, countP_alike h]
    exact .ok (.refl M) hm (.scalar rfl)
  | fail message => exact .error hm
  | failIo message => exact .error hm

theorem parallel_callNative {i i' : Nat} {name : String} {params : List String}
    {action : NativeAction} {vs vs' : List Value} (h : List.Forall₂ M.Alike vs vs') (place : Span) :
    Parallel M Matching.Alike (callNative ⟨i, name, params, action⟩ vs place)
      (callNative ⟨i', name, params, action⟩ vs' place) := by
  intro N m m' hN hm
  have hrun := meets_run hm action (alike_fit (h.imp fun _ _ hv => hv.mono hN) ⟨i, name, params, action⟩)
  have hfit : Native.fit ⟨i', name, params, action⟩ vs' = Native.fit ⟨i, name, params, action⟩ vs' := rfl
  unfold callNative Native.call
  dsimp only
  rw [hfit]
  generalize action.run _ m = first, action.run _ m' = second at hrun
  cases hrun with
  | ok hL hn hv => exact .done hL hn hv
  | error hn => exact .failed (.refl N) hn

theorem parallel_checkCall (limit : Nat) {i i' : Nat} {definition : FunctionDef}
    {home home' : FrameId} (hhome : M.frames.pairs home home') (place : Span) :
    Parallel M Whatever (checkCall limit ⟨i, definition, home⟩ place)
      (checkCall limit ⟨i', definition, home'⟩ place) := by
  intro N m m' hN hm
  unfold checkCall
  dsimp only
  rw [hm.depth, hm.store.isAlive (hN.frames.kept _ _ hhome)]
  split
  · exact .failed (.refl N) hm
  · split
    · exact .done (.refl N) hm trivial
    · exact .failed (.refl N) hm

theorem parallel_asCall (place : Span) {body body' : Eval Unit} (h : Parallel M Whatever body body') :
    Parallel M Matching.Alike (asCall place body) (asCall place body') := by
  intro N m m' hN hm
  have hbody := h N { m with depth := m.depth + 1 } { m' with depth := m'.depth + 1 } hN
    ⟨hm.store, hm.console, hm.files, congrArg (· + 1) hm.depth⟩
  have hback : ∀ {L : Matching} {n n'}, L.Machines n n' → L.Machines { n with depth := n.depth - 1 }
      { n' with depth := n'.depth - 1 } :=
    fun hn => ⟨hn.store, hn.console, hn.files, congrArg (· - 1) hn.depth⟩
  unfold asCall
  generalize body { m with depth := m.depth + 1 } = first,
    body' { m' with depth := m'.depth + 1 } = second at hbody
  cases hbody with
  | done hL hn => exact .done hL (hback hn) .null
  | signalled hL hn hs =>
    cases hs with
    | jump => exact .failed hL (hback hn)
    | @transfer kind v v' at_ hv =>
      cases kind with
      | «return» => exact .done hL (hback hn) hv
      | exit => exact .signalled hL (hback hn) (.transfer hv)
      | throw => exact .signalled hL (hback hn) (.transfer hv)
  | failed hL hn => exact .failed hL (hback hn)
  | exhausted hL hn => exact .exhausted hL (hback hn)

/-! Statements around statements -/

theorem parallel_inChild {parent parent' : FrameId} (hparent : M.frames.pairs parent parent')
    {body : FrameId → Eval α} {body' : FrameId → Eval β}
    (h : ∀ N frame frame', M.Grows N → N.frames.pairs frame frame' →
      Parallel N r (body frame) (body' frame')) :
    Parallel M r (inChild parent body) (inChild parent' body') := by
  intro N m m' hN hm
  have hgrows := N.grows_withFrame
  have hnext := hm.store.nextFrame
  have hbelow : N.withFrame.Machines (m.below parent) (m'.below parent') :=
    hm.withStore (hm.store.newChild (hN.frames.kept _ _ hparent))
  have hbody := h N.withFrame _ _ (hN.trans hgrows) hnext _ _ _ (.refl _) hbelow
  have hdrop : ∀ {L : Matching} {n n'}, N.withFrame.Grows L → L.Machines n n' →
      L.Machines { n with store := n.store.dropFrame m.store.frames.size }
        { n' with store := n'.store.dropFrame m'.store.frames.size } :=
    fun hL hn => hn.withStore (hn.store.dropFrame (hL.frames.kept _ _ hnext))
  change N.Meets r ((body m.store.frames.size (m.below parent)).mapMachine _)
    ((body' m'.store.frames.size (m'.below parent')).mapMachine _)
  generalize body m.store.frames.size (m.below parent) = first,
    body' m'.store.frames.size (m'.below parent') = second at hbody
  cases hbody with
  | done hL hn ha => exact .done (hgrows.trans hL) (hdrop hL hn) ha
  | signalled hL hn hs => exact .signalled (hgrows.trans hL) (hdrop hL hn) hs
  | failed hL hn => exact .failed (hgrows.trans hL) (hdrop hL hn)
  | exhausted hL hn => exact .exhausted (hgrows.trans hL) (hdrop hL hn)

theorem parallel_catching {body body' : Eval Unit} {handler handler' : Value → Eval Unit}
    (h : Parallel M Whatever body body')
    (hhandler : ∀ N v v', M.Grows N → N.Alike v v' →
      Parallel N Whatever (handler v) (handler' v')) :
    Parallel M Whatever (catching body handler) (catching body' handler') := by
  intro N m m' hN hm
  have hbody := h N m m' hN hm
  unfold catching
  generalize body m = first, body' m' = second at hbody
  cases hbody with
  | done hL hn => exact .done hL hn trivial
  | signalled hL hn hs =>
    cases hs with
    | jump => exact .signalled hL hn .jump
    | @transfer kind v v' at_ hv =>
      cases kind with
      | throw => exact (hhandler _ v v' (hN.trans hL) hv _ _ _ (.refl _) hn).of_grows hL
      | «return» => exact .signalled hL hn (.transfer hv)
      | exit => exact .signalled hL hn (.transfer hv)
  | failed hL hn => exact .failed hL hn
  | exhausted hL hn => exact .exhausted hL hn

theorem parallel_repeating {body body' again again' : Eval Unit}
    (h : Parallel M Whatever body body') (hagain : Parallel M Whatever again again') :
    Parallel M Whatever (repeating body again) (repeating body' again') := by
  intro N m m' hN hm
  have hbody := h N m m' hN hm
  unfold repeating
  generalize body m = first, body' m' = second at hbody
  cases hbody with
  | done hL hn => exact (hagain _ _ _ (hN.trans hL) hn).of_grows hL
  | signalled hL hn hs =>
    cases hs with
    | @jump j =>
      cases j with
      | «continue» => exact (hagain _ _ _ (hN.trans hL) hn).of_grows hL
      | «break» => exact .done hL hn trivial
    | transfer hv => exact .signalled hL hn (.transfer hv)
  | failed hL hn => exact .failed hL hn
  | exhausted hL hn => exact .exhausted hL hn

/-! Evaluations -/

section

variable {limit fuel : Nat}

/-- With so much fuel evaluations of the same code come to the same. -/
structure Parallels (limit fuel : Nat) : Prop where
  expr : ∀ {M : Matching} {scope scope' : FrameId} e, M.frames.pairs scope scope' →
    Parallel M Matching.Alike (expr limit fuel scope e) (expr limit fuel scope' e)
  exprs : ∀ {M : Matching} {scope scope' : FrameId} es, M.frames.pairs scope scope' →
    Parallel M (fun M => List.Forall₂ M.Alike) (exprs limit fuel scope es)
      (exprs limit fuel scope' es)
  fieldValues : ∀ {M : Matching} {scope scope' : FrameId} {entries entries'} fields,
    M.frames.pairs scope scope' → M.AlikeEntries entries entries' →
    Parallel M Matching.AlikeEntries (fieldValues limit fuel scope entries fields)
      (fieldValues limit fuel scope' entries' fields)
  call : ∀ {M : Matching} {i i' definition home home' vs vs'} place,
    M.frames.pairs home home' → List.Forall₂ M.Alike vs vs' →
    Parallel M Matching.Alike (call limit fuel ⟨i, definition, home⟩ vs place)
      (call limit fuel ⟨i', definition, home'⟩ vs' place)
  stmt : ∀ {M : Matching} {scope scope' : FrameId} s, M.frames.pairs scope scope' →
    Parallel M Whatever (stmt limit fuel scope s) (stmt limit fuel scope' s)
  optional : ∀ {M : Matching} {scope scope' : FrameId} value, M.frames.pairs scope scope' →
    Parallel M Matching.Alike (optional limit fuel scope value) (optional limit fuel scope' value)
  stmts : ∀ {M : Matching} {scope scope' : FrameId} body, M.frames.pairs scope scope' →
    Parallel M Whatever (stmts limit fuel scope body) (stmts limit fuel scope' body)
  loop : ∀ {M : Matching} {scope scope' : FrameId} condition body, M.frames.pairs scope scope' →
    Parallel M Whatever (loop limit fuel scope condition body)
      (loop limit fuel scope' condition body)

theorem parallel_callee (ih : Parallels limit fuel) {frame frame' : FrameId}
    (hframe : M.frames.pairs frame frame') (callee : Name) {vs vs' : List Value}
    (hvs : List.Forall₂ M.Alike vs vs') (place : Span) :
    Parallel M Matching.Alike
      (do match ← ask fun σ => (σ.getLocal? frame callee.text).getD .null with
          | .function f => call limit fuel f vs place
          | .native f => callNative f vs place
          | other => fail (.mismatch .function other.typeName) callee.span)
      (do match ← ask fun σ => (σ.getLocal? frame' callee.text).getD .null with
          | .function f => call limit fuel f vs' place
          | .native f => callNative f vs' place
          | other => fail (.mismatch .function other.typeName) callee.span) := by
  refine Parallel.bind (r := Matching.Alike) (parallel_ask fun N σ σ' hN hσ => ?_) ?_
  · have hfound := hσ.getLocal? (hN.frames.kept _ _ hframe) callee.text
    generalize σ.getLocal? frame callee.text = found, σ'.getLocal? frame' callee.text = found'
      at hfound
    cases hfound with
    | none => exact .null
    | some hv => exact hv
  · intro N v v' hN hv
    have hvs' : List.Forall₂ N.Alike vs vs' := hvs.imp fun _ _ h => h.mono hN
    cases hv with
    | function hidentity hhome => exact ih.call place hhome hvs'
    | native hidentity => exact parallel_callNative hvs' place
    | scalar hscalar =>
      cases v with
      | array | struct | function | native => exact absurd hscalar (by simp [Value.isScalar])
      | _ => exact parallel_fail _ _
    | _ => exact parallel_fail _ _

theorem parallel_expr (ih : Parallels limit fuel) {scope scope' : FrameId} (e : Expr)
    (hscope : M.frames.pairs scope scope') : Parallel M Matching.Alike
      (expr limit (fuel + 1) scope e) (expr limit (fuel + 1) scope' e) := by
  unfold expr
  cases e with
  | literal value _ => exact parallel_value (.scalar value.isScalar_toValue)
  | «variable» name => exact parallel_readVariable hscope name
  | assign target value _ =>
    refine (parallel_resolve hscope target).bind fun N frame frame' hN hframe => ?_
    refine (ih.expr value (hN.frames.kept _ _ hscope)).bind fun L v v' hL hv => ?_
    exact parallel_assigned (hL.frames.kept _ _ hframe) target hv
  | adjust target step _ => exact parallel_adjust hscope target step
  | array items _ => exact (ih.exprs items hscope).bind fun N vs vs' _ hvs => parallel_newArray hvs
  | arrayOfSize size place =>
    refine (ih.expr size hscope).bind fun N v v' _ hv => ?_
    rw [hv.toInt32]
    exact parallel_newArrayOfSize v.toInt32 place
  | struct fields _ =>
    exact (ih.fieldValues fields hscope .nil).bind fun N _ _ _ hentries => parallel_newStruct hentries
  | index target index place =>
    refine (ih.expr target hscope).bind fun N t t' hN ht => ?_
    refine (ih.expr index (hN.frames.kept _ _ hscope)).bind fun L i i' hL hi => ?_
    rw [hi.toInt32]
    exact parallel_readIndex (ht.mono hL) i.toInt32 place
  | assignIndex target index value place =>
    refine (ih.expr target hscope).bind fun N t t' hN ht => ?_
    refine (ih.expr index (hN.frames.kept _ _ hscope)).bind fun L i i' hL hi => ?_
    refine (ih.expr value ((hN.trans hL).frames.kept _ _ hscope)).bind fun L' v v' hL' hv => ?_
    rw [hi.toInt32]
    exact parallel_writeIndex (ht.mono (hL.trans hL')) i.toInt32 hv place
  | member target member place =>
    exact (ih.expr target hscope).bind fun N t t' _ ht => parallel_readMember ht member place
  | assignMember target member value place =>
    refine (ih.expr target hscope).bind fun N t t' hN ht => ?_
    refine (ih.expr value (hN.frames.kept _ _ hscope)).bind fun L v v' hL hv => ?_
    exact parallel_writeMember (ht.mono hL) member hv place
  | binary op left right place =>
    refine (ih.expr left hscope).bind fun N a a' hN ha => ?_
    refine (ih.expr right (hN.frames.kept _ _ hscope)).bind fun L b b' hL hb => ?_
    exact parallel_applyBinary op (ha.mono hL) hb place
  | unary op operand _ =>
    refine (ih.expr operand hscope).bind fun N v v' _ hv => ?_
    rw [hv.unary]
    exact parallel_value (.scalar (op.isScalar_apply v))
  | call callee arguments place =>
    refine (parallel_resolve hscope callee).bind fun N frame frame' hN hframe => ?_
    refine (ih.exprs arguments (hN.frames.kept _ _ hscope)).bind fun L vs vs' hL hvs => ?_
    exact parallel_callee ih (hL.frames.kept _ _ hframe) callee hvs place
  | paren inner _ => exact ih.expr inner hscope

theorem parallel_exprs (ih : Parallels limit fuel) {scope scope' : FrameId} (es : List Expr)
    (hscope : M.frames.pairs scope scope') : Parallel M (fun M => List.Forall₂ M.Alike)
      (exprs limit (fuel + 1) scope es) (exprs limit (fuel + 1) scope' es) := by
  cases es with
  | nil => exact parallel_pure fun _ _ => .nil
  | cons e rest =>
    refine (ih.expr e hscope).bind fun N v v' hN hv => ?_
    refine (ih.exprs rest (hN.frames.kept _ _ hscope)).bind fun L vs vs' hL hvs => ?_
    exact parallel_pure fun L' hL' =>
      .cons (hv.mono (hL.trans hL')) (hvs.imp fun _ _ hw => hw.mono hL')

theorem parallel_fieldValues (ih : Parallels limit fuel) {scope scope' : FrameId}
    {entries entries' : Entries Value} (fields : List (Name × Expr))
    (hscope : M.frames.pairs scope scope') (hentries : M.AlikeEntries entries entries') :
    Parallel M Matching.AlikeEntries (fieldValues limit (fuel + 1) scope entries fields)
      (fieldValues limit (fuel + 1) scope' entries' fields) := by
  cases fields with
  | nil => exact parallel_pure fun _ hN => hentries.mono hN
  | cons field rest =>
    obtain ⟨name, e⟩ := field
    refine (ih.expr e hscope).bind fun N v v' hN hv => ?_
    exact ih.fieldValues rest (hN.frames.kept _ _ hscope) ((hentries.mono hN).put name.text hv)

theorem parallel_call (ih : Parallels limit fuel) {i i' : Nat} {definition : FunctionDef}
    {home home' : FrameId} {vs vs' : List Value} (place : Span) (hhome : M.frames.pairs home home')
    (hvs : List.Forall₂ M.Alike vs vs') : Parallel M Matching.Alike
      (call limit (fuel + 1) ⟨i, definition, home⟩ vs place)
      (call limit (fuel + 1) ⟨i', definition, home'⟩ vs' place) := by
  unfold call
  refine (parallel_checkCall limit hhome place).bind fun N _ _ hN _ => ?_
  refine parallel_inChild (hN.frames.kept _ _ hhome) fun L frame frame' hL hframe => ?_
  have hvs' : List.Forall₂ L.Alike vs vs' := hvs.imp fun _ _ hv => hv.mono (hN.trans hL)
  refine (parallel_bindParameters definition.params hframe hvs').bind fun L' _ _ hL' _ => ?_
  exact parallel_asCall place (ih.stmts definition.body (hL'.frames.kept _ _ hframe))

theorem parallel_optional (ih : Parallels limit fuel) {scope scope' : FrameId} (value : Option Expr)
    (hscope : M.frames.pairs scope scope') : Parallel M Matching.Alike
      (optional limit (fuel + 1) scope value) (optional limit (fuel + 1) scope' value) := by
  cases value with
  | none => exact parallel_value .null
  | some e => exact ih.expr e hscope

theorem Parallels.block (ih : Parallels limit fuel) {scope scope' : FrameId}
    (hscope : M.frames.pairs scope scope') (body : List Stmt) : Parallel M Whatever
      (inChild scope fun frame => Eval.stmts limit fuel frame body)
      (inChild scope' fun frame => Eval.stmts limit fuel frame body) :=
  parallel_inChild hscope fun _ _ _ _ hframe => ih.stmts body hframe

theorem parallel_stmt (ih : Parallels limit fuel) {scope scope' : FrameId} (s : Stmt)
    (hscope : M.frames.pairs scope scope') : Parallel M Whatever
      (stmt limit (fuel + 1) scope s) (stmt limit (fuel + 1) scope' s) := by
  unfold stmt
  cases s with
  | declare name init _ =>
    refine (ih.optional init hscope).bind fun N v v' hN hv => ?_
    exact parallel_declare (hN.frames.kept _ _ hscope) name hv
  | function name params body span => exact parallel_declareFunction hscope _
  | block body _ => exact ih.block hscope body
  | branch condition thenBranch elseBranch _ =>
    refine (ih.expr condition hscope).bind fun N v v' hN hv => ?_
    have hscope' := hN.frames.kept _ _ hscope
    rw [hv.truth]
    split
    · exact ih.stmt thenBranch hscope'
    · cases elseBranch with
      | none => exact parallel_unit
      | some other => exact ih.stmt other hscope'
  | loop condition body _ => exact ih.loop condition body hscope
  | jump j place => exact parallel_signal fun _ _ => .jump
  | transfer kind value place =>
    refine (ih.optional value hscope).bind fun N v v' _ hv => ?_
    exact parallel_signal fun _ hL => .transfer (hv.mono hL)
  | attempt body _ param handler _ _ =>
    refine parallel_catching (ih.block hscope body) fun N v v' hN hv => ?_
    refine parallel_inChild (hN.frames.kept _ _ hscope) fun L frame frame' hL hframe => ?_
    refine (parallel_declareThrown hframe param (hv.mono hL)).bind fun L' _ _ hL' _ => ?_
    exact ih.stmts handler (hL'.frames.kept _ _ hframe)
  | expression e _ => exact (ih.expr e hscope).bind fun _ _ _ _ _ => parallel_unit
  | empty _ => exact parallel_unit

theorem parallel_stmts (ih : Parallels limit fuel) {scope scope' : FrameId} (body : List Stmt)
    (hscope : M.frames.pairs scope scope') : Parallel M Whatever
      (stmts limit (fuel + 1) scope body) (stmts limit (fuel + 1) scope' body) := by
  cases body with
  | nil => exact parallel_unit
  | cons s rest =>
    refine (ih.stmt s hscope).bind fun N _ _ hN _ => ?_
    exact ih.stmts rest (hN.frames.kept _ _ hscope)

theorem parallel_loop (ih : Parallels limit fuel) {scope scope' : FrameId} (condition : Expr)
    (body : Stmt) (hscope : M.frames.pairs scope scope') : Parallel M Whatever
      (loop limit (fuel + 1) scope condition body) (loop limit (fuel + 1) scope' condition body) := by
  unfold loop
  refine (ih.expr condition hscope).bind fun N v v' hN hv => ?_
  have hscope' := hN.frames.kept _ _ hscope
  rw [hv.truth]
  split
  · exact parallel_repeating (ih.stmt body hscope') (ih.loop condition body hscope')
  · exact parallel_unit

theorem parallels (limit fuel : Nat) : Parallels limit fuel := by
  induction fuel with
  | zero =>
    exact {
      expr := fun _ _ => parallel_exhausted
      exprs := fun _ _ => parallel_exhausted
      fieldValues := fun _ _ _ => parallel_exhausted
      call := fun _ _ _ => parallel_exhausted
      stmt := fun _ _ => parallel_exhausted
      optional := fun _ _ => parallel_exhausted
      stmts := fun _ _ => parallel_exhausted
      loop := fun _ _ _ => parallel_exhausted
    }
  | succ fuel ih =>
    exact {
      expr := parallel_expr ih
      exprs := parallel_exprs ih
      fieldValues := parallel_fieldValues ih
      call := parallel_call ih
      stmt := parallel_stmt ih
      optional := parallel_optional ih
      stmts := parallel_stmts ih
      loop := parallel_loop ih
    }

theorem parallel_script (limit fuel : Nat) (body : List Stmt) :
    ∀ {M : Matching} {scope scope' : FrameId} {last last' : Value}, M.frames.pairs scope scope' →
      M.Alike last last' → Parallel M Matching.Alike (script limit fuel scope last body)
        (script limit fuel scope' last' body) := by
  have hall := parallels limit fuel
  induction body with
  | nil => exact fun _ hlast => parallel_value hlast
  | cons s rest ih =>
    intro M scope scope' last last' hscope _
    cases s with
    | expression e _ =>
      exact (hall.expr e hscope).bind fun N v v' hN hv => ih (hN.frames.kept _ _ hscope) hv
    | _ => exact (hall.stmt _ hscope).bind fun N _ _ hN _ => ih (hN.frames.kept _ _ hscope) .null

end

end Eval

end ScriptEngine
