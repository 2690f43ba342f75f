import ScriptEngine.Proofs.Running.FailedCalls
import ScriptEngine.Proofs.Running.Image

/-!
Runs under other numbers. On machines that differ in the numbers of frames and callables and in the
places of code, evaluations do the same step by step: they end in the same way, with the same output,
and leave machines that differ in this way again. The second run may have more fuel; where the first one
is out of fuel nothing is said then.
-/
namespace ScriptEngine

namespace Renaming

variable {ρ : Renaming}

/-- The second machine is the first one with other numbers. -/
structure Twins (ρ : Renaming) (m m' : Machine) : Prop where
  store : ρ.Image m.store m'.store
  console : m'.console = m.console
  files : m'.files = m.files
  depth : m'.depth = m.depth

/-- The second outcome is the first one with other numbers. When the first run is out of fuel and the
second one had so much more, it can be any. -/
inductive Mirrored {α β : Type} (ρ : Renaming) (slack : Nat) (r : α → β) :
    Outcome α → Outcome β → Prop where
  | done {a m m'} (h : ρ.Twins m m') : Mirrored ρ slack r (.done a m) (.done (r a) m')
  | signalled {s m m'} (h : ρ.Twins m m') :
      Mirrored ρ slack r (.signalled s m) (.signalled (ρ.signal s) m')
  | failed {fault place m m'} (h : ρ.Twins m m') :
      Mirrored ρ slack r (.failed fault place m) (.failed fault (ρ.place place) m')
  | exhausted {m m'} (h : ρ.Twins m m') : Mirrored ρ slack r (.exhausted m) (.exhausted m')
  | unknown {m outcome} (hslack : slack ≠ 0) : Mirrored ρ slack r (.exhausted m) outcome

theorem Mirrored.loosen {α β : Type} {ρ : Renaming} {slack slack' : Nat} {r : α → β}
    {outcome : Outcome α} {outcome' : Outcome β} (h : ρ.Mirrored slack r outcome outcome')
    (hslack : slack' ≠ 0) : ρ.Mirrored slack' r outcome outcome' := by
  cases h with
  | done htwins => exact .done htwins
  | signalled htwins => exact .signalled htwins
  | failed htwins => exact .failed htwins
  | exhausted htwins => exact .exhausted htwins
  | unknown => exact .unknown hslack

/-- What is said of moments: it is said of all moments inside, and the functions that are called have
the counterparts of their homes for homes. -/
structure Suits (ρ : Renaming) (limit : Nat) (At : Moment → Prop) : Prop where
  inward : Moment.Inward limit At
  home : ∀ f arguments place m, At ⟨.call f arguments place, m⟩ → ρ.home f = ρ.frame f.home

theorem suits_all (hkept : ρ.kept = 0) (limit : Nat) : ρ.Suits limit fun _ => True := by
  refine ⟨fun _ _ _ _ => trivial, fun f _ _ _ _ => if_neg ?_⟩
  rw [hkept]
  exact Nat.not_lt_zero _

theorem Twins.withStore {m m' : Machine} (h : ρ.Twins m m') {σ σ' : Store} (hstore : ρ.Image σ σ') :
    ρ.Twins { m with store := σ } { m' with store := σ' } :=
  ⟨hstore, h.console, h.files, h.depth⟩

theorem Twins.below {m m' : Machine} (h : ρ.Twins m m') (parent : FrameId) :
    ρ.Twins (m.below parent) (m'.below (ρ.frame parent)) :=
  h.withStore (h.store.newChild parent)

end Renaming

namespace Eval

variable {α β γ δ : Type} {ρ : Renaming} {slack : Nat} {m : Machine}

/-- From a machine under other numbers the second evaluation does what the first does here. -/
def Mirrors (ρ : Renaming) (slack : Nat) (r : α → β) (x : Eval α) (y : Eval β) (m : Machine) : Prop :=
  ∀ m', ρ.Twins m m' → ρ.Mirrored slack r (x m) (y m')

theorem Mirrors.bind {r : α → β} {r' : γ → δ} {x : Eval α} {y : Eval β} {f : α → Eval γ}
    {g : β → Eval δ} (h : Mirrors ρ slack r x y m)
    (hf : ∀ a n, x m = .done a n → Mirrors ρ slack r' (f a) (g (r a)) n) :
    Mirrors ρ slack r' (x >>= f) (y >>= g) m := by
  intro m' hm
  have hx := h m' hm
  rw [bind_apply, bind_apply]
  generalize hfirst : x m = first, y m' = second at hx
  cases hx with
  | done htwins => exact hf _ _ hfirst _ htwins
  | signalled htwins => exact .signalled htwins
  | failed htwins => exact .failed htwins
  | exhausted htwins => exact .exhausted htwins
  | unknown hslack => exact .unknown hslack

theorem mirrors_pure {r : α → β} {a : α} {b : β} (h : b = r a) :
    Mirrors ρ slack r (Pure.pure a) (Pure.pure b) m := by
  subst h
  exact fun _ hm => .done hm

theorem mirrors_fail (r : α → β) (fault : RuntimeFault) (place : Span) :
    Mirrors ρ slack r (fail fault place) (fail fault (ρ.place place)) m :=
  fun _ hm => .failed hm

theorem mirrors_signal (r : α → β) (s : Signal) :
    Mirrors ρ slack r (signal s) (signal (ρ.signal s)) m :=
  fun _ hm => .signalled hm

/-- The answer on the other side has the other numbers. -/
theorem mirrors_ask {c : α → β} {r : γ → δ} {f : Store → α} {g : Store → β} {k : α → Eval γ}
    {k' : β → Eval δ} (hanswer : ∀ σ', ρ.Image m.store σ' → g σ' = c (f m.store))
    (h : Mirrors ρ slack r (k (f m.store)) (k' (c (f m.store))) m) :
    Mirrors ρ slack r (ask f >>= k) (ask g >>= k') m := by
  intro m' hm
  change ρ.Mirrored slack r (k (f m.store) m) (k' (g m'.store) m')
  rw [hanswer m'.store hm.store]
  exact h m' hm

theorem mirrors_change {f g : Store → Store}
    (h : ∀ σ', ρ.Image m.store σ' → ρ.Image (f m.store) (g σ')) :
    Mirrors ρ slack id (change f) (change g) m :=
  fun m' hm => .done (hm.withStore (h m'.store hm.store))

theorem mirrors_add {r : α → β} {f : Store → α × Store} {g : Store → β × Store}
    (h : ∀ σ', ρ.Image m.store σ' → (g σ').1 = r (f m.store).1 ∧ ρ.Image (f m.store).2 (g σ').2) :
    Mirrors ρ slack r (add f) (add g) m := by
  intro m' hm
  obtain ⟨hresult, hstore⟩ := h m'.store hm.store
  change ρ.Mirrored slack r (.done (f m.store).1 _) (.done (g m'.store).1 _)
  rw [hresult]
  exact .done (hm.withStore hstore)

/-! Variables -/

theorem mirrors_resolve (scope : FrameId) (name : Name) :
    Mirrors ρ slack ρ.frame (resolve scope name) (resolve (ρ.frame scope) (name.mapSpan ρ.place))
      m := by
  intro m' hm
  unfold resolve
  rw [Name.text_mapSpan, hm.store.resolve]
  cases m.store.resolve scope name.text with
  | none => exact .failed hm
  | some frame => exact .done hm

theorem mirrors_setLocal (frame : FrameId) (name : Name) (v : Value) :
    Mirrors ρ slack id (setLocal frame name v)
      (setLocal (ρ.frame frame) (name.mapSpan ρ.place) (ρ.value v)) m :=
  mirrors_change fun _ hσ => hσ.setLocal frame name.text v

theorem mirrors_declare (frame : FrameId) (name : Name) (v : Value) :
    Mirrors ρ slack id (declare frame name v)
      (declare (ρ.frame frame) (name.mapSpan ρ.place) (ρ.value v)) m := by
  unfold declare
  refine mirrors_ask (c := id) (fun σ' hσ => hσ.hasLocal frame name.text) ?_
  cases m.store.hasLocal frame name.text with
  | true => exact mirrors_fail id (.scope (.alreadyDeclared name.text)) name.span
  | false => exact mirrors_setLocal frame name v

theorem mirrors_declareThrown (frame : FrameId) (param : Option Name) (payload : Value) :
    Mirrors ρ slack id (declareThrown frame param payload)
      (declareThrown (ρ.frame frame) (param.map (Name.mapSpan ρ.place)) (ρ.value payload)) m := by
  cases param with
  | none => exact mirrors_pure rfl
  | some name => exact mirrors_declare frame name payload

/-- A function that is declared now has a number that is given out now, so it keeps no home. -/
theorem mirrors_declareFunction (scope : FrameId) (definition : FunctionDef) :
    Mirrors ρ slack id (declareFunction scope definition)
      (declareFunction (ρ.frame scope) (definition.mapSpans ρ.place)) m := by
  intro m' hm
  have hhome : ρ.home ⟨m.store.nextIdentity, definition, scope⟩ = ρ.frame scope :=
    if_neg (Nat.not_lt_of_le hm.store.kept)
  have hfunction : Value.function ⟨m'.store.nextIdentity, definition.mapSpans ρ.place, ρ.frame scope⟩ =
      ρ.value (.function ⟨m.store.nextIdentity, definition, scope⟩) := by
    rw [← hm.store.nextIdentity, ← hhome]
    rfl
  have hdeclare : Mirrors ρ slack id _ _ { m with store := m.store.newIdentity.2 } :=
    mirrors_declare scope definition.name (.function ⟨m.store.nextIdentity, definition, scope⟩)
  rw [← hfunction] at hdeclare
  exact hdeclare _ (hm.withStore hm.store.newIdentity)

theorem mirrors_bindParameters (frame : FrameId) (params : List Name) :
    ∀ (arguments : List Value) (m : Machine), Mirrors ρ slack id (bindParameters frame params arguments)
      (bindParameters (ρ.frame frame) (params.map (Name.mapSpan ρ.place)) (arguments.map ρ.value))
      m := by
  induction params with
  | nil => exact fun _ _ => mirrors_pure rfl
  | cons param params ih =>
    intro arguments m
    have hfirst : (arguments.map ρ.value).headD .null = ρ.value (arguments.headD .null) := by
      cases arguments <;> rfl
    change Mirrors ρ slack id _ (do
      setLocal (ρ.frame frame) (param.mapSpan ρ.place) ((arguments.map ρ.value).headD .null)
      bindParameters (ρ.frame frame) (params.map (Name.mapSpan ρ.place)) (arguments.map ρ.value).tail) m
    rw [hfirst, ← List.map_tail]
    exact (mirrors_setLocal frame param _).bind fun _ n _ => ih arguments.tail n

theorem mirrors_readVariable (scope : FrameId) (name : Name) :
    Mirrors ρ slack ρ.value (readVariable scope name)
      (readVariable (ρ.frame scope) (name.mapSpan ρ.place)) m := by
  intro m' hm
  unfold readVariable
  rw [Name.text_mapSpan, hm.store.read]
  cases m.store.read scope name.text with
  | error fault => exact .failed hm
  | ok v =>
    change ρ.Mirrored slack ρ.value (if v.isCallable then _ else _)
      (if (ρ.value v).isCallable then _ else _)
    rw [ρ.isCallable_value]
    split
    · exact .failed hm
    · exact .done hm

theorem mirrors_adjust (scope : FrameId) (name : Name) (step : Step) :
    Mirrors ρ slack ρ.value (adjust scope name step)
      (adjust (ρ.frame scope) (name.mapSpan ρ.place) step) m := by
  refine (mirrors_readVariable scope name).bind fun old n _ => ?_
  rw [ρ.toInt32_value]
  refine Mirrors.bind (r := id) ?_ fun _ _ _ => mirrors_pure rfl
  exact (mirrors_resolve scope name).bind fun frame _ _ => mirrors_setLocal frame name (.integer _)

theorem mirrors_assigned (frame : FrameId) (target : Name) (v : Value) :
    Mirrors ρ slack ρ.value (do setLocal frame target v; pure v)
      (do setLocal (ρ.frame frame) (target.mapSpan ρ.place) (ρ.value v); pure (ρ.value v)) m :=
  (mirrors_setLocal frame target v).bind fun _ _ _ => mirrors_pure rfl

/-! Arrays and structs -/

theorem mirrors_newArray (items : Array Value) :
    Mirrors ρ slack ρ.value (newArray items) (newArray (items.map ρ.value)) m :=
  mirrors_add fun _ hσ => hσ.newArray items

theorem mirrors_newStruct (fields : Entries Value) :
    Mirrors ρ slack ρ.value (newStruct fields) (newStruct (fields.mapValues ρ.value)) m :=
  mirrors_add fun _ hσ => hσ.newStruct fields

theorem mirrors_newArrayOfSize (size : Int32) (place : Span) :
    Mirrors ρ slack ρ.value (newArrayOfSize size place) (newArrayOfSize size (ρ.place place)) m := by
  unfold newArrayOfSize
  split
  · exact mirrors_fail _ _ _
  · have hnulls : Mirrors ρ slack ρ.value _ _ m :=
      mirrors_newArray (Array.replicate size.toInt.toNat .null)
    rw [Array.map_replicate] at hnulls
    exact hnulls

theorem mirrors_position (index : Int32) (length : Nat) (place : Span) :
    Mirrors ρ slack id (position index length place) (position index length (ρ.place place)) m := by
  unfold position
  split
  · exact mirrors_pure rfl
  · exact mirrors_fail _ _ _

theorem mirrors_mismatch (r : α → β) (need : Need) (v : Value) (place : Span) :
    Mirrors ρ slack r (fail (.mismatch need v.typeName) place)
      (fail (.mismatch need (ρ.value v).typeName) (ρ.place place)) m := by
  rw [ρ.typeName_value]
  exact mirrors_fail r _ place

theorem mirrors_readIndex (target : Value) (index : Int32) (place : Span) :
    Mirrors ρ slack ρ.value (readIndex target index place)
      (readIndex (ρ.value target) index (ρ.place place)) m := by
  cases target with
  | array cell =>
    refine mirrors_ask (c := Array.map ρ.value)
      (fun σ' hσ => Renaming.items_of_cells hσ.cells cell) ?_
    rw [Array.size_map]
    refine (mirrors_position index _ place).bind fun i n _ => mirrors_pure ?_
    rw [Array.getD_eq_getD_getElem?, Array.getD_eq_getD_getElem?, Array.getElem?_map]
    change (Option.map ρ.value _).getD (ρ.value .null) = _
    rw [Option.getD_map]
    rfl
  | string text =>
    refine (mirrors_position index _ place).bind fun i n _ => mirrors_pure ?_
    refine (ρ.value_of_isScalar ?_).symm
    split <;> rfl
  | _ => exact mirrors_mismatch ρ.value .arrayOrString _ place

theorem mirrors_writeIndex (target : Value) (index : Int32) (v : Value) (place : Span) :
    Mirrors ρ slack ρ.value (writeIndex target index v place)
      (writeIndex (ρ.value target) index (ρ.value v) (ρ.place place)) m := by
  cases target with
  | array cell =>
    refine mirrors_ask (c := id) (fun σ' hσ => ?_) ?_
    · rw [Renaming.items_of_cells hσ.cells, Array.size_map]
      rfl
    · refine (mirrors_position index _ place).bind fun i n _ => ?_
      refine Mirrors.bind (r := id) (mirrors_change fun σ' hσ => hσ.setItem cell i v) ?_
      exact fun _ _ _ => mirrors_pure rfl
  | _ => exact mirrors_mismatch ρ.value .array _ place

theorem mirrors_readMember (target : Value) (member : Name) (place : Span) :
    Mirrors ρ slack ρ.value (readMember target member place)
      (readMember (ρ.value target) (member.mapSpan ρ.place) (ρ.place place)) m := by
  cases target with
  | struct cell =>
    refine mirrors_ask (c := Option.map ρ.value) (fun σ' hσ => ?_) ?_
    · rw [Renaming.fields_of_cells hσ.cells]
      exact Entries.get?_mapValues ρ.value member.text _
    · cases (m.store.fields cell).get? member.text with
      | none => exact mirrors_fail _ _ _
      | some v => exact mirrors_pure rfl
  | _ => exact mirrors_mismatch ρ.value .struct _ place

theorem mirrors_writeMember (target : Value) (member : Name) (v : Value) (place : Span) :
    Mirrors ρ slack ρ.value (writeMember target member v place)
      (writeMember (ρ.value target) (member.mapSpan ρ.place) (ρ.value v) (ρ.place place)) m := by
  cases target with
  | struct cell =>
    refine mirrors_ask (c := id) (fun σ' hσ => ?_) ?_
    · rw [Renaming.fields_of_cells hσ.cells]
      exact Entries.has_mapValues ρ.value member.text _
    · cases (m.store.fields cell).has member.text with
      | true =>
        refine Mirrors.bind (r := id) (mirrors_change fun σ' hσ => hσ.setField cell member.text v) ?_
        exact fun _ _ _ => mirrors_pure rfl
      | false => exact mirrors_fail _ _ _
  | _ => exact mirrors_mismatch ρ.value .struct _ place

theorem mirrors_applyBinary (op : BinaryOp) (a b : Value) (place : Span) :
    Mirrors ρ slack ρ.value (applyBinary op a b place)
      (applyBinary op (ρ.value a) (ρ.value b) (ρ.place place)) m := by
  intro m' hm
  unfold applyBinary
  rw [Renaming.binary_value hm.store.cells]
  cases hv : op.apply m.store a b with
  | error fault => exact .failed hm
  | ok v =>
    have hscalar := ρ.value_of_isScalar (BinaryOp.isScalar_apply hv)
    change ρ.Mirrored slack ρ.value (.done v m) (.done v m')
    have hdone : ρ.Mirrored slack ρ.value (.done v m) (.done (ρ.value v) m') := .done hm
    rwa [hscalar] at hdone

/-! Calls -/

theorem fit_native (f : Native) (arguments : List Value) :
    (ρ.native f).fit (arguments.map ρ.value) = (f.fit arguments).map ρ.value := by
  unfold Native.fit
  rw [List.map_append, List.map_take, List.map_replicate, List.length_map]
  rfl

theorem getD_map_value (arguments : List Value) (i : Nat) :
    (arguments.map ρ.value).getD i .null = ρ.value (arguments.getD i .null) := by
  rw [List.getD_eq_getElem?_getD, List.getD_eq_getElem?_getD, List.getElem?_map]
  change (Option.map ρ.value _).getD (ρ.value .null) = _
  rw [Option.getD_map]

/-- A native does the same, and gives the same back. -/
theorem twins_run {m m' : Machine} (hm : ρ.Twins m m') (action : NativeAction)
    (arguments : List Value) :
    (action.run (arguments.map ρ.value) m').1 = (action.run arguments m).1.map ρ.value ∧
      ρ.Twins (action.run arguments m).2 (action.run (arguments.map ρ.value) m').2 := by
  have htext := fun v => Renaming.text_value hm.store.cells v
  have hpath := fun v => Renaming.path_value hm.store.cells v
  cases action with
  | print =>
    simp only [NativeAction.run, Machine.print, getD_map_value, htext, hm.console]
    refine ⟨?_, hm.store, rfl, hm.files, hm.depth⟩
    cases (m.console.writeLine ((arguments.getD 0 .null).text m.store)).1 <;> rfl
  | read =>
    simp only [NativeAction.run, Machine.readLine, hm.console]
    refine ⟨?_, hm.store, rfl, hm.files, hm.depth⟩
    cases m.console.readLine.1 with
    | error fault => rfl
    | ok line => cases line <;> rfl
  | readFile =>
    simp only [NativeAction.run, Machine.readFile, getD_map_value, hpath, hm.files]
    cases (arguments.getD 0 .null).path m.store with
    | error fault => exact ⟨rfl, hm⟩
    | ok path =>
      refine ⟨?_, hm⟩
      change (m.files.read path).map Value.string = ((m.files.read path).map Value.string).map ρ.value
      cases m.files.read path <;> rfl
  | writeFile =>
    simp only [NativeAction.run, Machine.writeFile, getD_map_value, hpath, htext, ρ.isNull_value,
      hm.files]
    cases (arguments.getD 0 .null).path m.store with
    | error fault => exact ⟨rfl, hm⟩
    | ok path =>
      dsimp only
      split
      · exact ⟨rfl, hm⟩
      · cases m.files.write path ((arguments.getD 1 .null).text m.store) with
        | error fault => exact ⟨rfl, hm⟩
        | ok files => exact ⟨rfl, hm.store, hm.console, rfl, hm.depth⟩
  | length =>
    simp only [NativeAction.run, getD_map_value, Renaming.length?_value hm.store.cells]
    refine ⟨?_, hm⟩
    cases (arguments.getD 0 .null).length? m.store <;> rfl
  | keys =>
    simp only [NativeAction.run, getD_map_value]
    cases arguments.getD 0 .null with
    | struct cell =>
      have hnames : (((m.store.fields cell).names.map Value.string).toArray).map ρ.value =
          ((m'.store.fields cell).names.map Value.string).toArray := by
        rw [Renaming.fields_of_cells hm.store.cells, Entries.names_mapValues, List.map_toArray,
          List.map_map]
        rfl
      obtain ⟨hresult, hstore⟩ :=
        hm.store.newArray ((m.store.fields cell).names.map Value.string).toArray
      rw [hnames] at hresult hstore
      exact ⟨congrArg Except.ok hresult, hm.withStore hstore⟩
    | _ => exact ⟨rfl, hm⟩
  | typeOf =>
    simp only [NativeAction.run, getD_map_value, ρ.typeName_value]
    exact ⟨rfl, hm⟩
  | gather =>
    obtain ⟨hresult, hstore⟩ := hm.store.newArray arguments.toArray
    rw [List.map_toArray] at hresult hstore
    exact ⟨congrArg Except.ok hresult, hm.withStore hstore⟩
  | count =>
    refine ⟨congrArg (fun n => Except.ok (Value.integer (Int32.ofNat n))) ?_, hm⟩
    rw [List.countP_map]
    exact List.countP_congr fun v _ => by simp [ρ.isNull_value]
  | fail message => exact ⟨rfl, hm⟩
  | failIo message => exact ⟨rfl, hm⟩

theorem mirrors_callNative (f : Native) (arguments : List Value) (place : Span) :
    Mirrors ρ slack ρ.value (callNative f arguments place)
      (callNative (ρ.native f) (arguments.map ρ.value) (ρ.place place)) m := by
  intro m' hm
  obtain ⟨hresult, htwins⟩ := twins_run hm f.action (f.fit arguments)
  have haction : (ρ.native f).action = f.action := rfl
  unfold callNative Native.call
  rw [fit_native, haction]
  generalize f.action.run (f.fit arguments) m = first,
    f.action.run ((f.fit arguments).map ρ.value) m' = second at hresult htwins
  obtain ⟨result, n⟩ := first
  obtain ⟨result', n'⟩ := second
  obtain rfl : result' = result.map ρ.value := hresult
  cases result with
  | ok v => exact .done htwins
  | error fault => exact .failed htwins

theorem mirrors_checkCall (limit : Nat) {f : Closure} (hhome : ρ.home f = ρ.frame f.home)
    (place : Span) : Mirrors ρ slack id (checkCall limit f place)
      (checkCall limit (ρ.closure f) (ρ.place place)) m := by
  intro m' hm
  have halive : m'.store.isAlive (ρ.closure f).home = m.store.isAlive f.home := by
    change m'.store.isAlive (ρ.home f) = _
    rw [hhome, hm.store.alive]
  unfold checkCall
  rw [halive, hm.depth]
  split
  · exact .failed hm
  · split
    · exact .done hm
    · exact .failed hm

theorem mirrors_asCall (place : Span) {body body' : Eval Unit}
    (h : Mirrors ρ slack id body body' { m with depth := m.depth + 1 }) :
    Mirrors ρ slack ρ.value (asCall place body) (asCall (ρ.place place) body') m := by
  intro m' hm
  have hbody := h { m' with depth := m'.depth + 1 }
    ⟨hm.store, hm.console, hm.files, congrArg (· + 1) hm.depth⟩
  have hback : ∀ {n n'}, ρ.Twins n n' → ρ.Twins { n with depth := n.depth - 1 }
      { n' with depth := n'.depth - 1 } :=
    fun h => ⟨h.store, h.console, h.files, congrArg (· - 1) h.depth⟩
  unfold asCall
  generalize body { m with depth := m.depth + 1 } = first,
    body' { m' with depth := m'.depth + 1 } = second at hbody
  cases hbody with
  | done htwins => exact .done (hback htwins)
  | @signalled s n n' htwins =>
    cases s with
    | jump j at_ => exact .failed (hback htwins)
    | transfer kind v at_ =>
      cases kind with
      | «return» => exact .done (hback htwins)
      | exit => exact .signalled (hback htwins)
      | throw => exact .signalled (hback htwins)
  | failed htwins => exact .failed (hback htwins)
  | exhausted htwins => exact .exhausted (hback htwins)
  | unknown hslack => exact .unknown hslack

/-! Statements around statements -/

theorem mirrors_inChild {r : α → β} (parent : FrameId) {body : FrameId → Eval α}
    {body' : FrameId → Eval β}
    (h : Mirrors ρ slack r (body m.store.frames.size) (body' (ρ.frame m.store.frames.size))
      (m.below parent)) :
    Mirrors ρ slack r (inChild parent body) (inChild (ρ.frame parent) body') m := by
  intro m' hm
  have hbody := h (m'.below (ρ.frame parent)) (hm.below parent)
  rw [hm.store.next] at hbody
  have hdrop : ∀ {n n'}, ρ.Twins n n' →
      ρ.Twins { n with store := n.store.dropFrame m.store.frames.size }
        { n' with store := n'.store.dropFrame m'.store.frames.size } := by
    intro n n' h
    rw [← hm.store.next]
    exact h.withStore (h.store.dropFrame _)
  change ρ.Mirrored slack r ((body m.store.frames.size (m.below parent)).mapMachine _)
    ((body' m'.store.frames.size (m'.below (ρ.frame parent))).mapMachine _)
  generalize body m.store.frames.size (m.below parent) = first,
    body' m'.store.frames.size (m'.below (ρ.frame parent)) = second at hbody
  cases hbody with
  | done htwins => exact .done (hdrop htwins)
  | signalled htwins => exact .signalled (hdrop htwins)
  | failed htwins => exact .failed (hdrop htwins)
  | exhausted htwins => exact .exhausted (hdrop htwins)
  | unknown hslack => exact .unknown hslack

theorem mirrors_catching {body body' : Eval Unit} {handler handler' : Value → Eval Unit}
    (h : Mirrors ρ slack id body body' m)
    (hhandler : ∀ payload place n, body m = .signalled (.transfer .throw payload place) n →
      Mirrors ρ slack id (handler payload) (handler' (ρ.value payload)) n) :
    Mirrors ρ slack id (catching body handler) (catching body' handler') m := by
  intro m' hm
  have hbody := h m' hm
  unfold catching
  generalize hfirst : body m = first, body' m' = second at hbody
  cases hbody with
  | done htwins => exact .done htwins
  | @signalled s n n' htwins =>
    cases s with
    | jump j at_ => exact .signalled htwins
    | transfer kind v at_ =>
      cases kind with
      | throw => exact hhandler v at_ n hfirst n' htwins
      | «return» => exact .signalled htwins
      | exit => exact .signalled htwins
  | failed htwins => exact .failed htwins
  | exhausted htwins => exact .exhausted htwins
  | unknown hslack => exact .unknown hslack

theorem mirrors_repeating {body body' again again' : Eval Unit}
    (h : Mirrors ρ slack id body body' m)
    (hagain : ∀ n, (body m = .done () n ∨
      ∃ place, body m = .signalled (.jump .continue place) n) →
      Mirrors ρ slack id again again' n) :
    Mirrors ρ slack id (repeating body again) (repeating body' again') m := by
  intro m' hm
  have hbody := h m' hm
  unfold repeating
  generalize hfirst : body m = first, body' m' = second at hbody
  cases hbody with
  | @done a n n' htwins => exact hagain n (Or.inl hfirst) n' htwins
  | @signalled s n n' htwins =>
    cases s with
    | jump j at_ =>
      cases j with
      | «continue» => exact hagain n (Or.inr ⟨at_, hfirst⟩) n' htwins
      | «break» => exact .done htwins
    | transfer kind v at_ => exact .signalled htwins
  | failed htwins => exact .failed htwins
  | exhausted htwins => exact .exhausted htwins
  | unknown hslack => exact .unknown hslack

/-! Evaluations -/

section

variable {limit fuel : Nat} {At : Moment → Prop}

/-- With so much fuel evaluations under other numbers do what those at the moments do. -/
structure Mirrorings (ρ : Renaming) (limit : Nat) (At : Moment → Prop) (slack fuel : Nat) : Prop where
  expr : ∀ scope e m, At ⟨.expr scope e, m⟩ → Mirrors ρ slack ρ.value (expr limit fuel scope e)
    (Eval.expr limit (slack + fuel) (ρ.frame scope) (e.mapSpans ρ.place)) m
  exprs : ∀ scope es m, Moment.InTurn limit At scope es m →
    Mirrors ρ slack (List.map ρ.value) (exprs limit fuel scope es)
      (Eval.exprs limit (slack + fuel) (ρ.frame scope) (Expr.mapItems ρ.place es)) m
  fieldValues : ∀ scope entries fields m, Moment.InTurn limit At scope (fields.map Prod.snd) m →
    Mirrors ρ slack (Entries.mapValues ρ.value) (fieldValues limit fuel scope entries fields)
      (Eval.fieldValues limit (slack + fuel) (ρ.frame scope) (entries.mapValues ρ.value)
        (Expr.mapFields ρ.place fields)) m
  call : ∀ f arguments place m, At ⟨.call f arguments place, m⟩ →
    Mirrors ρ slack ρ.value (call limit fuel f arguments place)
      (Eval.call limit (slack + fuel) (ρ.closure f) (arguments.map ρ.value) (ρ.place place)) m
  stmt : ∀ scope s m, At ⟨.stmt scope s, m⟩ → Mirrors ρ slack id (stmt limit fuel scope s)
    (Eval.stmt limit (slack + fuel) (ρ.frame scope) (s.mapSpans ρ.place)) m
  optional : ∀ scope value m, (∀ e, value = some e → At ⟨.expr scope e, m⟩) →
    Mirrors ρ slack ρ.value (optional limit fuel scope value)
      (Eval.optional limit (slack + fuel) (ρ.frame scope) (value.map (Expr.mapSpans ρ.place))) m
  stmts : ∀ scope body m, At ⟨.stmts scope body, m⟩ → Mirrors ρ slack id (stmts limit fuel scope body)
    (Eval.stmts limit (slack + fuel) (ρ.frame scope) (Stmt.mapBody ρ.place body)) m
  loop : ∀ scope condition body span m, At ⟨.stmt scope (.loop condition body span), m⟩ →
    Mirrors ρ slack id (loop limit fuel scope condition body)
      (Eval.loop limit (slack + fuel) (ρ.frame scope) (condition.mapSpans ρ.place)
        (body.mapSpans ρ.place)) m

theorem mirrors_exhausted {r : α → β} {y : Eval β} (h : slack = 0 → y = exhausted) :
    Mirrors ρ slack r exhausted y m := by
  intro m' hm
  by_cases hslack : slack = 0
  · rw [h hslack]
    exact .exhausted hm
  · exact .unknown hslack

theorem Mirrorings.operand (ih : Mirrorings ρ limit At slack fuel) {r : γ → δ} {scope : FrameId}
    {x : Expr} {rest : List Expr} {f : Value → Eval γ} {g : Value → Eval δ}
    (h : Moment.InTurn limit At scope (x :: rest) m)
    (hf : ∀ v n, Moment.InTurn limit At scope rest n → Mirrors ρ slack r (f v) (g (ρ.value v)) n) :
    Mirrors ρ slack r (Eval.expr limit fuel scope x >>= f)
      (Eval.expr limit (slack + fuel) (ρ.frame scope) (x.mapSpans ρ.place) >>= g) m :=
  (ih.expr scope x m h.head).bind fun v n hv => hf v n (h.tail hv)

theorem mirrors_callee (hAt : ρ.Suits limit At) (ih : Mirrorings ρ limit At slack fuel)
    {scope frame : FrameId} {callee : Name} {arguments : List Expr} {place : Span} {vs : List Value}
    {n : Machine} (hM : At ⟨.expr scope (.call callee arguments place), m⟩)
    (hframe : m.store.resolve scope callee.text = some frame)
    (harguments : exprs limit fuel scope arguments m = .done vs n) :
    Mirrors ρ slack ρ.value
      (do match ← ask fun σ => (σ.getLocal? frame callee.text).getD .null with
          | .function f => call limit fuel f vs place
          | .native f => callNative f vs place
          | other => fail (.mismatch .function other.typeName) callee.span)
      (do match ← ask fun σ => (σ.getLocal? (ρ.frame frame) callee.text).getD .null with
          | .function f => call limit (slack + fuel) f (vs.map ρ.value) (ρ.place place)
          | .native f => callNative f (vs.map ρ.value) (ρ.place place)
          | other => fail (.mismatch .function other.typeName) (ρ.place callee.span)) n := by
  refine mirrors_ask (c := ρ.value) (fun σ' hσ => ?_) ?_
  · rw [hσ.getLocal?]
    change (Option.map ρ.value _).getD (ρ.value .null) = _
    rw [Option.getD_map]
  · cases hv : n.store.getLocal? frame callee.text with
    | none => exact mirrors_fail _ _ _
    | some v =>
      rw [Option.getD_some]
      cases v with
      | function f =>
        exact ih.call f vs place n (hAt.inward _ _ hM (.call fuel hframe harguments hv))
      | native f => exact mirrors_callNative f vs place
      | _ => exact mirrors_fail _ _ _

theorem mirrors_expr (hAt : ρ.Suits limit At) (ih : Mirrorings ρ limit At slack fuel)
    (scope : FrameId) (e : Expr) (m : Machine) (hM : At ⟨.expr scope e, m⟩) :
    Mirrors ρ slack ρ.value (expr limit (fuel + 1) scope e)
      (expr limit (slack + (fuel + 1)) (ρ.frame scope) (e.mapSpans ρ.place)) m := by
  have hoperands := fun hsubject => hAt.inward.operands hM hsubject
  unfold expr
  cases e with
  | literal value _ => exact mirrors_pure (ρ.value_of_isScalar value.isScalar_toValue).symm
  | «variable» name => exact mirrors_readVariable scope name
  | assign target value _ =>
    refine (mirrors_resolve scope target).bind fun frame m' hframe => ?_
    obtain ⟨hframe, rfl⟩ := resolve_eq_done hframe
    refine ih.operand (hoperands ?_) fun v n _ => mirrors_assigned frame target v
    simp [Expr.subject?, hframe]
  | adjust target step _ => exact mirrors_adjust scope target step
  | array items _ =>
    refine (ih.exprs scope items m (hoperands (by simp [Expr.subject?]))).bind fun vs n _ => ?_
    have hnew : Mirrors ρ slack ρ.value _ _ n := mirrors_newArray vs.toArray
    rwa [List.map_toArray] at hnew
  | arrayOfSize size place =>
    refine ih.operand (hoperands (by simp [Expr.subject?])) fun v n _ => ?_
    rw [ρ.toInt32_value]
    exact mirrors_newArrayOfSize v.toInt32 place
  | struct fields _ =>
    have hfields := ih.fieldValues scope [] fields m (hoperands (by simp [Expr.subject?]))
    exact hfields.bind fun entries n _ => mirrors_newStruct entries
  | index target index place =>
    refine ih.operand (hoperands (by simp [Expr.subject?])) fun t n hn => ?_
    refine ih.operand hn fun i n' _ => ?_
    rw [ρ.toInt32_value]
    exact mirrors_readIndex t i.toInt32 place
  | assignIndex target index value place =>
    refine ih.operand (hoperands (by simp [Expr.subject?])) fun t n hn => ?_
    refine ih.operand hn fun i n' hn' => ih.operand hn' fun v n'' _ => ?_
    rw [ρ.toInt32_value]
    exact mirrors_writeIndex t i.toInt32 v place
  | member target member place =>
    refine ih.operand (hoperands (by simp [Expr.subject?])) fun t n _ => ?_
    exact mirrors_readMember t member place
  | assignMember target member value place =>
    refine ih.operand (hoperands (by simp [Expr.subject?])) fun t n hn => ?_
    exact ih.operand hn fun v n' _ => mirrors_writeMember t member v place
  | binary op left right place =>
    refine ih.operand (hoperands (by simp [Expr.subject?])) fun a n hn => ?_
    exact ih.operand hn fun b n' _ => mirrors_applyBinary op a b place
  | unary op operand _ =>
    refine ih.operand (hoperands (by simp [Expr.subject?])) fun v n _ => mirrors_pure ?_
    rw [ρ.unary_value, ρ.value_of_isScalar (op.isScalar_apply v)]
  | call callee arguments place =>
    refine (mirrors_resolve scope callee).bind fun frame m' hframe => ?_
    obtain ⟨hframe, rfl⟩ := resolve_eq_done hframe
    have harguments := ih.exprs scope arguments m' (hoperands (by simp [Expr.subject?, hframe]))
    exact harguments.bind fun vs n hvs => mirrors_callee hAt ih hM hframe hvs
  | paren inner _ => exact ih.expr scope inner m (hoperands (by simp [Expr.subject?])).head

theorem mirrors_exprs (ih : Mirrorings ρ limit At slack fuel) (scope : FrameId) (es : List Expr)
    (m : Machine) (h : Moment.InTurn limit At scope es m) :
    Mirrors ρ slack (List.map ρ.value) (exprs limit (fuel + 1) scope es)
      (exprs limit (slack + (fuel + 1)) (ρ.frame scope) (Expr.mapItems ρ.place es)) m := by
  cases es with
  | nil => exact mirrors_pure rfl
  | cons e rest =>
    refine ih.operand h fun v n hn => ?_
    exact (ih.exprs scope rest n hn).bind fun vs n' _ => mirrors_pure rfl

theorem mirrors_fieldValues (ih : Mirrorings ρ limit At slack fuel) (scope : FrameId)
    (entries : Entries Value) (fields : List (Name × Expr)) (m : Machine)
    (h : Moment.InTurn limit At scope (fields.map Prod.snd) m) :
    Mirrors ρ slack (Entries.mapValues ρ.value) (fieldValues limit (fuel + 1) scope entries fields)
      (fieldValues limit (slack + (fuel + 1)) (ρ.frame scope) (entries.mapValues ρ.value)
        (Expr.mapFields ρ.place fields)) m := by
  cases fields with
  | nil => exact mirrors_pure rfl
  | cons field rest =>
    obtain ⟨name, e⟩ := field
    refine ih.operand h fun v n hn => ?_
    have hrest := ih.fieldValues scope (entries.put name.text v) rest n hn
    rwa [← Entries.put_mapValues] at hrest

theorem mirrors_call (hAt : ρ.Suits limit At) (ih : Mirrorings ρ limit At slack fuel) (f : Closure)
    (arguments : List Value) (place : Span) (m : Machine) (hM : At ⟨.call f arguments place, m⟩) :
    Mirrors ρ slack ρ.value (call limit (fuel + 1) f arguments place)
      (call limit (slack + (fuel + 1)) (ρ.closure f) (arguments.map ρ.value) (ρ.place place)) m := by
  have hhome := hAt.home f arguments place m hM
  refine (mirrors_checkCall limit hhome place).bind fun _ m' hcheck => ?_
  obtain ⟨-, rfl⟩ := checkCall_eq_done hcheck
  change Mirrors ρ slack ρ.value _ (inChild (ρ.home f) _) m'
  rw [hhome]
  refine mirrors_inChild f.home ?_
  refine (mirrors_bindParameters _ _ arguments _).bind fun _ n hbind => ?_
  exact mirrors_asCall place (ih.stmts _ _ _ (hAt.inward _ _ hM (.activation hcheck hbind)))

theorem mirrors_optional (ih : Mirrorings ρ limit At slack fuel) (scope : FrameId)
    (value : Option Expr) (m : Machine) (h : ∀ e, value = some e → At ⟨.expr scope e, m⟩) :
    Mirrors ρ slack ρ.value (optional limit (fuel + 1) scope value)
      (optional limit (slack + (fuel + 1)) (ρ.frame scope) (value.map (Expr.mapSpans ρ.place))) m := by
  cases value with
  | none => exact mirrors_pure rfl
  | some e => exact ih.expr scope e m (h e rfl)

theorem mirrors_stmt (hAt : ρ.Suits limit At) (ih : Mirrorings ρ limit At slack fuel)
    (scope : FrameId) (s : Stmt) (m : Machine) (hM : At ⟨.stmt scope s, m⟩) :
    Mirrors ρ slack id (stmt limit (fuel + 1) scope s)
      (stmt limit (slack + (fuel + 1)) (ρ.frame scope) (s.mapSpans ρ.place)) m := by
  have hpart : ∀ e, s.operand? = some e → At ⟨.expr scope e, m⟩ :=
    fun e he => hAt.inward _ _ hM (.part he)
  unfold stmt
  cases s with
  | declare name init _ =>
    exact (ih.optional scope init m hpart).bind fun v n _ => mirrors_declare scope name v
  | function name params body span => exact mirrors_declareFunction scope _
  | block body _ => exact mirrors_inChild scope (ih.stmts _ body _ (hAt.inward _ _ hM .block))
  | branch condition thenBranch elseBranch _ =>
    refine (ih.expr scope condition m (hpart _ rfl)).bind fun v n hcondition => ?_
    rw [ρ.truth_value]
    split
    · rename_i htruth
      exact ih.stmt scope thenBranch n (hAt.inward _ _ hM (.branch fuel hcondition (if_pos htruth)))
    · rename_i htruth
      cases elseBranch with
      | none => exact mirrors_pure rfl
      | some other =>
        exact ih.stmt scope other n (hAt.inward _ _ hM (.branch fuel hcondition (if_neg htruth)))
  | loop condition body span => exact ih.loop scope condition body span m hM
  | jump j place => exact mirrors_signal id (.jump j place)
  | transfer kind value place =>
    refine (ih.optional scope value m hpart).bind fun v n _ => ?_
    exact mirrors_signal id (.transfer kind v place)
  | attempt body _ param handler _ _ =>
    refine mirrors_catching (mirrors_inChild scope ?_) fun payload place n hthrown => ?_
    · exact ih.stmts _ body _ (hAt.inward _ _ hM .attempt)
    · refine mirrors_inChild scope ?_
      refine (mirrors_declareThrown _ param payload).bind fun _ n' hparam => ?_
      exact ih.stmts _ handler n' (hAt.inward _ _ hM (.handler fuel hthrown hparam))
  | expression e _ =>
    exact (ih.expr scope e m (hpart e rfl)).bind fun v n _ => mirrors_pure rfl
  | empty _ => exact mirrors_pure rfl

theorem mirrors_stmts (hAt : ρ.Suits limit At) (ih : Mirrorings ρ limit At slack fuel)
    (scope : FrameId) (body : List Stmt) (m : Machine) (hM : At ⟨.stmts scope body, m⟩) :
    Mirrors ρ slack id (stmts limit (fuel + 1) scope body)
      (stmts limit (slack + (fuel + 1)) (ρ.frame scope) (Stmt.mapBody ρ.place body)) m := by
  cases body with
  | nil => exact mirrors_pure rfl
  | cons s rest =>
    refine (ih.stmt scope s m (hAt.inward _ _ hM .first)).bind fun _ n hfirst => ?_
    exact ih.stmts scope rest n (hAt.inward _ _ hM (.rest fuel hfirst))

theorem mirrors_loop (hAt : ρ.Suits limit At) (ih : Mirrorings ρ limit At slack fuel)
    (scope : FrameId) (condition : Expr) (body : Stmt) (span : Span) (m : Machine)
    (hM : At ⟨.stmt scope (.loop condition body span), m⟩) :
    Mirrors ρ slack id (loop limit (fuel + 1) scope condition body)
      (loop limit (slack + (fuel + 1)) (ρ.frame scope) (condition.mapSpans ρ.place)
        (body.mapSpans ρ.place)) m := by
  have hfirst := ih.expr scope condition m (hAt.inward _ _ hM (.part rfl))
  refine hfirst.bind fun v n hcondition => ?_
  rw [ρ.truth_value]
  split
  · rename_i htruth
    refine mirrors_repeating ?_ fun n' hbody => ?_
    · exact ih.stmt scope body n (hAt.inward _ _ hM (.pass fuel hcondition htruth))
    · exact ih.loop scope condition body span n'
        (hAt.inward _ _ hM (.again fuel hcondition htruth hbody))
  · exact mirrors_pure rfl

theorem mirrorings (hAt : ρ.Suits limit At) (slack fuel : Nat) :
    Mirrorings ρ limit At slack fuel := by
  induction fuel with
  | zero =>
    exact {
      expr := fun _ _ _ _ => mirrors_exhausted (by rintro rfl; rfl)
      exprs := fun _ _ _ _ => mirrors_exhausted (by rintro rfl; rfl)
      fieldValues := fun _ _ _ _ _ => mirrors_exhausted (by rintro rfl; rfl)
      call := fun _ _ _ _ _ => mirrors_exhausted (by rintro rfl; rfl)
      stmt := fun _ _ _ _ => mirrors_exhausted (by rintro rfl; rfl)
      optional := fun _ _ _ _ => mirrors_exhausted (by rintro rfl; rfl)
      stmts := fun _ _ _ _ => mirrors_exhausted (by rintro rfl; rfl)
      loop := fun _ _ _ _ _ _ => mirrors_exhausted (by rintro rfl; rfl)
    }
  | succ fuel ih =>
    exact {
      expr := mirrors_expr hAt ih
      exprs := mirrors_exprs ih
      fieldValues := mirrors_fieldValues ih
      call := mirrors_call hAt ih
      stmt := mirrors_stmt hAt ih
      optional := mirrors_optional ih
      stmts := mirrors_stmts hAt ih
      loop := mirrors_loop hAt ih
    }

/-- A script under other numbers does what the script does. -/
theorem mirrors_script (hAt : ρ.Suits limit At) (slack fuel : Nat) (scope : FrameId)
    (body : List Stmt) : ∀ (last : Value) (m : Machine), At ⟨.stmts scope body, m⟩ →
      Mirrors ρ slack ρ.value (script limit fuel scope last body)
        (script limit (slack + fuel) (ρ.frame scope) (ρ.value last) (Stmt.mapBody ρ.place body))
        m := by
  have hall := mirrorings hAt slack fuel
  induction body with
  | nil => exact fun last m _ => mirrors_pure rfl
  | cons s rest ih =>
    intro last m hM
    have hfirst := hAt.inward _ _ hM .first
    cases s with
    | expression e span =>
      refine (hall.expr scope e m (hAt.inward _ _ hfirst (.part rfl))).bind fun v n hv => ?_
      exact ih v n (Moment.at_rest hAt.inward hM (Or.inl ⟨e, span, v, rfl, hv⟩))
    | _ =>
      refine (hall.stmt scope _ m hfirst).bind fun _ n hdone => ?_
      exact ih .null n (Moment.at_rest hAt.inward hM (Or.inr hdone))

/-- The statements of a script do the same in a body, which has no value. A body takes fuel for each of
its statements. -/
theorem mirrors_body (hAt : ρ.Suits limit At) (hslack : slack ≠ 0) (more fuel : Nat) (scope : FrameId)
    (body : List Stmt) : ∀ (last : Value) (m : Machine), At ⟨.stmts scope body, m⟩ →
      Mirrors ρ slack (fun _ => ()) (script limit fuel scope last body)
        (stmts limit (body.length + more + fuel + 1) (ρ.frame scope) (Stmt.mapBody ρ.place body)) m := by
  induction body with
  | nil => exact fun last m _ => mirrors_pure rfl
  | cons s rest ih =>
    intro last m hM
    have hfirst := hAt.inward _ _ hM .first
    have hfuel : (s :: rest).length + more + fuel = rest.length + more + fuel + 1 := by
      rw [List.length_cons]
      omega
    rw [hfuel]
    have hrest : ∀ v n, At ⟨.stmts scope rest, n⟩ → Mirrors ρ slack (fun _ => ())
        (script limit fuel scope v rest) (stmts limit (rest.length + more + fuel + 1) (ρ.frame scope)
          (Stmt.mapBody ρ.place rest)) n := ih
    cases s with
    | expression e span =>
      have hexpr := (mirrorings hAt (rest.length + more) fuel).expr scope e m
        (hAt.inward _ _ hfirst (.part rfl))
      change Mirrors ρ slack _ (expr limit fuel scope e >>= fun v => script limit fuel scope v rest)
        ((expr limit (rest.length + more + fuel) (ρ.frame scope) (e.mapSpans ρ.place) >>= fun _ =>
          pure ()) >>= fun _ => stmts limit (rest.length + more + fuel + 1) (ρ.frame scope)
            (Stmt.mapBody ρ.place rest)) m
      rw [bind_assoc]
      refine Mirrors.bind (r := ρ.value) (fun m' hm => (hexpr m' hm).loosen hslack) fun v n hv => ?_
      exact hrest v n (Moment.at_rest hAt.inward hM (Or.inl ⟨e, span, v, rfl, hv⟩))
    | _ =>
      have hstmt := (mirrorings hAt (rest.length + more + 1) fuel).stmt scope _ m hfirst
      rw [Nat.add_right_comm (rest.length + more)] at hstmt
      refine Mirrors.bind (r := id) (fun m' hm => (hstmt m' hm).loosen hslack) fun _ n hdone => ?_
      exact hrest .null n (Moment.at_rest hAt.inward hM (Or.inr hdone))

end

end Eval

namespace Renaming

/-! What a host sees of it -/

def error (ρ : Renaming) (e : ScriptError) : ScriptError := { e with span := e.span.map ρ.place }

def ending (ρ : Renaming) : Ending → Ending
  | .value v => .value (ρ.value v)
  | .error e => .error (ρ.error e)
  | .exhausted => .exhausted

/-- The host gets the same value under its other number, or the same error. -/
theorem Mirrored.conclude {ρ : Renaming} {first second : Outcome Value}
    (h : ρ.Mirrored 0 ρ.value first second) :
    (Machine.conclude second).1 = ρ.ending (Machine.conclude first).1 ∧
      ρ.Twins (Machine.conclude first).2 (Machine.conclude second).2 := by
  cases h with
  | done htwins => exact ⟨rfl, htwins⟩
  | @signalled s m m' htwins =>
    cases s with
    | jump j place => exact ⟨rfl, htwins⟩
    | transfer kind v place =>
      cases kind with
      | throw =>
        refine ⟨congrArg (fun text => Ending.error ((RuntimeFault.uncaughtThrow text).toError _)) ?_,
          htwins⟩
        exact text_value htwins.store.cells v
      | _ => exact ⟨rfl, htwins⟩
  | failed htwins => exact ⟨rfl, htwins⟩
  | exhausted htwins => exact ⟨rfl, htwins⟩
  | unknown hslack => exact absurd rfl hslack

end Renaming

end ScriptEngine
