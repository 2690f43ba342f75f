import ScriptEngine.Proofs.Running.Course
import ScriptEngine.Proofs.Running.Supply

/-!
What expressions do to arrays and structs. A literal makes a new one, which is no other one; an assignment
to an element or a member changes one slot of one of them, and when it fails it changes nothing. Here the
expression has come to its end, and what it has done is read off; that it comes to its end when its
operands do is a matter of its own.
-/
namespace ScriptEngine

/-- A place for a value in an array or in a struct. -/
inductive Slot where
  | item (i : Nat)
  | field (name : String)
  deriving DecidableEq

namespace Cell

/-- The value that stands for the array or struct with this number. -/
def reference : Cell → CellId → Value
  | array _, cell => .array cell
  | struct _, cell => .struct cell

def slot? : Cell → Slot → Option Value
  | array items, .item i => items[i]?
  | struct fields, .field name => fields.get? name
  | _, _ => none

end Cell

namespace Store

variable {σ : Store} {cell : CellId} {i : Nat} {name : String} {v : Value}

def slot? (σ : Store) (cell : CellId) (slot : Slot) : Option Value :=
  σ.cells[cell]?.bind fun content => content.slot? slot

/-- One array or struct has come, with a number that none had. The value is this one. -/
structure Gains (σ : Store) (content : Cell) (v : Value) (σ' : Store) : Prop where
  value : v = content.reference σ.cells.size
  cells : σ'.cells = σ.cells.push content
  frames : σ'.frames = σ.frames
  nextIdentity : σ'.nextIdentity = σ.nextIdentity

/-- A slot that was there has got the value; nothing else is different. -/
structure Assigned (σ : Store) (cell : CellId) (slot : Slot) (v : Value) (σ' : Store) : Prop where
  there : (σ.slot? cell slot).isSome
  here : σ'.slot? cell slot = some v
  slots : ∀ other, other ≠ slot → σ'.slot? cell other = σ.slot? cell other
  others : ∀ other : CellId, other ≠ cell → σ'.cells[other]? = σ.cells[other]?
  retains : σ.Retains σ'
  size : σ'.cells.size = σ.cells.size
  frames : σ'.frames = σ.frames
  nextIdentity : σ'.nextIdentity = σ.nextIdentity

theorem gains_newArray (σ : Store) (items : Array Value) :
    σ.Gains (.array items) (σ.newArray items).1 (σ.newArray items).2 :=
  ⟨rfl, rfl, rfl, rfl⟩

theorem gains_newStruct (σ : Store) (fields : Entries Value) :
    σ.Gains (.struct fields) (σ.newStruct fields).1 (σ.newStruct fields).2 :=
  ⟨rfl, rfl, rfl, rfl⟩

theorem getElem?_of_lt_items (h : i < (σ.items cell).size) :
    σ.cells[cell]? = some (.array (σ.items cell)) := by
  unfold items at h ⊢
  split at h
  · assumption
  · exact absurd h (by simp)

theorem getElem?_of_has_fields (h : (σ.fields cell).has name) :
    σ.cells[cell]? = some (.struct (σ.fields cell)) := by
  unfold fields at h ⊢
  split at h
  · assumption
  · exact absurd h (by simp [Entries.has, Entries.get?])

/-- What a cell is changed to in place has its shape, and one slot of it is different. -/
theorem assigned_modify {content content' : Cell} {slot : Slot} {f : Cell → Cell}
    (hcell : σ.cells[cell]? = some content) (hf : f content = content')
    (hthere : (content.slot? slot).isSome) (hslot : content'.slot? slot = some v)
    (hslots : ∀ other, other ≠ slot → content'.slot? other = content.slot? other)
    (hshape : content'.shape = content.shape) :
    σ.Assigned cell slot v { σ with cells := σ.cells.modify cell f } := by
  have hnew : (σ.cells.modify cell f)[cell]? = some content' := by
    rw [Array.getElem?_modify, if_pos rfl, hcell, Option.map_some, hf]
  have hothers : ∀ other : CellId, other ≠ cell →
      (σ.cells.modify cell f)[other]? = σ.cells[other]? := by
    intro other hother
    rw [Array.getElem?_modify, if_neg (Ne.symm hother)]
  refine ⟨?_, ?_, fun other hother => ?_, hothers, fun other old hold => ?_, Array.size_modify .., rfl,
    rfl⟩
  · rwa [slot?, hcell]
  · rwa [slot?, hnew]
  · rw [slot?, slot?, hnew, hcell]
    exact hslots other hother
  · by_cases hsame : other = cell
    · subst hsame
      obtain rfl := Option.some.inj (hcell.symm.trans hold)
      exact ⟨content', hnew, hshape⟩
    · exact ⟨old, (hothers other hsame).trans hold, rfl⟩

theorem assigned_setItem (h : i < (σ.items cell).size) (v : Value) :
    σ.Assigned cell (.item i) v (σ.setItem cell i v) := by
  refine assigned_modify (getElem?_of_lt_items h) rfl ?_ ?_ (fun other hother => ?_) ?_
  · simp [Cell.slot?, h]
  · simp [Cell.slot?, h]
  · cases other with
    | item j =>
      have hne : i ≠ j := by
        rintro rfl
        exact hother rfl
      simp [Cell.slot?, hne]
    | field name => rfl
  · simp [Cell.shape]

theorem assigned_setField (h : (σ.fields cell).has name) (v : Value) :
    σ.Assigned cell (.field name) v (σ.setField cell name v) := by
  refine assigned_modify (getElem?_of_has_fields h) rfl h ?_ (fun other hother => ?_) ?_
  · exact Entries.get?_put_self name v _
  · cases other with
    | item j => rfl
    | field other =>
      refine Entries.get?_put_of_ne ?_ v _
      rintro rfl
      exact hother rfl
  · rw [Cell.shape, Cell.shape, Entries.names_put, if_pos (Entries.has_iff.mp h)]

end Store

namespace Expr

/-- The array or struct that an expression makes out of the values of its operands. There is none of a
negative size. -/
def aggregate? : Expr → List Value → Option Cell
  | array _ _, vs => some (.array vs.toArray)
  | arrayOfSize _ _, [size] =>
    if size.toInt32 < 0 then none
    else some (.array (Array.replicate size.toInt32.toInt.toNat .null))
  | struct fields _, vs => some (.struct (Entries.ofList ((fields.map fun field => field.1.text).zip vs)))
  | _, _ => none

/-- The slot that an expression assigns to when its operands have these values, if there is such a slot,
and the new value. -/
def assigned? : Expr → List Value → Option (CellId × Slot × Value)
  | assignIndex _ _ _ _, [.array cell, i, v] =>
    if 0 ≤ i.toInt32 then some (cell, .item i.toInt32.toInt.toNat, v) else none
  | assignMember _ name _ _, [.struct cell, v] => some (cell, .field name.text, v)
  | _, _ => none

def makesAggregate : Expr → Bool
  | array _ _ | arrayOfSize _ _ | struct _ _ => true
  | _ => false

def assignsSlot : Expr → Bool
  | assignIndex _ _ _ _ | assignMember _ _ _ _ => true
  | _ => false

end Expr

namespace Eval

variable {α β : Type} {limit fuel : Nat} {scope : FrameId} {m n : Machine}

/-- The expressions are evaluated in turn and have these values. -/
inductive Yields (limit : Nat) (scope : FrameId) : List Expr → Machine → List Value → Machine → Prop where
  | nil {m : Machine} : Yields limit scope [] m [] m
  | cons {e : Expr} {rest : List Expr} {m : Machine} {v : Value} {m' : Machine} {vs : List Value}
      {m'' : Machine} (fuel : Nat) (hfirst : expr limit fuel scope e m = .done v m')
      (hrest : Yields limit scope rest m' vs m'') : Yields limit scope (e :: rest) m (v :: vs) m''

theorem yields_of_exprs {es : List Expr} {vs : List Value}
    (h : exprs limit fuel scope es m = .done vs n) : Yields limit scope es m vs n := by
  induction es generalizing fuel m vs with
  | nil =>
    cases fuel with
    | zero => exact absurd h (by simp [exprs, exhausted])
    | succ fuel =>
      obtain ⟨rfl, rfl⟩ := Outcome.done.inj h
      exact .nil
  | cons e rest ih =>
    cases fuel with
    | zero => exact absurd h (by simp [exprs, exhausted])
    | succ fuel =>
      obtain ⟨v, k, hfirst, h⟩ := bind_eq_done_iff.mp h
      obtain ⟨vs, k', hrest, h⟩ := bind_eq_done_iff.mp h
      obtain ⟨rfl, rfl⟩ := Outcome.done.inj h
      exact .cons fuel hfirst (ih hrest)

theorem yields_of_fieldValues {fields : List (Name × Expr)} {entries result : Entries Value}
    (h : fieldValues limit fuel scope entries fields m = .done result n) :
    ∃ vs, Yields limit scope (fields.map Prod.snd) m vs n ∧
      result = ((fields.map fun field => field.1.text).zip vs).foldl
        (fun entries pair => entries.put pair.1 pair.2) entries := by
  induction fields generalizing fuel m entries with
  | nil =>
    cases fuel with
    | zero => exact absurd h (by simp [fieldValues, exhausted])
    | succ fuel =>
      obtain ⟨rfl, rfl⟩ := Outcome.done.inj h
      exact ⟨[], .nil, rfl⟩
  | cons field rest ih =>
    cases fuel with
    | zero => exact absurd h (by simp [fieldValues, exhausted])
    | succ fuel =>
      obtain ⟨v, k, hfirst, h⟩ := bind_eq_done_iff.mp h
      obtain ⟨vs, hrest, hresult⟩ := ih h
      exact ⟨v :: vs, .cons fuel hfirst hrest, hresult⟩

theorem bind_eq_failed {x : Eval α} {f : α → Eval β} {fault : RuntimeFault} {place : Span}
    (h : (x >>= f) m = .failed fault place n) :
    x m = .failed fault place n ∨ ∃ a k, x m = .done a k ∧ f a k = .failed fault place n := by
  rw [bind_apply] at h
  cases hx : x m with
  | done a k =>
    rw [hx] at h
    exact Or.inr ⟨a, k, rfl, h⟩
  | failed fault' place' k =>
    rw [hx] at h
    obtain ⟨rfl, rfl, rfl⟩ := Outcome.failed.inj h
    exact Or.inl rfl
  | signalled s k =>
    rw [hx] at h
    exact absurd h (by simp)
  | exhausted k =>
    rw [hx] at h
    exact absurd h (by simp)

/-! New arrays and structs -/

/-- What comes of the operands is a new array or struct. -/
theorem gains_of_makesAggregate {e : Expr} {v : Value} (he : e.makesAggregate)
    (h : expr limit fuel scope e m = .done v n) :
    ∃ vs k content, Yields limit scope e.operands m vs k ∧ e.aggregate? vs = some content ∧
      k.store.Gains content v n.store ∧ n = { k with store := n.store } := by
  cases fuel with
  | zero => exact absurd h (by simp [expr, exhausted])
  | succ fuel =>
    unfold expr at h
    cases e with
    | array items place =>
      obtain ⟨vs, k, hvs, h⟩ := bind_eq_done_iff.mp h
      obtain ⟨rfl, rfl⟩ := Outcome.done.inj h
      exact ⟨vs, k, _, yields_of_exprs hvs, rfl, k.store.gains_newArray _, rfl⟩
    | arrayOfSize size place =>
      obtain ⟨s, k, hs, h⟩ := bind_eq_done_iff.mp h
      unfold newArrayOfSize at h
      split at h
      · exact absurd h (by simp [fail])
      · rename_i hsize
        obtain ⟨rfl, rfl⟩ := Outcome.done.inj h
        exact ⟨[s], k, _, .cons fuel hs .nil, if_neg hsize, k.store.gains_newArray _, rfl⟩
    | struct fields place =>
      obtain ⟨entries, k, hentries, h⟩ := bind_eq_done_iff.mp h
      obtain ⟨vs, hvs, rfl⟩ := yields_of_fieldValues hentries
      obtain ⟨rfl, rfl⟩ := Outcome.done.inj h
      exact ⟨vs, k, _, hvs, rfl, k.store.gains_newStruct _, rfl⟩
    | _ => exact absurd he (by simp [Expr.makesAggregate])

/-- The names of a struct's fields come in a new array. -/
theorem gains_of_keys {f : Native} (hf : f.action = .keys) (hparams : f.params ≠ []) (cell : CellId)
    (rest : List Value) (place : Span) (m : Machine) :
    ∃ v n, callNative f (.struct cell :: rest) place m = .done v n ∧
      m.store.Gains (.array ((m.store.fields cell).names.map Value.string).toArray) v n.store ∧
      n = { m with store := n.store } := by
  have hfit : (f.fit (.struct cell :: rest)).getD 0 .null = .struct cell := by
    obtain ⟨param, params, hparam⟩ := List.exists_cons_of_ne_nil hparams
    simp [Native.fit, Native.arity, hparam]
  let names := ((m.store.fields cell).names.map Value.string).toArray
  refine ⟨(m.store.newArray names).1, { m with store := (m.store.newArray names).2 }, ?_,
    m.store.gains_newArray names, rfl⟩
  unfold callNative Native.call
  rw [hf]
  unfold NativeAction.run
  dsimp only
  rw [hfit]
  rfl

/-! Assignments -/

theorem position_eq_done {index : Int32} {length i : Nat} {place : Span}
    (h : position index length place m = .done i n) :
    i = index.toInt.toNat ∧ 0 ≤ index ∧ i < length ∧ n = m := by
  unfold position at h
  split at h
  · rename_i hrange
    obtain ⟨rfl, rfl⟩ := Outcome.done.inj h
    exact ⟨rfl, hrange.1, hrange.2, rfl⟩
  · exact absurd h (by simp [fail])

theorem position_eq_failed {index : Int32} {length : Nat} {place place' : Span} {fault : RuntimeFault}
    (h : position index length place m = .failed fault place' n) : n = m := by
  unfold position at h
  split at h
  · exact absurd h (by simp [Eval.pure])
  · exact (Outcome.failed.inj h).2.2.symm

theorem writeIndex_eq_done {target v w : Value} {index : Int32} {place : Span}
    (h : writeIndex target index v place m = .done w n) :
    ∃ cell, target = .array cell ∧ 0 ≤ index ∧ w = v ∧
      m.store.Assigned cell (.item index.toInt.toNat) v n.store ∧ n = { m with store := n.store } := by
  cases target with
  | array cell =>
    have h : (position index (m.store.items cell).size place >>= fun i => do
      change (·.setItem cell i v)
      pure v) m = .done w n := h
    obtain ⟨i, k, hi, hchange⟩ := bind_eq_done_iff.mp h
    obtain ⟨rfl, hindex, hlt, rfl⟩ := position_eq_done hi
    obtain ⟨rfl, rfl⟩ := Outcome.done.inj hchange
    exact ⟨cell, rfl, hindex, rfl, Store.assigned_setItem hlt _, rfl⟩
  | _ => exact absurd h (by simp [writeIndex, fail])

theorem writeIndex_eq_failed {target v : Value} {index : Int32} {place place' : Span}
    {fault : RuntimeFault} (h : writeIndex target index v place m = .failed fault place' n) : n = m := by
  cases target with
  | array cell =>
    have h : (position index (m.store.items cell).size place >>= fun i => do
      change (·.setItem cell i v)
      pure v) m = .failed fault place' n := h
    rcases bind_eq_failed h with h | ⟨i, k, -, h⟩
    · exact position_eq_failed h
    · exact absurd h (by simp [bind_apply, change, Eval.pure])
  | _ => exact (Outcome.failed.inj h).2.2.symm

theorem writeMember_eq_done {target v w : Value} {member : Name} {place : Span}
    (h : writeMember target member v place m = .done w n) :
    ∃ cell, target = .struct cell ∧ w = v ∧
      m.store.Assigned cell (.field member.text) v n.store ∧ n = { m with store := n.store } := by
  cases target with
  | struct cell =>
    obtain ⟨present, k, hpresent, h⟩ := bind_eq_done_iff.mp h
    obtain ⟨rfl, rfl⟩ := Outcome.done.inj hpresent
    split at h
    · rename_i hname
      obtain ⟨rfl, rfl⟩ := Outcome.done.inj h
      exact ⟨cell, rfl, rfl, Store.assigned_setField hname _, rfl⟩
    · exact absurd h (by simp [fail])
  | _ => exact absurd h (by simp [writeMember, fail])

theorem writeMember_eq_failed {target v : Value} {member : Name} {place place' : Span}
    {fault : RuntimeFault} (h : writeMember target member v place m = .failed fault place' n) :
    n = m := by
  cases target with
  | struct cell =>
    rcases bind_eq_failed h with h | ⟨present, k, hpresent, h⟩
    · exact absurd h (by simp [ask])
    · obtain ⟨rfl, rfl⟩ := Outcome.done.inj hpresent
      split at h
      · exact absurd h (by simp [bind_apply, change, Eval.pure])
      · exact (Outcome.failed.inj h).2.2.symm
  | _ => exact (Outcome.failed.inj h).2.2.symm

/-- An assignment that is done has changed the one slot, after the operands. -/
theorem assigned_of_assignsSlot {e : Expr} {w : Value} (he : e.assignsSlot)
    (h : expr limit fuel scope e m = .done w n) :
    ∃ vs k cell slot, Yields limit scope e.operands m vs k ∧ e.assigned? vs = some (cell, slot, w) ∧
      k.store.Assigned cell slot w n.store ∧ n = { k with store := n.store } := by
  cases fuel with
  | zero => exact absurd h (by simp [expr, exhausted])
  | succ fuel =>
    unfold expr at h
    cases e with
    | assignIndex target index value place =>
      obtain ⟨t, k, ht, h⟩ := bind_eq_done_iff.mp h
      obtain ⟨i, k', hi, h⟩ := bind_eq_done_iff.mp h
      obtain ⟨v, k'', hv, h⟩ := bind_eq_done_iff.mp h
      obtain ⟨cell, rfl, hindex, rfl, hassigned, hn⟩ := writeIndex_eq_done h
      exact ⟨_, k'', cell, _, .cons fuel ht (.cons fuel hi (.cons fuel hv .nil)), if_pos hindex,
        hassigned, hn⟩
    | assignMember target member value place =>
      obtain ⟨t, k, ht, h⟩ := bind_eq_done_iff.mp h
      obtain ⟨v, k', hv, h⟩ := bind_eq_done_iff.mp h
      obtain ⟨cell, rfl, rfl, hassigned, hn⟩ := writeMember_eq_done h
      exact ⟨_, k', cell, _, .cons fuel ht (.cons fuel hv .nil), rfl, hassigned, hn⟩
    | _ => exact absurd he (by simp [Expr.assignsSlot])

/-- Operands were evaluated in turn, and no more has happened: one of them failed, or all of them have
values. -/
def Stops (limit : Nat) (scope : FrameId) (es : List Expr) (m : Machine) (fault : RuntimeFault)
    (place : Span) (n : Machine) : Prop :=
  (∃ vs, Yields limit scope es m vs n) ∨
    ∃ before x after vs k fuel, es = before ++ x :: after ∧ Yields limit scope before m vs k ∧
      expr limit fuel scope x k = .failed fault place n

theorem stops_of_failed {e : Expr} {rest : List Expr} {fault : RuntimeFault} {place : Span}
    {f : Value → Eval β} (h : (expr limit fuel scope e >>= f) m = .failed fault place n)
    (hrest : ∀ v k, f v k = .failed fault place n → Stops limit scope rest k fault place n) :
    Stops limit scope (e :: rest) m fault place n := by
  rcases bind_eq_failed h with h | ⟨v, k, hv, h⟩
  · exact Or.inr ⟨[], e, rest, [], m, fuel, rfl, .nil, h⟩
  · rcases hrest v k h with ⟨vs, hvs⟩ | ⟨before, x, after, vs, k', fuel', rfl, hvs, hx⟩
    · exact Or.inl ⟨v :: vs, .cons fuel hv hvs⟩
    · exact Or.inr ⟨e :: before, x, after, v :: vs, k', fuel', rfl, .cons fuel hv hvs, hx⟩

/-- An assignment that fails has changed nothing itself. -/
theorem stops_of_assignsSlot {e : Expr} {fault : RuntimeFault} {place : Span} (he : e.assignsSlot)
    (h : expr limit fuel scope e m = .failed fault place n) :
    Stops limit scope e.operands m fault place n := by
  have hend : ∀ {k : Machine}, n = k → Stops limit scope [] k fault place n := by
    rintro k rfl
    exact Or.inl ⟨[], .nil⟩
  cases fuel with
  | zero => exact absurd h (by simp [expr, exhausted])
  | succ fuel =>
    unfold expr at h
    cases e with
    | assignIndex target index value at_ =>
      refine stops_of_failed h fun t k h => stops_of_failed h fun i k' h => ?_
      exact stops_of_failed h fun v k'' h => hend (writeIndex_eq_failed h)
    | assignMember target member value at_ =>
      refine stops_of_failed h fun t k h => ?_
      exact stops_of_failed h fun v k' h => hend (writeMember_eq_failed h)
    | _ => exact absurd he (by simp [Expr.assignsSlot])

end Eval

end ScriptEngine
