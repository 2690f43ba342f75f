import ScriptEngine.Proofs.Running.Characters
import ScriptEngine.Proofs.Running.FieldNames
import ScriptEngine.Proofs.Running.Intact

/-!
Arrays and structs in a session. They stay, with their lengths and with their fields, from any moment to
any later one. Expressions that make one, or assign to a slot of one, are settled by the values of their
operands: with those it is said what is made or changed, or why nothing is, and which of the two it will
be. The operands have their values with some amounts of fuel, and with enough of it all of them have.
-/
namespace ScriptEngine

namespace Expr

/-- Why an expression makes nothing, or assigns to nothing, when its operands have these values, and
the place where that is reported. -/
def refusal? (σ : Store) : Expr → List Value → Option (RuntimeFault × Span)
  | arrayOfSize _ place, [size] => some (.negativeSize size.toInt32, place)
  | assignIndex _ _ _ place, [.array cell, i, _] =>
    some (.indexOutOfBounds i.toInt32 (σ.items cell).size, place)
  | assignIndex _ _ _ place, [target, _, _] => some (.mismatch .array target.typeName, place)
  | assignMember _ name _ _, [.struct _, _] => some (.memberNotFound name.text, name.span)
  | assignMember _ _ _ place, [target, _] => some (.mismatch .struct target.typeName, place)
  | _, _ => none

end Expr

namespace Store

variable {σ : Store} {cell : CellId} {i : Nat} {name : String}

theorem isSome_slot?_item : (σ.slot? cell (.item i)).isSome ↔ i < (σ.items cell).size := by
  unfold slot? items
  rcases σ.cells[cell]? with _ | ⟨items | fields⟩ <;> simp [Cell.slot?]

theorem isSome_slot?_field : (σ.slot? cell (.field name)).isSome ↔ (σ.fields cell).has name := by
  unfold slot? fields
  rcases σ.cells[cell]? with _ | ⟨items | fields⟩ <;>
    simp [Cell.slot?, Entries.has, Entries.get?]

end Store

namespace Eval

variable {limit : Nat} {scope : FrameId} {m n k : Machine} {vs : List Value} {e : Expr}

theorem bind_of_done {α β : Type} {x : Eval α} {a : α} (h : x m = .done a k) (f : α → Eval β) :
    (x >>= f) m = f a k := by
  rw [bind_apply, h]

/-! Operands with enough fuel -/

theorem comes_of_done {fuel : Nat} {v : Value} (h : expr limit fuel scope e m = .done v n) :
    Setting.Comes ⟨limit, scope, m⟩ e (.done v n) :=
  ⟨fuel, fun _ hfuel => expr_eq_done h hfuel⟩

theorem Yields.of_cons {rest : List Expr} (h : Yields limit scope (e :: rest) m vs n) :
    ∃ v k vs', vs = v :: vs' ∧ Setting.Comes ⟨limit, scope, m⟩ e (.done v k) ∧
      Yields limit scope rest k vs' n := by
  cases h with
  | cons fuel hfirst hrest => exact ⟨_, _, _, rfl, comes_of_done hfirst, hrest⟩

theorem Yields.of_nil (h : Yields limit scope [] m vs n) : vs = [] ∧ n = m := by
  cases h
  exact ⟨rfl, rfl⟩

theorem Yields.exprs {es : List Expr} (h : Yields limit scope es m vs n) :
    ∃ enough, ∀ fuel, enough ≤ fuel → Eval.exprs limit fuel scope es m = .done vs n := by
  induction h with
  | nil =>
    refine ⟨1, fun fuel hfuel => ?_⟩
    obtain ⟨fuel, rfl⟩ := Nat.exists_eq_add_of_le' hfuel
    rfl
  | cons fuel hfirst _ ih =>
    obtain ⟨enough, hrest⟩ := ih
    refine ⟨max fuel enough + 1, fun more hmore => ?_⟩
    obtain ⟨more, rfl⟩ := Nat.exists_eq_add_one_of_ne_zero (Nat.ne_zero_of_lt hmore)
    have hdone := expr_eq_done hfirst (show fuel ≤ more by omega)
    exact bind_eq_done_iff.mpr ⟨_, _, hdone,
      bind_eq_done_iff.mpr ⟨_, _, hrest more (by omega), rfl⟩⟩

theorem Yields.fieldValues {fields : List (Name × Expr)}
    (h : Yields limit scope (fields.map Prod.snd) m vs n) (entries : Entries Value) :
    ∃ enough, ∀ fuel, enough ≤ fuel → Eval.fieldValues limit fuel scope entries fields m =
      .done (((fields.map fun field => field.1.text).zip vs).foldl
        (fun entries pair => entries.put pair.1 pair.2) entries) n := by
  induction fields generalizing m vs entries with
  | nil =>
    obtain ⟨rfl, rfl⟩ := h.of_nil
    refine ⟨1, fun fuel hfuel => ?_⟩
    obtain ⟨fuel, rfl⟩ := Nat.exists_eq_add_of_le' hfuel
    rfl
  | cons field rest ih =>
    obtain ⟨v, k, vs, rfl, ⟨enough, hfirst⟩, hrest⟩ := h.of_cons
    obtain ⟨enough', hrest⟩ := ih hrest (entries.put field.1.text v)
    refine ⟨max enough enough' + 1, fun more hmore => ?_⟩
    obtain ⟨more, rfl⟩ := Nat.exists_eq_add_one_of_ne_zero (Nat.ne_zero_of_lt hmore)
    exact bind_eq_done_iff.mpr ⟨_, _, hfirst more (by omega), hrest more (by omega)⟩

theorem comes_array {items : List Expr} (h : Yields limit scope items m vs k) (place : Span) :
    Setting.Comes ⟨limit, scope, m⟩ (.array items place) (newArray vs.toArray k) := by
  obtain ⟨enough, hexprs⟩ := h.exprs
  exact .of_succ enough fun fuel hfuel => bind_of_done (hexprs fuel hfuel) _

theorem comes_struct {fields : List (Name × Expr)}
    (h : Yields limit scope (fields.map Prod.snd) m vs k) (place : Span) :
    Setting.Comes ⟨limit, scope, m⟩ (.struct fields place)
      (newStruct (Entries.ofList ((fields.map fun field => field.1.text).zip vs)) k) := by
  obtain ⟨enough, hentries⟩ := h.fieldValues []
  exact .of_succ enough fun fuel hfuel => bind_of_done (hentries fuel hfuel) _

theorem comes_arrayOfSize {size : Expr} (h : Yields limit scope [size] m vs k) (place : Span) :
    ∃ v, vs = [v] ∧ Setting.Comes ⟨limit, scope, m⟩ (.arrayOfSize size place)
      (newArrayOfSize v.toInt32 place k) := by
  obtain ⟨v, k, vs, rfl, ⟨enough, hsize⟩, hrest⟩ := h.of_cons
  obtain ⟨rfl, rfl⟩ := hrest.of_nil
  exact ⟨v, rfl, .of_succ enough fun fuel hfuel => bind_of_done (hsize fuel hfuel) _⟩

theorem comes_assignIndex {target index value : Expr}
    (h : Yields limit scope [target, index, value] m vs k) (place : Span) :
    ∃ t i v, vs = [t, i, v] ∧ Setting.Comes ⟨limit, scope, m⟩ (.assignIndex target index value place)
      (writeIndex t i.toInt32 v place k) := by
  obtain ⟨t, k₁, vs₁, rfl, ⟨enough₁, htarget⟩, hrest⟩ := h.of_cons
  obtain ⟨i, k₂, vs₂, rfl, ⟨enough₂, hindex⟩, hrest⟩ := hrest.of_cons
  obtain ⟨v, k₃, vs₃, rfl, ⟨enough₃, hvalue⟩, hrest⟩ := hrest.of_cons
  obtain ⟨rfl, rfl⟩ := hrest.of_nil
  refine ⟨t, i, v, rfl, .of_succ (max enough₁ (max enough₂ enough₃)) fun fuel hfuel => ?_⟩
  refine (bind_of_done (htarget fuel (by omega)) _).trans ?_
  refine (bind_of_done (hindex fuel (by omega)) _).trans ?_
  exact bind_of_done (hvalue fuel (by omega)) _

theorem comes_assignMember {target value : Expr} (h : Yields limit scope [target, value] m vs k)
    (member : Name) (place : Span) :
    ∃ t v, vs = [t, v] ∧ Setting.Comes ⟨limit, scope, m⟩ (.assignMember target member value place)
      (writeMember t member v place k) := by
  obtain ⟨t, k₁, vs₁, rfl, ⟨enough₁, htarget⟩, hrest⟩ := h.of_cons
  obtain ⟨v, k₂, vs₂, rfl, ⟨enough₂, hvalue⟩, hrest⟩ := hrest.of_cons
  obtain ⟨rfl, rfl⟩ := hrest.of_nil
  refine ⟨t, v, rfl, .of_succ (max enough₁ enough₂) fun fuel hfuel => ?_⟩
  refine (bind_of_done (htarget fuel (by omega)) _).trans ?_
  exact bind_of_done (hvalue fuel (by omega)) _

theorem comes_callNative (place : Span) {callee : Name} {arguments : List Expr} {frame : FrameId}
    {f : Native} (hframe : m.store.resolve scope callee.text = some frame)
    (h : Yields limit scope arguments m vs k)
    (hcallee : k.store.getLocal? frame callee.text = some (.native f)) :
    Setting.Comes ⟨limit, scope, m⟩ (.call callee arguments place) (callNative f vs place k) := by
  obtain ⟨enough, harguments⟩ := h.exprs
  have hresolve : resolve scope callee m = .done frame m := by
    rw [resolve, hframe]
  have hfunction : ask (fun σ => (σ.getLocal? frame callee.text).getD .null) k =
      .done (.native f) k := by
    rw [ask, hcallee, Option.getD_some]
  refine .of_succ enough fun fuel hfuel => ?_
  refine (bind_of_done hresolve _).trans ?_
  refine (bind_of_done (harguments fuel hfuel) _).trans ?_
  exact bind_of_done hfunction _

/-! New arrays and structs -/

/-- When the operands have values, and there is something that is made out of these, it is made. -/
theorem makes_of_yields {content : Cell} (he : e.makesAggregate)
    (hvs : Yields limit scope e.operands m vs k) (hcontent : e.aggregate? vs = some content) :
    ∃ v n, Setting.Comes ⟨limit, scope, m⟩ e (.done v n) ∧ k.store.Gains content v n.store ∧
      n = { k with store := n.store } := by
  cases e with
  | array items place =>
    obtain rfl := Option.some.inj hcontent
    exact ⟨_, _, comes_array hvs place, k.store.gains_newArray _, rfl⟩
  | arrayOfSize size place =>
    obtain ⟨s, rfl, hcomes⟩ := comes_arrayOfSize hvs place
    rw [Expr.aggregate?] at hcontent
    split at hcontent
    · exact absurd hcontent (by simp)
    · rename_i hsign
      obtain rfl := Option.some.inj hcontent
      rw [newArrayOfSize, if_neg hsign] at hcomes
      exact ⟨_, _, hcomes, k.store.gains_newArray _, rfl⟩
  | struct fields place =>
    obtain rfl := Option.some.inj hcontent
    exact ⟨_, _, comes_struct hvs place, k.store.gains_newStruct _, rfl⟩
  | _ => exact absurd he (by simp [Expr.makesAggregate])

/-- When there is nothing to make, the evaluation fails, after the operands. -/
theorem fails_to_make (he : e.makesAggregate) (hvs : Yields limit scope e.operands m vs k)
    (hnone : e.aggregate? vs = none) :
    ∃ fault place, e.refusal? k.store vs = some (fault, place) ∧
      Setting.Comes ⟨limit, scope, m⟩ e (.failed fault place k) := by
  cases e with
  | arrayOfSize size place =>
    obtain ⟨s, rfl, hcomes⟩ := comes_arrayOfSize hvs place
    rw [Expr.aggregate?] at hnone
    split at hnone
    · rename_i hsign
      rw [newArrayOfSize, if_pos hsign] at hcomes
      exact ⟨_, _, rfl, hcomes⟩
    · exact absurd hnone (by simp)
  | array items place => exact absurd hnone (by simp [Expr.aggregate?])
  | struct fields place => exact absurd hnone (by simp [Expr.aggregate?])
  | _ => exact absurd he (by simp [Expr.makesAggregate])

/-! Assignments -/

theorem position_of_inside {index : Int32} {length : Nat} (place : Span) (hindex : 0 ≤ index)
    (hlt : index.toInt.toNat < length) : position index length place m = .done index.toInt.toNat m := by
  rw [position, if_pos ⟨hindex, hlt⟩]
  rfl

theorem position_of_outside {index : Int32} {length : Nat} (place : Span)
    (h : ¬ (0 ≤ index ∧ index.toInt.toNat < length)) :
    position index length place m = .failed (.indexOutOfBounds index length) place m := by
  rw [position, if_neg h]
  rfl

theorem writeIndex_array (cell : CellId) (index : Int32) (v : Value) (place : Span) (m : Machine) :
    writeIndex (.array cell) index v place m =
      if 0 ≤ index ∧ (m.store.slot? cell (.item index.toInt.toNat)).isSome then
        .done v { m with store := m.store.setItem cell index.toInt.toNat v }
      else .failed (.indexOutOfBounds index (m.store.items cell).size) place m := by
  refine (bind_of_done (k := m) (x := ask fun σ => (σ.items cell).size) rfl _).trans ?_
  by_cases h : 0 ≤ index ∧ (m.store.slot? cell (.item index.toInt.toNat)).isSome
  · have hposition := position_of_inside (m := m) place h.1 (Store.isSome_slot?_item.mp h.2)
    rw [if_pos h]
    exact bind_of_done hposition _
  · rw [if_neg h, bind_apply]
    rw [Store.isSome_slot?_item] at h
    rw [position_of_outside place h]

theorem writeMember_struct (cell : CellId) (member : Name) (v : Value) (place : Span) (m : Machine) :
    writeMember (.struct cell) member v place m =
      if (m.store.slot? cell (.field member.text)).isSome then
        .done v { m with store := m.store.setField cell member.text v }
      else .failed (.memberNotFound member.text) member.span m := by
  refine (bind_of_done (k := m) (x := ask fun σ => (σ.fields cell).has member.text) rfl _).trans ?_
  by_cases h : (m.store.slot? cell (.field member.text)).isSome
  · rw [if_pos h, if_pos (Store.isSome_slot?_field.mp h)]
    rfl
  · rw [if_neg h, if_neg (mt Store.isSome_slot?_field.mpr h)]
    rfl

/-- When the operands have values, and they say of a slot that is there that it is assigned to, it is. -/
theorem assigns_of_yields {cell : CellId} {slot : Slot} {w : Value} (he : e.assignsSlot)
    (hvs : Yields limit scope e.operands m vs k) (hslot : e.assigned? vs = some (cell, slot, w))
    (hthere : (k.store.slot? cell slot).isSome) :
    ∃ n, Setting.Comes ⟨limit, scope, m⟩ e (.done w n) ∧ k.store.Assigned cell slot w n.store ∧
      n = { k with store := n.store } := by
  cases e with
  | assignIndex target index value place =>
    obtain ⟨t, i, v, rfl, hcomes⟩ := comes_assignIndex hvs place
    cases t with
    | array other =>
      rw [Expr.assigned?] at hslot
      split at hslot
      · rename_i hsign
        obtain ⟨rfl, rfl, rfl⟩ : other = cell ∧ .item i.toInt32.toInt.toNat = slot ∧ v = w := by
          simpa using hslot
        rw [writeIndex_array, if_pos ⟨hsign, hthere⟩] at hcomes
        exact ⟨_, hcomes, Store.assigned_setItem (Store.isSome_slot?_item.mp hthere) v, rfl⟩
      · exact absurd hslot (by simp)
    | _ => exact absurd hslot (by simp [Expr.assigned?])
  | assignMember target member value place =>
    obtain ⟨t, v, rfl, hcomes⟩ := comes_assignMember hvs member place
    cases t with
    | struct other =>
      obtain ⟨rfl, rfl, rfl⟩ : other = cell ∧ .field member.text = slot ∧ v = w := by
        simpa [Expr.assigned?] using hslot
      rw [writeMember_struct, if_pos hthere] at hcomes
      exact ⟨_, hcomes, Store.assigned_setField (Store.isSome_slot?_field.mp hthere) v, rfl⟩
    | _ => exact absurd hslot (by simp [Expr.assigned?])
  | _ => exact absurd he (by simp [Expr.assignsSlot])

/-- When there is no slot that they say is assigned to, the evaluation fails, after the operands. -/
theorem fails_to_assign (he : e.assignsSlot) (hvs : Yields limit scope e.operands m vs k)
    (hnone : ∀ cell slot w, e.assigned? vs = some (cell, slot, w) → k.store.slot? cell slot = none) :
    ∃ fault place, e.refusal? k.store vs = some (fault, place) ∧
      Setting.Comes ⟨limit, scope, m⟩ e (.failed fault place k) := by
  cases e with
  | assignIndex target index value place =>
    obtain ⟨t, i, v, rfl, hcomes⟩ := comes_assignIndex hvs place
    cases t with
    | array cell =>
      have hmissing : ¬ (0 ≤ i.toInt32 ∧
          (k.store.slot? cell (.item i.toInt32.toInt.toNat)).isSome) := by
        rintro ⟨hsign, hthere⟩
        rw [hnone cell _ v (if_pos hsign)] at hthere
        exact absurd hthere (by simp)
      rw [writeIndex_array, if_neg hmissing] at hcomes
      exact ⟨_, _, rfl, hcomes⟩
    | _ => exact ⟨_, _, rfl, hcomes⟩
  | assignMember target member value place =>
    obtain ⟨t, v, rfl, hcomes⟩ := comes_assignMember hvs member place
    cases t with
    | struct cell =>
      have hmissing : ¬ (k.store.slot? cell (.field member.text)).isSome := by
        rw [hnone cell _ v rfl]
        simp
      rw [writeMember_struct, if_neg hmissing] at hcomes
      exact ⟨_, _, rfl, hcomes⟩
    | _ => exact ⟨_, _, rfl, hcomes⟩
  | _ => exact absurd he (by simp [Expr.assignsSlot])

end Eval

/-! The laws -/

/-- Arrays and structs stay. From any moment to any moment inside it, between any two states of a run, to
the end of a run that has an end, and through later runs, arrays keep their lengths and structs keep
their fields in their order. No struct comes to have two fields of one name, so a name stands for one
slot, and nothing comes to stand for an array or a struct that was never made. -/
structure Machine.KeepsAggregates (m : Machine) (job : Job) : Prop where
  inside : ∀ limit M N, Moment.Reaches limit M N → M.machine.store.Retains N.machine.store
  between : ∀ n n', m.Visits job n → m.Visits job n' →
    ∀ (cell : CellId) (content content' : Cell), n.store.cells[cell]? = some content →
      n'.store.cells[cell]? = some content' → content'.shape = content.shape
  toEnd : ∀ n, m.Visits job n → (m.perform job).1 ≠ .exhausted →
    ∀ later, n.store.Retains ((m.perform job).2.performAll later).store
  runs : ∀ jobs, m.store.Retains (m.performAll jobs).store
  names : m.store.Distinct → ∀ jobs, (m.performAll jobs).store.Distinct
  references : m.store.Intact → job.layers.Alive m.store → ∀ n, m.Visits job n → n.store.Intact

/-- Literals, `array[n]` and `keys` make arrays and structs with numbers that no other has. They do so
whenever their operands have values, but for a negative size, and there is no other way for them to be
done. -/
structure Setting.MakesAggregates (S : Setting) : Prop where
  made : ∀ fuel e v n, e.makesAggregate → Eval.expr S.limit fuel S.scope e S.machine = .done v n →
    ∃ vs k content, Eval.Yields S.limit S.scope e.operands S.machine vs k ∧
      e.aggregate? vs = some content ∧ k.store.Gains content v n.store ∧ n = { k with store := n.store }
  makes : ∀ e vs k content, e.makesAggregate →
    Eval.Yields S.limit S.scope e.operands S.machine vs k → e.aggregate? vs = some content →
      ∃ v n, S.Comes e (.done v n) ∧ k.store.Gains content v n.store ∧ n = { k with store := n.store }
  fails : ∀ e vs k, e.makesAggregate → Eval.Yields S.limit S.scope e.operands S.machine vs k →
    e.aggregate? vs = none → ∃ fault place, e.refusal? k.store vs = some (fault, place) ∧
      S.Comes e (.failed fault place k)
  keys : ∀ (f : Native) cell rest place (k : Machine), f.action = .keys → f.params ≠ [] →
    ∃ v n, Eval.callNative f (.struct cell :: rest) place k = .done v n ∧
      k.store.Gains (.array ((k.store.fields cell).names.map Value.string).toArray) v n.store ∧
      n = { k with store := n.store }
  keysCalled : ∀ (callee : Name) arguments place frame (f : Native) cell rest k,
    S.machine.store.resolve S.scope callee.text = some frame →
    Eval.Yields S.limit S.scope arguments S.machine (.struct cell :: rest) k →
    k.store.getLocal? frame callee.text = some (.native f) → f.action = .keys → f.params ≠ [] →
      ∃ v n, S.Comes (.call callee arguments place) (.done v n) ∧
        k.store.Gains (.array ((k.store.fields cell).names.map Value.string).toArray) v n.store ∧
        n = { k with store := n.store }

/-- An assignment to an element or a member that is done has changed one slot, of the one array or struct,
since the operands were evaluated; one that fails has changed nothing since then. When the operands
have values, it is done if the slot that they say is there, and fails otherwise. -/
structure Setting.AssignsSlots (S : Setting) : Prop where
  assigned : ∀ fuel e w n, e.assignsSlot → Eval.expr S.limit fuel S.scope e S.machine = .done w n →
    ∃ vs k cell slot, Eval.Yields S.limit S.scope e.operands S.machine vs k ∧
      e.assigned? vs = some (cell, slot, w) ∧ k.store.Assigned cell slot w n.store ∧
      n = { k with store := n.store }
  assigns : ∀ e vs k cell slot w, e.assignsSlot →
    Eval.Yields S.limit S.scope e.operands S.machine vs k → e.assigned? vs = some (cell, slot, w) →
      (k.store.slot? cell slot).isSome →
        ∃ n, S.Comes e (.done w n) ∧ k.store.Assigned cell slot w n.store ∧
          n = { k with store := n.store }
  stops : ∀ fuel e fault place n, e.assignsSlot →
    Eval.expr S.limit fuel S.scope e S.machine = .failed fault place n →
      Eval.Stops S.limit S.scope e.operands S.machine fault place n
  fails : ∀ e vs k, e.assignsSlot → Eval.Yields S.limit S.scope e.operands S.machine vs k →
    (∀ cell slot w, e.assigned? vs = some (cell, slot, w) → k.store.slot? cell slot = none) →
      ∃ fault place, e.refusal? k.store vs = some (fault, place) ∧ S.Comes e (.failed fault place k)

theorem Machine.keepsAggregates (m : Machine) (job : Job) : m.KeepsAggregates job where
  inside := fun _ _ _ hN => hN.onward.shapes
  between := by
    intro n n' hn hn' cell content content' hcell hcell'
    obtain ⟨σ, hσ, hσ'⟩ := hn.common hn'
    obtain ⟨last, hlast, hshape⟩ := hσ cell content hcell
    obtain ⟨last', hlast', hshape'⟩ := hσ' cell content' hcell'
    obtain rfl := Option.some.inj (hlast.symm.trans hlast')
    exact hshape'.symm.trans hshape
  toEnd := fun _ hn hends later => (hn.retains_perform hends).trans (retains_performAll _ later)
  runs := m.retains_performAll
  names := distinct_performAll
  references := fun hm halive _ hn => hn.intact hm halive

theorem Setting.makesAggregates (S : Setting) : S.MakesAggregates where
  made := fun _ _ _ _ => Eval.gains_of_makesAggregate
  makes := fun _ _ _ _ => Eval.makes_of_yields
  fails := fun _ _ _ => Eval.fails_to_make
  keys := fun _ cell rest place k hf hparams => Eval.gains_of_keys hf hparams cell rest place k
  keysCalled := by
    intro callee arguments place frame f cell rest k hframe harguments hcallee hf hparams
    obtain ⟨v, n, hcall, hgains, hn⟩ := Eval.gains_of_keys hf hparams cell rest place k
    have hcomes := Eval.comes_callNative place hframe harguments hcallee
    rw [hcall] at hcomes
    exact ⟨v, n, hcomes, hgains, hn⟩

theorem Setting.assignsSlots (S : Setting) : S.AssignsSlots where
  assigned := fun _ _ _ _ => Eval.assigned_of_assignsSlot
  assigns := fun _ _ _ _ _ _ => Eval.assigns_of_yields
  stops := fun _ _ _ _ _ => Eval.stops_of_assignsSlot
  fails := fun _ _ _ => Eval.fails_to_assign

/-- Arrays and structs are closed. They stay as long as the session lasts, with their lengths and their
fields. Literals and `keys` make new ones, whenever their operands have values that allow it. And an
assignment changes the one slot that its operands say, if that is there, and otherwise nothing. -/
theorem aggregates_closed (m : Machine) (job : Job) (S : Setting) :
    m.KeepsAggregates job ∧ S.MakesAggregates ∧ S.AssignsSlots :=
  ⟨m.keepsAggregates job, S.makesAggregates, S.assignsSlots⟩

end ScriptEngine
