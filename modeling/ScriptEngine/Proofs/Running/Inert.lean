import ScriptEngine.Proofs.Running.Composition
import ScriptEngine.Proofs.Running.Intact

/-!
Expressions that change nothing. When no call, no assignment and no step stands in an expression, its
evaluation ends with a value or with a fault, and whichever it is, there may be new arrays and structs
afterwards, but nothing that was there has changed. Evaluated once more it comes to the same fault, or to
the same value but for what is new. The first part is by induction on the fuel. For the second part the
machine after the first evaluation goes together with the machine before it, and on machines that go
together evaluations come to the same.
-/
namespace ScriptEngine

namespace Expr

/-- The expression itself calls something, or it changes something that is there. -/
def acts : Expr → Bool
  | assign _ _ _ => true
  | adjust _ _ _ => true
  | assignIndex _ _ _ _ => true
  | assignMember _ _ _ _ => true
  | call _ _ _ => true
  | _ => false

/-- Neither the expression nor anything in it acts. -/
inductive Inert : Expr → Prop where
  | of_operands {e : Expr} (hacts : e.acts = false) (hoperands : ∀ x ∈ e.operands, x.Inert) : e.Inert

theorem sizeOf_lt_of_mem_fields {fields : List (Name × Expr)} {x : Expr}
    (hx : x ∈ fields.map Prod.snd) : sizeOf x < sizeOf fields := by
  obtain ⟨field, hfield, rfl⟩ := List.mem_map.mp hx
  have hlt := List.sizeOf_lt_of_mem hfield
  obtain ⟨name, e⟩ := field
  rw [Prod.mk.sizeOf_spec] at hlt
  change sizeOf e < sizeOf fields
  omega

theorem sizeOf_lt_of_mem_operands {e x : Expr} (hx : x ∈ e.operands) : sizeOf x < sizeOf e := by
  cases e with
  | array items | call callee items =>
    have hlt : sizeOf x < sizeOf items := List.sizeOf_lt_of_mem hx
    simp
    omega
  | struct fields =>
    have hlt : sizeOf x < sizeOf fields := sizeOf_lt_of_mem_fields hx
    simp
    omega
  | _ =>
    simp only [operands, List.mem_cons, List.not_mem_nil, or_false] at hx
    all_goals
      simp
      grind

end Expr

/-- The machine with these arrays and structs besides those that there are. -/
def Machine.withCells (m : Machine) (made : Array Cell) : Machine :=
  { m with store := { m.store with cells := m.store.cells ++ made } }

/-- The evaluation has come to an end by itself, unless it ran out of fuel that was not enough. All that
it may have done is to make arrays and structs. -/
inductive Outcome.Calm {α : Type} (m : Machine) (enough : Prop) : Outcome α → Prop where
  | done (a : α) (made : Array Cell) : Calm m enough (.done a (m.withCells made))
  | failed (fault : RuntimeFault) (place : Span) (made : Array Cell) :
      Calm m enough (.failed fault place (m.withCells made))
  | exhausted (h : ¬ enough) (made : Array Cell) : Calm m enough (.exhausted (m.withCells made))

namespace Machine

theorem withCells_nil (m : Machine) : m.withCells #[] = m := by
  simp [withCells]

theorem withCells_withCells (m : Machine) (made made' : Array Cell) :
    (m.withCells made).withCells made' = m.withCells (made ++ made') := by
  simp [withCells, Array.append_assoc]

end Machine

theorem Outcome.Calm.after {α : Type} {m : Machine} {enough : Prop} {made : Array Cell}
    {outcome : Outcome α} (h : outcome.Calm (m.withCells made) enough) : outcome.Calm m enough := by
  cases h with
  | done a made' => exact m.withCells_withCells made made' ▸ .done a _
  | failed fault place made' => exact m.withCells_withCells made made' ▸ .failed fault place _
  | exhausted h made' => exact m.withCells_withCells made made' ▸ .exhausted h _

namespace Eval

variable {α β : Type} {enough enough' : Prop} {limit fuel : Nat}

def Calm (enough : Prop) (x : Eval α) : Prop := ∀ m, (x m).Calm m enough

theorem Calm.mono {x : Eval α} (h : x.Calm enough) (henough : enough' → enough) : x.Calm enough' := by
  intro m
  have hx := h m
  generalize x m = outcome at hx
  cases hx with
  | done a made => exact .done a made
  | failed fault place made => exact .failed fault place made
  | exhausted h made => exact .exhausted (mt henough h) made

theorem Calm.bind {x : Eval α} {f : α → Eval β} (h : x.Calm enough) (hf : ∀ a, (f a).Calm enough) :
    (x >>= f).Calm enough := by
  intro m
  have hx := h m
  rw [bind_apply]
  generalize x m = outcome at hx
  cases hx with
  | done a made => exact (hf a (m.withCells made)).after
  | failed fault place made => exact .failed fault place made
  | exhausted h made => exact .exhausted h made

/-- What only looks at the store is calm. -/
theorem Inspects.calm {x : Eval α} (h : x.Inspects) : x.Calm enough := by
  intro m
  rcases h m.store with ⟨a, hdone⟩ | ⟨fault, place, -, hfailed⟩
  · rw [hdone m rfl]
    exact m.withCells_nil ▸ .done a #[]
  · rw [hfailed m rfl]
    exact m.withCells_nil ▸ .failed fault place #[]

theorem calm_newArray (items : Array Value) : (newArray items).Calm enough :=
  fun m => .done (Value.array m.store.cells.size) #[Cell.array items]

theorem calm_newStruct (fields : Entries Value) : (newStruct fields).Calm enough :=
  fun m => .done (Value.struct m.store.cells.size) #[Cell.struct fields]

theorem calm_newArrayOfSize (size : Int32) (place : Span) : (newArrayOfSize size place).Calm enough := by
  unfold newArrayOfSize
  split
  · exact (inspects_fail rfl place).calm
  · exact calm_newArray _

theorem calm_exhausted (h : ¬ enough) : (exhausted : Eval α).Calm enough :=
  fun m => m.withCells_nil ▸ .exhausted h #[]

/-- So much fuel is enough for what is no larger. -/
structure Calms (limit fuel : Nat) : Prop where
  expr : ∀ scope e, e.Inert → (expr limit fuel scope e).Calm (sizeOf e ≤ fuel)
  exprs : ∀ scope es, (∀ e ∈ es, e.Inert) → (exprs limit fuel scope es).Calm (sizeOf es ≤ fuel)
  fieldValues : ∀ scope entries fields, (∀ e ∈ fields.map Prod.snd, e.Inert) →
    (fieldValues limit fuel scope entries fields).Calm (sizeOf fields ≤ fuel)

theorem Calms.operand (ih : Calms limit fuel) (scope : FrameId) {e x : Expr}
    (hoperands : ∀ x ∈ e.operands, x.Inert) (hx : x ∈ e.operands) :
    (Eval.expr limit fuel scope x).Calm (sizeOf e ≤ fuel + 1) :=
  (ih.expr scope x (hoperands x hx)).mono fun h =>
    Nat.le_of_lt_succ (Nat.lt_of_lt_of_le (Expr.sizeOf_lt_of_mem_operands hx) h)

theorem Calms.expr_succ (ih : Calms limit fuel) (scope : FrameId) (e : Expr) (he : e.Inert) :
    (Eval.expr limit (fuel + 1) scope e).Calm (sizeOf e ≤ fuel + 1) := by
  obtain ⟨hacts, hoperands⟩ := he
  have hoperand := fun x hx => ih.operand scope (x := x) hoperands hx
  unfold Eval.expr
  cases e with
  | literal value _ => exact (inspects_pure _).calm
  | «variable» name => exact (inspects_readVariable scope name).calm
  | array items _ =>
    refine ((ih.exprs scope items hoperands).mono fun h => ?_).bind fun vs => calm_newArray _
    rw [Expr.array.sizeOf_spec] at h
    omega
  | arrayOfSize size place =>
    exact (hoperand size (by simp [Expr.operands])).bind fun v => calm_newArrayOfSize _ place
  | struct fields _ =>
    refine ((ih.fieldValues scope [] fields hoperands).mono fun h => ?_).bind calm_newStruct
    rw [Expr.struct.sizeOf_spec] at h
    omega
  | index target index place =>
    refine (hoperand target (by simp [Expr.operands])).bind fun t => ?_
    refine (hoperand index (by simp [Expr.operands])).bind fun i => ?_
    exact (inspects_readIndex t i.toInt32 place).calm
  | member target member place =>
    refine (hoperand target (by simp [Expr.operands])).bind fun t => ?_
    exact (inspects_readMember t member place).calm
  | binary op left right place =>
    refine (hoperand left (by simp [Expr.operands])).bind fun a => ?_
    refine (hoperand right (by simp [Expr.operands])).bind fun b => ?_
    exact (inspects_applyBinary op a b place).calm
  | unary op operand _ =>
    exact (hoperand operand (by simp [Expr.operands])).bind fun v => (inspects_pure _).calm
  | paren inner _ => exact hoperand inner (by simp [Expr.operands])
  | _ => exact absurd hacts (by simp [Expr.acts])

theorem Calms.exprs_succ (ih : Calms limit fuel) (scope : FrameId) (es : List Expr)
    (hes : ∀ e ∈ es, e.Inert) :
    (Eval.exprs limit (fuel + 1) scope es).Calm (sizeOf es ≤ fuel + 1) := by
  cases es with
  | nil => exact (inspects_pure _).calm
  | cons e rest =>
    rw [List.forall_mem_cons] at hes
    rw [List.cons.sizeOf_spec]
    refine ((ih.expr scope e hes.1).mono fun h => ?_).bind fun v => ?_
    · omega
    · refine ((ih.exprs scope rest hes.2).mono fun h => ?_).bind fun vs => (inspects_pure _).calm
      omega

theorem Calms.fieldValues_succ (ih : Calms limit fuel) (scope : FrameId) (entries : Entries Value)
    (fields : List (Name × Expr)) (hfields : ∀ e ∈ fields.map Prod.snd, e.Inert) :
    (Eval.fieldValues limit (fuel + 1) scope entries fields).Calm (sizeOf fields ≤ fuel + 1) := by
  cases fields with
  | nil => exact (inspects_pure _).calm
  | cons field rest =>
    obtain ⟨name, e⟩ := field
    rw [List.map_cons, List.forall_mem_cons] at hfields
    rw [List.cons.sizeOf_spec, Prod.mk.sizeOf_spec]
    refine ((ih.expr scope e hfields.1).mono fun h => ?_).bind fun v => ?_
    · omega
    · refine (ih.fieldValues scope (entries.put name.text v) rest hfields.2).mono fun h => ?_
      omega

theorem calms (limit fuel : Nat) : Calms limit fuel := by
  induction fuel with
  | zero =>
    have hsome : ∀ e : Expr, ¬ sizeOf e ≤ 0 := fun e h => by cases e <;> simp at h
    exact {
      expr := fun _ e _ => calm_exhausted (hsome e)
      exprs := fun _ es _ => calm_exhausted fun h => by cases es <;> simp at h
      fieldValues := fun _ _ fields _ => calm_exhausted fun h => by cases fields <;> simp at h
    }
  | succ fuel ih =>
    exact {
      expr := ih.expr_succ
      exprs := ih.exprs_succ
      fieldValues := ih.fieldValues_succ
    }

end Eval

/-! Once more -/

theorem Pairing.Grows.pairs_iff {p q : Pairing} (h : p.Grows q) (hleft : q.left = p.left) {i j : Nat} :
    q.pairs i j ↔ p.pairs i j := by
  refine ⟨fun hij => ?_, h.kept i j⟩
  rcases h.fresh i j hij with hij | ⟨hnew, -⟩
  · exact hij
  · exact absurd (hleft ▸ (q.below i j hij).1) (Nat.not_lt_of_le hnew)

namespace Matching

/-- What there is in the first machine goes together with itself in the second one, whose further arrays
and structs go together with nothing. -/
def again (m : Machine) (made : Array Cell) : Matching :=
  (same .everything m.store).await
    (show (same .everything m.store).Reserves (m.withCells made).store from
      ⟨Nat.le_refl _, Array.size_append ▸ Nat.le_add_right _ _, Nat.le_refl _⟩)

theorem grows_again (m : Machine) (made : Array Cell) : (same .everything m.store).Grows (again m made) :=
  grows_await _

theorem machines_again {m : Machine} (h : m.store.Intact) (made : Array Cell) :
    (again m made).Machines m (m.withCells made) := by
  have hgrows := grows_again m made
  have hlikens := likens_same h
  refine ⟨⟨⟨rfl, rfl⟩, ⟨rfl, rfl⟩, ⟨rfl, rfl⟩, fun id id' hid => ?_, ?_⟩, rfl, rfl, rfl⟩
  · exact rel_imp (fun _ _ hframe => hframe.mono hgrows) (hlikens.frames id id' hid)
  · rintro cell _ ⟨rfl, hlt, -⟩
    have hsame := hlikens.cells cell cell ⟨rfl, hlt, trivial⟩
    rw [show (m.withCells made).store.cells[cell]? = m.store.cells[cell]? from
      Array.getElem?_append_left hlt]
    exact rel_imp (fun _ _ hcontent => hcontent.mono hgrows) hsame

/-- What was there in the first machine goes together with itself and with nothing else. What goes
together besides are arrays and structs, those that were not there in the first machine with those that
were not there in the second one. -/
structure Renews (N : Matching) (m n : Machine) : Prop where
  frames : ∀ id id', N.frames.pairs id id' ↔ id = id' ∧ id < m.store.frames.size
  identities : ∀ i i', N.identities.pairs i i' ↔ i = i' ∧ i < m.store.nextIdentity
  old : ∀ cell < m.store.cells.size, N.cells.pairs cell cell
  new : ∀ cell cell', N.cells.pairs cell cell' →
    cell = cell' ∧ cell < m.store.cells.size ∨
      m.store.cells.size ≤ cell ∧ n.store.cells.size ≤ cell'

theorem Grows.renews {N : Matching} {m : Machine} {made : Array Cell} {σ : Store}
    (hN : (again m made).Grows N) (hlikens : N.Likens (m.withCells made).store σ) :
    N.Renews m (m.withCells made) := by
  refine ⟨fun id id' => ?_, fun i i' => ?_, fun cell hcell => ?_, fun cell cell' hpairs => ?_⟩
  · rw [hN.frames.pairs_iff hlikens.frameCount.1]
    exact and_congr_right fun _ => and_iff_left trivial
  · rw [hN.identities.pairs_iff hlikens.identityCount.1]
    exact and_congr_right fun _ => and_iff_left trivial
  · exact hN.cells.kept cell cell ⟨rfl, hcell, trivial⟩
  · rcases hN.cells.fresh cell cell' hpairs with ⟨rfl, hlt, -⟩ | hnew
    · exact Or.inl ⟨rfl, hlt⟩
    · exact Or.inr hnew

end Matching

/-- The second evaluation begins on the machine that the first one, which began on `m`, has left, and
they come to the same: they fail for the same reason at the same place, or the values have the same text
and differ at most in which of the new arrays and structs they stand for. -/
inductive Outcome.Repeats (m : Machine) : Outcome Value → Outcome Value → Prop where
  | done {N : Matching} {v v' : Value} {n n' : Machine} (hN : N.Renews m n)
      (hstore : N.Likens n.store n'.store) (hv : N.Alike v v')
      (htext : v'.text n'.store = v.text n.store) : Repeats m (.done v n) (.done v' n')
  | failed {fault : RuntimeFault} {place : Span} {n n' : Machine} :
      Repeats m (.failed fault place n) (.failed fault place n')
  | exhausted {n n' : Machine} : Repeats m (.exhausted n) (.exhausted n')

theorem Outcome.Calm.machine {α : Type} {m : Machine} {enough : Prop} {outcome : Outcome α}
    (h : outcome.Calm m enough) : ∃ made, outcome.machine = m.withCells made := by
  cases h with
  | done _ made => exact ⟨made, rfl⟩
  | failed _ _ made => exact ⟨made, rfl⟩
  | exhausted _ made => exact ⟨made, rfl⟩

theorem Matching.Meets.repeats {m : Machine} {made : Array Cell} {enough : Prop}
    {first second : Outcome Value} (h : (again m made).Meets Alike first second)
    (hcalm : first.Calm m enough) (hmade : first.machine = m.withCells made) :
    first.Repeats m second := by
  cases h with
  | done hN hn hv =>
    subst hmade
    exact .done (hN.renews hn.store) hn.store hv (hn.store.text hv)
  | signalled => cases hcalm
  | failed => exact .failed
  | exhausted => exact .exhausted

/-- An expression in which nothing acts signals nothing, it comes to an end when there is fuel enough, and
besides new arrays and structs it leaves the machine as it was. Evaluated twice in a row it comes to the
same. -/
theorem Eval.expr_of_inert {e : Expr} (he : e.Inert) (limit : Nat) (scope : FrameId) (m : Machine) :
    (∀ fuel, (expr limit fuel scope e m).Calm m (sizeOf e ≤ fuel)) ∧
      (Moment.Intact ⟨.expr scope e, m⟩ → ∀ fuel, (expr limit fuel scope e m).Repeats m
        (expr limit fuel scope e (expr limit fuel scope e m).machine)) := by
  have hcalm := fun fuel => (calms limit fuel).expr scope e he m
  refine ⟨hcalm, fun hM fuel => ?_⟩
  obtain ⟨made, hmade⟩ := (hcalm fuel).machine
  have hscope : (Matching.again m made).frames.pairs scope scope := Matching.pairs_same hM.task
  have hmeets := (parallels limit fuel).expr e hscope _ _ _ (.refl _)
    (Matching.machines_again hM.store made)
  rw [hmade]
  exact hmeets.repeats (hcalm fuel) hmade

/-- A variable `x` stands for an array with the number one in it. -/
def Machine.keeping : Machine :=
  (lone.perform ⟨5, 20, ⟨0, none⟩, ⟨[.declare ⟨"x", default⟩
    (some (.array [.literal (.integer 1) default] default)) default], default⟩, .silent, []⟩).2

/-- The array `[x, x[0] + 1]`. -/
def Expr.listing : Expr :=
  .array [.variable ⟨"x", default⟩, .binary .add
    (.index (.variable ⟨"x", default⟩) (.literal (.integer 0) default) default)
    (.literal (.integer 1) default) default] default

theorem Expr.listing_inert : listing.Inert := by
  have hleaf : ∀ e : Expr, e.acts = false → e.operands = [] → e.Inert :=
    fun e hacts hoperands => .of_operands hacts (by simp [hoperands])
  have hpair : ∀ e x y : Expr, e.acts = false → e.operands = [x, y] → x.Inert → y.Inert → e.Inert :=
    fun e x y hacts hoperands hx hy => .of_operands hacts (by simp [hoperands, hx, hy])
  have hx := hleaf (.variable ⟨"x", default⟩) rfl rfl
  have hnumber := fun n => hleaf (.literal (.integer n) default) rfl rfl
  refine hpair listing _ _ rfl rfl hx (hpair _ _ _ rfl rfl ?_ (hnumber 1))
  exact hpair _ _ _ rfl rfl hx (hnumber 0)

theorem Eval.expr_of_inert_listing :
    expr 5 9 0 .listing .keeping = .done (.array 1)
        (Machine.keeping.withCells #[.array #[.array 0, .integer 2]]) ∧
      (expr 5 9 0 .listing .keeping).Calm .keeping (sizeOf Expr.listing ≤ 9) ∧
      (expr 5 9 0 .listing .keeping).Repeats .keeping
        (expr 5 9 0 .listing (Machine.keeping.withCells #[.array #[.array 0, .integer 2]])) := by
  have hdone : expr 5 9 0 .listing .keeping = .done (.array 1)
      (Machine.keeping.withCells #[.array #[.array 0, .integer 2]]) := rfl
  have hintact : Moment.Intact ⟨.expr 0 .listing, .keeping⟩ :=
    ⟨Machine.intact_perform Machine.lone_intact Machine.lone_alive,
      (by decide : 0 < Machine.keeping.store.frames.size)⟩
  obtain ⟨hcalm, htwice⟩ := expr_of_inert Expr.listing_inert 5 0 .keeping
  have hrepeats := htwice hintact 9
  rw [hdone] at hrepeats
  exact ⟨hdone, hcalm 9, hdone ▸ hrepeats⟩

end ScriptEngine
