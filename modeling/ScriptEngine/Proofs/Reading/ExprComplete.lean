import ScriptEngine.Proofs.Reading.ClosedExpr

/-!
Every expression of the grammar is found. A row is found from its target outwards and a chain from
its left operand onwards, each by what is said about a shorter one with more behind it.
-/
namespace ScriptEngine

namespace Reader

open Cursor

/-! Rows -/

theorem readsRow_index {target place : Expr} (htarget : ReadsRow target) (hplace : ReadsWhole place)
    (span : Span) : ReadsRow (.index target place span) := by
  intro fuel c n k ks Q hc hroom hk hnext
  rw [Expr.nesting] at hroom
  simp only [Expr.tokens, List.cons_append, List.append_assoc] at hc
  apply htarget fuel hc (by omega) rfl
  intro fuel target' d htarget' hd
  cases fuel with
  | zero => trivial
  | succ fuel =>
    unfold suffixes
    refine gives_kind hd ?_
    apply gives_next hd
    intro _ d hd
    refine (hplace fuel hd (by omega) rfl).bind ?_
    rintro place' d ⟨hplace', hd⟩
    apply gives_expect hd
    intro _ d hd
    refine gives_accept_of_ne hd (fun h => ?_) ?_
    · rw [h] at hk
      exact absurd hk (by decide)
    · rw [if_neg (by simp)]
      apply gives_spanFrom
      intro _
      exact hnext fuel _ d (by simp [Expr.bare, htarget', hplace']) hd

theorem readsRow_member {target : Expr} (htarget : ReadsRow target) (name : Name) (span : Span) :
    ReadsRow (.member target name span) := by
  intro fuel c n k ks Q hc hroom hk hnext
  simp only [Expr.tokens, List.cons_append, List.append_assoc] at hc
  apply htarget fuel hc hroom rfl
  intro fuel target' d htarget' hd
  cases fuel with
  | zero => trivial
  | succ fuel =>
    unfold suffixes
    refine gives_kind hd ?_
    apply gives_next hd
    intro _ d hd
    apply gives_name hd
    intro span d hd
    refine gives_accept_of_ne hd (fun h => ?_) ?_
    · rw [h] at hk
      exact absurd hk (by decide)
    · rw [if_neg (by simp)]
      exact hnext fuel _ d (by simp [Expr.bare, Name.bare, htarget']) hd

/-! Assignments, which take in all that follows -/

theorem readsOperand_assign {value : Expr} (hvalue : ReadsWhole value) (target : Name)
    (span : Span) : ReadsOperand (.assign target value span) := by
  intro fuel c n k ks hc hroom hstop
  have hk := hstop.endsExpression rfl
  simp only [Expr.tokens, List.cons_append] at hc
  apply unary_postfixed fuel hc rfl
  intro fuel
  cases fuel with
  | zero => trivial
  | succ fuel =>
    unfold postfixed
    have hprimary : (primary fuel).Gives c fun e' d =>
        e'.bare = (Expr.assign target value span).bare ∧ d.Before n (k :: ks) := by
      cases fuel with
      | zero => trivial
      | succ fuel =>
        unfold primary
        refine gives_kind hc ?_
        cases fuel with
        | zero => trivial
        | succ fuel =>
          unfold named
          apply gives_name hc
          intro span d hd
          refine gives_kind hd ?_
          apply gives_next hd
          intro _ d hd
          refine (hvalue fuel hd hroom hk).bind ?_
          rintro value' d ⟨hvalue', hd⟩
          exact ⟨by simp [Expr.bare, Name.bare, hvalue'], hd⟩
    exact hprimary.bind fun _ _ he' => suffixes_stop fuel he'.2 hstop.row he'

theorem readsOperand_assignIndex {target place value : Expr} (htarget : ReadsRow target)
    (hplace : ReadsWhole place) (hvalue : ReadsWhole value) (span : Span) :
    ReadsOperand (.assignIndex target place value span) := by
  intro fuel c n k ks hc hroom hstop
  have hk := hstop.endsExpression rfl
  rw [Expr.nesting] at hroom
  simp only [Expr.tokens, List.cons_append, List.append_assoc] at hc
  apply htarget fuel hc (by omega) rfl
  intro fuel target' d htarget' hd
  cases fuel with
  | zero => trivial
  | succ fuel =>
    unfold suffixes
    refine gives_kind hd ?_
    apply gives_next hd
    intro _ d hd
    refine (hplace fuel hd (by omega) rfl).bind ?_
    rintro place' d ⟨hplace', hd⟩
    apply gives_expect hd
    intro _ d hd
    apply gives_accept hd
    intro d hd
    rw [if_pos rfl]
    refine (hvalue fuel hd (by omega) hk).bind ?_
    rintro value' d ⟨hvalue', hd⟩
    exact ⟨by simp [Expr.bare, htarget', hplace', hvalue'], hd⟩

theorem readsOperand_assignMember {target value : Expr} (htarget : ReadsRow target)
    (hvalue : ReadsWhole value) (name : Name) (span : Span) :
    ReadsOperand (.assignMember target name value span) := by
  intro fuel c n k ks hc hroom hstop
  have hk := hstop.endsExpression rfl
  rw [Expr.nesting] at hroom
  simp only [Expr.tokens, List.cons_append, List.append_assoc] at hc
  apply htarget fuel hc (by omega) rfl
  intro fuel target' d htarget' hd
  cases fuel with
  | zero => trivial
  | succ fuel =>
    unfold suffixes
    refine gives_kind hd ?_
    apply gives_next hd
    intro _ d hd
    apply gives_name hd
    intro span d hd
    apply gives_accept hd
    intro d hd
    rw [if_pos rfl]
    refine (hvalue fuel hd (by omega) hk).bind ?_
    rintro value' d ⟨hvalue', hd⟩
    exact ⟨by simp [Expr.bare, Name.bare, htarget', hvalue'], hd⟩

/-! Operators -/

theorem readsOperand_unary {operand : Expr} (hoperand : ReadsOperand operand)
    (hlevel : 7 ≤ operand.level) (op : UnaryOp) (span : Span) :
    ReadsOperand (.unary op operand span) := by
  intro fuel c n k ks hc hroom hstop
  rw [Expr.nesting] at hroom
  rw [Expr.tokens, List.cons_append] at hc
  cases fuel with
  | zero => trivial
  | succ fuel =>
    unfold unary
    refine gives_kind hc ?_
    rw [op.unaryOp?_symbol]
    apply gives_next hc
    intro start d hd
    have hread : (nested (unary fuel)).Gives d fun e' d =>
        e'.bare = operand.bare ∧ d.Before n (k :: ks) :=
      gives_nested hd (by omega) fun d hd =>
        hoperand fuel hd (by omega) (hstop.operand hlevel)
    refine hread.bind ?_
    rintro operand' d ⟨hoperand', hd⟩
    exact ⟨by simp [Expr.bare, hoperand'], hd⟩

/-- The left operand is read up to the operator, which the chain then goes on with; the right one
takes no operator of this strength any more. -/
theorem readsChain_binary {op : BinaryOp} {left right : Expr} (hleft : ReadsChain left)
    (hright : ReadsChain right) (hleftLevel : op.strength ≤ left.level)
    (hrightLevel : op.strength < right.level) (hends : left.endsInAssignment = false)
    (span : Span) : ReadsChain (.binary op left right span) := by
  intro fuel least c n k ks Q hleast hc hroom hstop hnext
  have hleast : least ≤ op.strength := hleast
  rw [Expr.nesting] at hroom
  rw [Expr.tokens, List.append_assoc, List.cons_append] at hc
  have hopStop := Expr.stopsAt_symbol hends hleftLevel
  apply hleft fuel (by omega) hc (by omega) hopStop
  intro fuel left' d hleft' hd
  cases fuel with
  | zero => trivial
  | succ fuel =>
    unfold operators
    refine gives_kind hd ?_
    rw [op.binaryOp?_symbol]
    dsimp only
    rw [if_neg (by omega)]
    apply gives_next hd
    intro _ d hd
    have hread : (chain fuel (op.strength + 1)).Gives d fun e' d =>
        e'.bare = right.bare ∧ d.Before n (k :: ks) := by
      refine hright fuel hrightLevel hd (by omega) (hstop.right hrightLevel) ?_
      intro fuel right' d hright' hd
      refine operators_stop fuel hd (fun op' hop => ?_) ⟨hright', hd⟩
      exact Nat.lt_succ_of_le (hstop.chain op' hop).2
    refine hread.bind ?_
    rintro right' d ⟨hright', hd⟩
    exact hnext fuel _ d (by simp [Expr.bare, hleft', hright']) hd

/-! All expressions -/

mutual

theorem readable : ∀ e : Expr, e.all Expr.fits → Readable e
  | .literal value span, _ => .of_row (readsPrimary_literal value span).row
  | .variable name, _ => .of_row (readsPrimary_variable name).row
  | .assign target value span, h => by
    rw [Expr.all, Bool.and_eq_true] at h
    exact .of_operand (fun _ => rfl) (readsOperand_assign (readable value h.2).chain.whole target span)
  | .adjust target step span, _ => .of_row (readsPrimary_adjust target step span).row
  | .array items span, h => by
    rw [Expr.all, Bool.and_eq_true] at h
    exact .of_row (readsPrimary_array (readsWhole_items items h.2) span).row
  | .arrayOfSize size span, h => by
    rw [Expr.all, Bool.and_eq_true] at h
    exact .of_row (readsPrimary_arrayOfSize (readable size h.2).chain.whole span).row
  | .struct fields span, h => by
    rw [Expr.all, Bool.and_eq_true] at h
    have hdistinct : (fields.map fun field => field.1.text).Nodup := by
      simpa [Expr.fits, Expr.isLeveled, Expr.assignsLast, Expr.hasDistinctFields] using h.1
    exact .of_row (readsPrimary_struct (readsWhole_fields fields h.2) hdistinct span).row
  | .index target place span, h => by
    simp only [Expr.all, Bool.and_eq_true] at h
    obtain ⟨⟨hfits, htarget⟩, hplace⟩ := h
    obtain ⟨hlevel, hends⟩ : 8 ≤ target.level ∧ target.endsInAssignment = false := by
      simpa [Expr.fits, Expr.isLeveled, Expr.assignsLast, Expr.hasDistinctFields] using hfits
    have hrow := (readable target htarget).row hlevel hends
    exact .of_row (readsRow_index hrow (readable place hplace).chain.whole span)
  | .assignIndex target place value span, h => by
    simp only [Expr.all, Bool.and_eq_true] at h
    obtain ⟨⟨⟨hfits, htarget⟩, hplace⟩, hvalue⟩ := h
    obtain ⟨hlevel, hends⟩ : 8 ≤ target.level ∧ target.endsInAssignment = false := by
      simpa [Expr.fits, Expr.isLeveled, Expr.assignsLast, Expr.hasDistinctFields] using hfits
    have hrow := (readable target htarget).row hlevel hends
    exact .of_operand (fun _ => rfl) (readsOperand_assignIndex hrow
      (readable place hplace).chain.whole (readable value hvalue).chain.whole span)
  | .member target name span, h => by
    simp only [Expr.all, Bool.and_eq_true] at h
    obtain ⟨hfits, htarget⟩ := h
    obtain ⟨hlevel, hends⟩ : 8 ≤ target.level ∧ target.endsInAssignment = false := by
      simpa [Expr.fits, Expr.isLeveled, Expr.assignsLast, Expr.hasDistinctFields] using hfits
    exact .of_row (readsRow_member ((readable target htarget).row hlevel hends) name span)
  | .assignMember target name value span, h => by
    simp only [Expr.all, Bool.and_eq_true] at h
    obtain ⟨⟨hfits, htarget⟩, hvalue⟩ := h
    obtain ⟨hlevel, hends⟩ : 8 ≤ target.level ∧ target.endsInAssignment = false := by
      simpa [Expr.fits, Expr.isLeveled, Expr.assignsLast, Expr.hasDistinctFields] using hfits
    have hrow := (readable target htarget).row hlevel hends
    exact .of_operand (fun _ => rfl)
      (readsOperand_assignMember hrow (readable value hvalue).chain.whole name span)
  | .binary op left right span, h => by
    simp only [Expr.all, Bool.and_eq_true] at h
    obtain ⟨⟨hfits, hleft⟩, hright⟩ := h
    obtain ⟨⟨hleftLevel, hrightLevel⟩, hends⟩ :
        (op.strength ≤ left.level ∧ op.strength < right.level) ∧ left.endsInAssignment = false := by
      simpa [Expr.fits, Expr.isLeveled, Expr.assignsLast, Expr.hasDistinctFields] using hfits
    have hstrength := op.strength_le
    have hchain := readsChain_binary (readable left hleft).chain (readable right hright).chain
      hleftLevel hrightLevel hends span
    refine ⟨fun hlevel => ?_, fun hlevel => ?_, hchain⟩
    · exact absurd hlevel (by simp only [Expr.level]; omega)
    · exact absurd hlevel (by simp only [Expr.level]; omega)
  | .unary op operand span, h => by
    rw [Expr.all, Bool.and_eq_true] at h
    have hlevel : 7 ≤ operand.level := by
      simpa [Expr.fits, Expr.isLeveled, Expr.assignsLast, Expr.hasDistinctFields] using h.1
    have hoperand := (readable operand h.2).operand hlevel
    refine .of_operand (fun hrow => ?_) (readsOperand_unary hoperand hlevel op span)
    exact absurd hrow (by simp [Expr.level])
  | .call callee arguments span, h => by
    rw [Expr.all, Bool.and_eq_true] at h
    exact .of_row (readsPrimary_call (readsWhole_items arguments h.2) callee span).row
  | .paren inner span, h => by
    rw [Expr.all, Bool.and_eq_true] at h
    exact .of_row (readsPrimary_paren (readable inner h.2).chain.whole span).row

theorem readsWhole_items : ∀ items : List Expr, Expr.allItems Expr.fits items →
    ∀ e ∈ items, ReadsWhole e
  | [], _ => by simp
  | e :: rest, h => by
    rw [Expr.allItems, Bool.and_eq_true] at h
    have he := (readable e h.1).chain.whole
    intro x hx
    rcases List.mem_cons.mp hx with rfl | hx
    · exact he
    · exact readsWhole_items rest h.2 x hx

theorem readsWhole_fields : ∀ fields : List (Name × Expr), Expr.allFields Expr.fits fields →
    ∀ field ∈ fields, ReadsWhole field.2
  | [], _ => by simp
  | (name, e) :: rest, h => by
    rw [Expr.allFields, Bool.and_eq_true] at h
    have he := (readable e h.1).chain.whole
    intro field hfield
    rcases List.mem_cons.mp hfield with rfl | hfield
    · exact he
    · exact readsWhole_fields rest h.2 field hfield

end

/-- Where an expression of the grammar was written and something follows that ends it, that
expression is read. -/
theorem expression_gives {e : Expr} (h : e.all Expr.fits) : ReadsWhole e :=
  (readable e h).chain.whole

end Reader

end ScriptEngine
