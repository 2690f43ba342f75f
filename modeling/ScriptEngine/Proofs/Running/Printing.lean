import Mathlib.Data.Finset.Card
import ScriptEngine.Proofs.Running.Supply

/-!
How values are printed. Arrays and structs can be in one another and in themselves, so the printer keeps
a list of those that it is in the middle of, and cuts short those that it meets there again. It always
comes to an end, since there are fewer that are not on the list the deeper it gets, and it leaves the
list as it found it. Being met twice is not enough to be cut short.
-/
namespace ScriptEngine

namespace Value

/-- The elements of an array, or what is in the fields of a struct. -/
def parts (σ : Store) : Value → List Value
  | array cell => (σ.items cell).toList
  | struct cell => (σ.fields cell).map Prod.snd
  | _ => []

/-- What is written for an array or a struct inside its own text. -/
def mark : Value → String
  | array _ => arrayMark
  | struct _ => structMark
  | _ => ""

/-- The text of a value in full, with these texts for its parts. -/
def textOver (σ : Store) (v : Value) (parts : List String) : String :=
  match v with
  | array _ => arrayText parts
  | struct cell => structText ((σ.fields cell).names.zip parts)
  | other => other.text .empty

/-- The two are the same array, or the same struct. -/
def Same (u v : Value) : Prop := ∃ cell, u.cell? = some cell ∧ v.cell? = some cell

section Parts

variable {σ : Store} {v w : Value} {cell : CellId}

theorem eq_of_cell? (h : v.cell? = some cell) : v = .array cell ∨ v = .struct cell := by
  cases v with
  | array cell => exact .inl (congrArg array (Option.some.inj h))
  | struct cell => exact .inr (congrArg struct (Option.some.inj h))
  | _ => cases h

theorem parts_of_cell?_eq_none (h : v.cell? = none) : v.parts σ = [] := by
  cases v with
  | array cell => cases h
  | struct cell => cases h
  | _ => rfl

theorem parts_of_le (h : v.cell? = some cell) (hcell : σ.cells.size ≤ cell) : v.parts σ = [] := by
  have hnone : σ.cells[cell]? = none := Array.getElem?_eq_none hcell
  rcases eq_of_cell? h with rfl | rfl
  · simp [parts, Store.items, hnone]
  · simp [parts, Store.fields, hnone]

theorem contains_of_mem_parts (h : w ∈ v.parts σ) : σ.Contains v w := by
  cases v with
  | array cell =>
    simp only [parts, Store.items] at h
    split at h
    · exact ⟨cell, .array _, rfl, ‹_›, h⟩
    · simp at h
  | struct cell =>
    simp only [parts, Store.fields] at h
    split at h
    · exact ⟨cell, .struct _, rfl, ‹_›, h⟩
    · simp at h
  | _ => simp [parts] at h

/-- The same array or struct has the same in it. -/
theorem Same.contains (h : v.Same w) {u : Value} (hu : σ.Contains v u) : σ.Contains w u := by
  obtain ⟨cell, hv, hw⟩ := h
  obtain ⟨cell', content, hv', hcontent⟩ := hu
  obtain rfl := Option.some.inj (hv.symm.trans hv')
  exact ⟨cell, content, hw, hcontent⟩

end Parts

section TextWithin

variable {σ : Store} {v : Value} {cell : CellId} {around : List CellId} (depth : Nat)

theorem textWithin_of_cell?_eq_none (h : v.cell? = none) :
    textWithin σ (depth + 1) around v = v.textOver σ [] := by
  cases v with
  | array cell => cases h
  | struct cell => cases h
  | _ => rfl

theorem textWithin_of_mem (h : v.cell? = some cell) (hmem : cell ∈ around) :
    textWithin σ (depth + 1) around v = v.mark := by
  rcases eq_of_cell? h with rfl | rfl <;> exact if_pos hmem

theorem textWithin_of_not_mem (h : v.cell? = some cell) (hmem : cell ∉ around) :
    textWithin σ (depth + 1) around v =
      v.textOver σ ((v.parts σ).map (textWithin σ depth (cell :: around))) := by
  rcases eq_of_cell? h with rfl | rfl
  · exact if_neg hmem
  · rw [textWithin, if_neg hmem, textOver, parts, Entries.names, List.map_map, List.zip_map']
    rfl

end TextWithin

end Value

/-- A value as it is printed: in full with all its parts, or cut short. -/
inductive Rendering where
  | full (v : Value) (parts : List Rendering)
  | cut (v : Value)

namespace Rendering

def value : Rendering → Value
  | full v _ => v
  | cut v => v

mutual

def text (σ : Store) : Rendering → String
  | full v parts => v.textOver σ (texts σ parts)
  | cut v => v.mark

def texts (σ : Store) : List Rendering → List String
  | [] => []
  | r :: rest => r.text σ :: texts σ rest

end

/-- Somewhere in `r`, inside the printing of all the values `around`, the last of them first, this is
printed. -/
inductive Prints (r : Rendering) : List Value → Rendering → Prop where
  | whole : Prints r [] r
  | part {around : List Value} {v : Value} {parts : List Rendering} {s : Rendering}
    (h : Prints r around (.full v parts)) (hs : s ∈ parts) : Prints r (v :: around) s

/-- Nothing is cut short. -/
def Uncut (r : Rendering) : Prop := ∀ around v, ¬ r.Prints around (.cut v)

theorem Prints.inside {v : Value} {parts : List Rendering} {s t : Rendering} (hs : s ∈ parts)
    {around : List Value} (h : s.Prints around t) :
    (full v parts).Prints (around ++ [v]) t := by
  induction h with
  | whole => exact .part .whole hs
  | part _ hmem ih => exact .part ih hmem

theorem Uncut.part {v : Value} {parts : List Rendering} (h : (full v parts).Uncut) :
    ∀ s ∈ parts, s.Uncut :=
  fun _ hs around w hprints => h (around ++ [v]) w (hprints.inside hs)

end Rendering

/-- What the printer makes of some values, one after the other, and of its list of what it is in the
middle of. An array or a struct goes on the list before its parts are printed. Behind them, whatever is
then the first on the list is taken off. -/
inductive Writes (σ : Store) :
    List CellId → List Value → List Rendering → List CellId → Prop where
  | nil (opened : List CellId) : Writes σ opened [] [] opened
  | plain {opened opened' : List CellId} {v : Value} {vs : List Value} {rs : List Rendering}
    (hv : v.cell? = none) (hrest : Writes σ opened vs rs opened') :
    Writes σ opened (v :: vs) (.full v [] :: rs) opened'
  | cut {opened opened' : List CellId} {v : Value} {vs : List Value} {rs : List Rendering}
    {cell : CellId} (hv : v.cell? = some cell) (hcell : cell ∈ opened)
    (hrest : Writes σ opened vs rs opened') :
    Writes σ opened (v :: vs) (.cut v :: rs) opened'
  | full {opened inner opened' : List CellId} {v : Value} {vs : List Value}
    {parts rs : List Rendering} {cell : CellId} (hv : v.cell? = some cell) (hcell : cell ∉ opened)
    (hparts : Writes σ (cell :: opened) (v.parts σ) parts inner)
    (hrest : Writes σ inner.tail vs rs opened') :
    Writes σ opened (v :: vs) (.full v parts :: rs) opened'

namespace Writes

variable {σ : Store} {opened opened' : List CellId} {vs : List Value} {rs : List Rendering}

/-- The list is the same behind the values as before them. -/
theorem opened_eq (h : Writes σ opened vs rs opened') : opened' = opened := by
  induction h with
  | nil => rfl
  | plain _ _ ih => exact ih
  | cut _ _ _ ih => exact ih
  | full _ _ _ _ ihparts ihrest => rw [ihrest, ihparts, List.tail_cons]

theorem values_eq (h : Writes σ opened vs rs opened') : rs.map Rendering.value = vs := by
  induction h with
  | nil => rfl
  | plain _ _ ih => rw [List.map_cons, ih]; rfl
  | cut _ _ _ ih => rw [List.map_cons, ih]; rfl
  | full _ _ _ _ _ ihrest => rw [List.map_cons, ihrest]; rfl

/-- There is only one way. -/
theorem unique (h : Writes σ opened vs rs opened') {rs' : List Rendering} {other : List CellId}
    (h' : Writes σ opened vs rs' other) : rs' = rs := by
  induction h generalizing rs' other with
  | nil =>
    cases h'
    rfl
  | plain hv _ ih =>
    cases h' with
    | plain _ hrest' => rw [ih hrest']
    | cut hv' => cases hv.symm.trans hv'
    | full hv' => cases hv.symm.trans hv'
  | cut hv hcell _ ih =>
    cases h' with
    | plain hv' => cases hv.symm.trans hv'
    | cut _ _ hrest' => rw [ih hrest']
    | full hv' hcell' =>
      obtain rfl := Option.some.inj (hv.symm.trans hv')
      exact absurd hcell hcell'
  | full hv hcell hparts _ ihparts ihrest =>
    cases h' with
    | plain hv' => cases hv.symm.trans hv'
    | cut hv' hcell' =>
      obtain rfl := Option.some.inj (hv.symm.trans hv')
      exact absurd hcell' hcell
    | full hv' _ hparts' hrest' =>
      obtain rfl := Option.some.inj (hv.symm.trans hv')
      rw [hparts'.opened_eq, ← hparts.opened_eq] at hrest'
      rw [ihparts hparts', ihrest hrest']

theorem single (h : Writes σ opened vs rs opened') :
    ∀ r ∈ rs, Writes σ opened [r.value] [r] opened := by
  induction h with
  | nil => simp
  | plain hv _ ih => exact List.forall_mem_cons.2 ⟨.plain hv (.nil _), ih⟩
  | cut hv hcell _ ih => exact List.forall_mem_cons.2 ⟨.cut hv hcell (.nil _), ih⟩
  | full hv hcell hparts _ _ ihrest =>
    have hinner := hparts.opened_eq
    subst hinner
    exact List.forall_mem_cons.2 ⟨.full hv hcell hparts (.nil _), ihrest⟩

/-- What is printed in full is not on the list before, and is on it while its parts are printed. -/
theorem of_full {v : Value} {parts : List Rendering}
    (h : Writes σ opened [v] [.full v parts] opened') :
    v.cell? = none ∧ parts = [] ∨ ∃ cell, v.cell? = some cell ∧ cell ∉ opened ∧
      Writes σ (cell :: opened) (v.parts σ) parts (cell :: opened) := by
  cases h with
  | plain hv => exact .inl ⟨hv, rfl⟩
  | full hv hcell hparts _ =>
    have hinner := hparts.opened_eq
    subst hinner
    exact .inr ⟨_, hv, hcell, hparts⟩

theorem parts_eq {v : Value} {parts : List Rendering}
    (h : Writes σ opened [v] [.full v parts] opened') :
    parts.map Rendering.value = v.parts σ := by
  rcases h.of_full with ⟨hv, rfl⟩ | ⟨cell, -, -, hparts⟩
  · rw [Value.parts_of_cell?_eq_none hv, List.map_nil]
  · exact hparts.values_eq

/-- Wherever something is printed, those that it is printed in are on the list, and no others. -/
theorem of_prints {r s : Rendering} {around : List Value} (h : Writes σ [] [r.value] [r] [])
    (hs : r.Prints around s) :
    Writes σ (around.filterMap Value.cell?) [s.value] [s] (around.filterMap Value.cell?) := by
  induction hs with
  | whole => exact h
  | @part around v parts s _ hmem ih =>
    rcases of_full (v := v) ih with ⟨-, rfl⟩ | ⟨cell, hv, -, hparts⟩
    · cases hmem
    · rw [List.filterMap_cons_some hv]
      exact hparts.single _ hmem

theorem mem_filterMap_cell? {around : List Value} {v : Value} {cell : CellId}
    (hv : v.cell? = some cell) :
    cell ∈ around.filterMap Value.cell? ↔ ∃ u ∈ around, u.Same v := by
  rw [List.mem_filterMap]
  refine exists_congr fun u => and_congr_right fun _ => ⟨fun hu => ⟨cell, hu, hv⟩, ?_⟩
  rintro ⟨cell', hu, hv'⟩
  rwa [Option.some.inj (hv.symm.trans hv')]

/-- What is cut short is inside its own printing. -/
theorem same_of_cut {r : Rendering} {around : List Value} {v : Value}
    (h : Writes σ [] [r.value] [r] []) (hs : r.Prints around (.cut v)) : ∃ u ∈ around, u.Same v := by
  cases h.of_prints hs with
  | cut hv hcell _ => exact (mem_filterMap_cell? hv).1 hcell

/-- What is printed in full is not inside its own printing. -/
theorem not_same_of_full {r : Rendering} {around : List Value} {v : Value} {parts : List Rendering}
    (h : Writes σ [] [r.value] [r] []) (hs : r.Prints around (.full v parts)) :
    ∀ u ∈ around, ¬ u.Same v := by
  intro u hu hsame
  rcases (h.of_prints hs).of_full with ⟨hv, -⟩ | ⟨cell, hv, hcell, -⟩
  · obtain ⟨cell, -, hv'⟩ := hsame
    cases hv.symm.trans hv'
  · exact hcell ((mem_filterMap_cell? hv).2 ⟨u, hu, hsame⟩)

/-! The printer comes to an end -/

/-- The number of arrays and structs that are not on the list. -/
def unopened (σ : Store) (opened : List CellId) : Nat :=
  ((Finset.range σ.cells.size).filter (· ∉ opened)).card

theorem unopened_nil (σ : Store) : unopened σ [] = σ.cells.size := by
  simp [unopened]

theorem unopened_cons_lt {cell : CellId} (hsize : cell < σ.cells.size) (hcell : cell ∉ opened) :
    unopened σ (cell :: opened) < unopened σ opened := by
  refine Finset.card_lt_card ⟨fun c hc => ?_, fun hsub => ?_⟩
  · simp only [Finset.mem_filter, List.mem_cons, not_or] at hc ⊢
    exact ⟨hc.1, hc.2.2⟩
  · have hmem := hsub (Finset.mem_filter.2 ⟨Finset.mem_range.2 hsize, hcell⟩)
    simp at hmem

/-- Values can be printed whatever is on the list, and their text needs no more room than there are
arrays and structs that are not. -/
theorem exists_of_unopened_lt (σ : Store) (depth : Nat) :
    ∀ (opened : List CellId) (vs : List Value), unopened σ opened < depth →
      ∃ rs, Writes σ opened vs rs opened ∧
        Rendering.texts σ rs = vs.map (Value.textWithin σ depth opened) := by
  induction depth with
  | zero => exact fun _ _ h => absurd h (Nat.not_lt_zero _)
  | succ depth ih =>
    intro opened vs hroom
    induction vs with
    | nil => exact ⟨[], .nil opened, rfl⟩
    | cons v vs ihrest =>
      obtain ⟨rs, hrest, htexts⟩ := ihrest
      cases hv : v.cell? with
      | none =>
        refine ⟨.full v [] :: rs, .plain hv hrest, ?_⟩
        rw [List.map_cons, Value.textWithin_of_cell?_eq_none depth hv, ← htexts]
        rfl
      | some cell =>
        by_cases hcell : cell ∈ opened
        · refine ⟨.cut v :: rs, .cut hv hcell hrest, ?_⟩
          rw [List.map_cons, Value.textWithin_of_mem depth hv hcell, ← htexts]
          rfl
        · obtain ⟨parts, hparts, htext⟩ : ∃ parts,
              Writes σ (cell :: opened) (v.parts σ) parts (cell :: opened) ∧
              Rendering.texts σ parts =
                (v.parts σ).map (Value.textWithin σ depth (cell :: opened)) := by
            by_cases hsize : cell < σ.cells.size
            · refine ih _ _ ?_
              have hless := unopened_cons_lt hsize hcell
              omega
            · -- There is no such cell, so nothing is in the value.
              rw [Value.parts_of_le hv (Nat.le_of_not_lt hsize)]
              exact ⟨[], .nil _, rfl⟩
          refine ⟨.full v parts :: rs, .full hv hcell hparts hrest, ?_⟩
          rw [List.map_cons, Value.textWithin_of_not_mem depth hv hcell, ← htext, ← htexts]
          rfl

/-- When nothing is being printed, what the printer makes of values are their texts. -/
theorem texts_eq (h : Writes σ [] vs rs opened') :
    Rendering.texts σ rs = vs.map (Value.text σ) := by
  obtain ⟨rs', h', htexts⟩ := exists_of_unopened_lt σ (σ.cells.size + 1) [] vs
    (by rw [unopened_nil]; exact Nat.lt_succ_self _)
  rw [← h.unique h', htexts]
  rfl

theorem exists_rendering (σ : Store) (v : Value) :
    ∃ r : Rendering, r.value = v ∧ Writes σ [] [r.value] [r] [] ∧ r.text σ = v.text σ := by
  obtain ⟨rs, h, -⟩ := exists_of_unopened_lt σ (σ.cells.size + 1) [] [v]
    (by rw [unopened_nil]; exact Nat.lt_succ_self _)
  obtain ⟨r, rfl⟩ : ∃ r, rs = [r] := List.length_eq_one_iff.1 (by
    rw [← List.length_map Rendering.value, h.values_eq, List.length_singleton])
  have hvalue : r.value = v := by simpa using h.values_eq
  have htext : r.text σ = v.text σ := by simpa [Rendering.texts] using h.texts_eq
  exact ⟨r, hvalue, hvalue.symm ▸ h, htext⟩

/-! Values that are not in themselves -/

/-- Where nothing is cut short, it does not matter what is on the list. -/
theorem reopen (h : Writes σ opened vs rs opened') (huncut : ∀ r ∈ rs, r.Uncut) :
    ∀ fewer ⊆ opened, Writes σ fewer vs rs fewer := by
  induction h with
  | nil => exact fun fewer _ => .nil fewer
  | plain hv _ ih =>
    exact fun fewer hsub => .plain hv (ih (List.forall_mem_cons.1 huncut).2 fewer hsub)
  | cut => exact absurd .whole ((List.forall_mem_cons.1 huncut).1 [] _)
  | full hv hcell hparts _ ihparts ihrest =>
    intro fewer hsub
    obtain ⟨hfirst, hrest⟩ := List.forall_mem_cons.1 huncut
    rw [hparts.opened_eq, List.tail_cons] at ihrest
    exact .full hv (fun hmem => hcell (hsub hmem))
      (ihparts hfirst.part _ (List.cons_subset_cons _ hsub)) (ihrest hrest fewer hsub)

/-- What is printed is in what it is printed in. -/
theorem transGen_of_prints {r s : Rendering} {around : List Value}
    (h : Writes σ [] [r.value] [r] []) (hs : r.Prints around s) :
    Relation.ReflTransGen σ.Contains r.value s.value ∧
      ∀ u ∈ around, Relation.TransGen σ.Contains u s.value := by
  induction hs with
  | whole => exact ⟨.refl, by simp⟩
  | @part around v parts s hprints hmem ih =>
    have hpart : s.value ∈ v.parts σ := by
      rw [← parts_eq (v := v) (h.of_prints hprints)]
      exact List.mem_map_of_mem hmem
    have hcontains := Value.contains_of_mem_parts hpart
    refine ⟨ih.1.tail hcontains, List.forall_mem_cons.2 ⟨.single hcontains, ?_⟩⟩
    exact fun u hu => (ih.2 u hu).tail hcontains

/-- Nothing is cut short in a value from which nothing leads back to itself. -/
theorem uncut {r : Rendering} (h : Writes σ [] [r.value] [r] [])
    (hacyclic : ∀ u, Relation.ReflTransGen σ.Contains r.value u →
      ¬ Relation.TransGen σ.Contains u u) : r.Uncut := by
  intro around v hs
  obtain ⟨u, hu, hsame⟩ := h.same_of_cut hs
  obtain ⟨hreach, hinside⟩ := h.transGen_of_prints hs
  obtain ⟨w, hcontains, hback⟩ := Relation.TransGen.head'_iff.1 (hinside u hu)
  exact hacyclic v hreach (.head' (hsame.contains hcontains) hback)

/-- The text of a value from which nothing leads back to itself is put together from the texts of its
parts. -/
theorem text_eq_textOver {v : Value} (hacyclic : ∀ u, Relation.ReflTransGen σ.Contains v u →
    ¬ Relation.TransGen σ.Contains u u) :
    v.text σ = v.textOver σ ((v.parts σ).map (Value.text σ)) := by
  obtain ⟨r, rfl, h, htext⟩ := exists_rendering σ v
  have huncut := h.uncut hacyclic
  rw [← htext]
  cases r with
  | cut v => exact absurd .whole (huncut [] v)
  | full v parts =>
    rcases of_full (v := v) h with ⟨hv, rfl⟩ | ⟨cell, -, -, hparts⟩
    · rw [Rendering.value, Value.parts_of_cell?_eq_none hv]
      rfl
    · have hopen := hparts.reopen huncut.part [] (List.nil_subset _)
      rw [Rendering.text, hopen.texts_eq]
      rfl

end Writes

/-- Whatever there is in the store, printing a value comes to an end, there is only one way to do it,
and what is printed is the text of the value. An array or a struct is cut short where it is inside its
own printing and nowhere else: everywhere else it is printed in full, with all that is in it. Behind
every value the list of what is being printed is the same as before it. So when nothing that the value
leads to leads back to itself, nothing is cut short and texts are put together from those of the parts,
however often a part occurs. -/
theorem Value.text_rendered (σ : Store) (v : Value) :
    ∃ r : Rendering, r.value = v ∧ r.text σ = v.text σ ∧ Writes σ [] [v] [r] [] ∧
      (∀ rs opened, Writes σ [] [v] rs opened → rs = [r] ∧ opened = []) ∧
      (∀ opened ws rs opened', Writes σ opened ws rs opened' → opened' = opened) ∧
      (∀ around w, r.Prints around (.cut w) → ∃ u ∈ around, u.Same w) ∧
      (∀ around w parts, r.Prints around (.full w parts) →
        (∀ u ∈ around, ¬ u.Same w) ∧ parts.map Rendering.value = w.parts σ) ∧
      ((∀ u, Relation.ReflTransGen σ.Contains v u → ¬ Relation.TransGen σ.Contains u u) →
        r.Uncut ∧ ∀ u, Relation.ReflTransGen σ.Contains v u →
          u.text σ = u.textOver σ ((u.parts σ).map (Value.text σ))) := by
  obtain ⟨r, rfl, h, htext⟩ := Writes.exists_rendering σ v
  refine ⟨r, rfl, htext, h, fun rs opened h' => ⟨h.unique h', h'.opened_eq⟩,
    fun _ _ _ _ h' => h'.opened_eq, fun _ _ => h.same_of_cut, fun _ _ _ hs =>
      ⟨h.not_same_of_full hs, (h.of_prints hs).parts_eq⟩, fun hacyclic => ⟨h.uncut hacyclic, ?_⟩⟩
  exact fun u hu => Writes.text_eq_textOver fun w hw => hacyclic w (hu.trans hw)

/-- An array that is in itself, and one that has the same struct in it twice. -/
def tangled : Store :=
  ⟨#[], #[.array #[.integer 1, .array 0], .array #[.struct 2, .struct 2], .struct [("n", .null)]], 0⟩

example : (Value.array 0).text tangled = "[1, [...]]" := by decide +kernel

example : (Value.array 1).text tangled = "[\x7bn=null\x7d, \x7bn=null\x7d]" := by decide +kernel

end ScriptEngine
