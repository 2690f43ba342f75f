import Mathlib.Data.List.Perm.Subperm
import ScriptEngine.Proofs.Hosting.Comparison
import ScriptEngine.Proofs.Hosting.Handles
import ScriptEngine.Proofs.Running.FieldNames

/-!
Equality by contents. The comparison of the host says yes to an array or a struct and itself without
looking into it. That makes a difference only where a float that is not a number is inside, since
nothing else is different from itself: values from which nothing leads back to itself and that have no
such float in them are equal exactly when their contents are.
-/
namespace ScriptEngine

namespace Value

variable {σ : Store} {a b : Value}

/-- The values have the same contents: arrays element by element, structs field by field whatever the
order of the fields is, callables when they are the same, all others by kind and value. -/
inductive SameContents (σ : Store) : Value → Value → Prop where
  | null : SameContents σ null null
  | boolean (b : Bool) : SameContents σ (boolean b) (boolean b)
  | integer (n : Int32) : SameContents σ (integer n) (integer n)
  | float {x y : Single} (h : x.equal y = true) : SameContents σ (float x) (float y)
  | string (text : String) : SameContents σ (string text) (string text)
  | array {c d : CellId} (hsize : (σ.items c).size = (σ.items d).size)
    (hitems : ∀ (i : Nat) x y, (σ.items c)[i]? = some x → (σ.items d)[i]? = some y →
      SameContents σ x y) : SameContents σ (array c) (array d)
  | struct {c d : CellId} (hnames : ∀ name, name ∈ (σ.fields c).names ↔ name ∈ (σ.fields d).names)
    (hfields : ∀ name x y, (σ.fields c).get? name = some x → (σ.fields d).get? name = some y →
      SameContents σ x y) : SameContents σ (struct c) (struct d)
  | function {f g : Closure} (h : f.identity = g.identity) : SameContents σ (function f) (function g)
  | native {f g : Native} (h : f.identity = g.identity) : SameContents σ (native f) (native g)

/-- No float that is not a number is in the value. -/
def FreeOfNaN (σ : Store) (v : Value) : Prop :=
  ∀ x, Relation.ReflTransGen (fun v u => u ∈ v.parts σ) v (float x) → x.isNaN = false

theorem FreeOfNaN.of_mem_parts {u v : Value} (h : v.FreeOfNaN σ) (hu : u ∈ v.parts σ) :
    u.FreeOfNaN σ :=
  fun x hx => h x (.head hu hx)

theorem freeOfNaN_of_parts {v : Value} (hself : ∀ x, v ≠ float x)
    (h : ∀ u ∈ v.parts σ, u.FreeOfNaN σ) : v.FreeOfNaN σ := by
  intro x hx
  rcases Relation.ReflTransGen.cases_head hx with heq | ⟨u, hu, hx⟩
  · exact absurd heq (hself x)
  · exact h u hu x hx

theorem freeOfNaN_float {x : Single} : (float x).FreeOfNaN σ ↔ x.isNaN = false := by
  refine ⟨fun h => h x .refl, fun h y hy => ?_⟩
  rcases Relation.ReflTransGen.cases_head hy with heq | ⟨u, hu, -⟩
  · exact float.inj heq ▸ h
  · cases hu

theorem mem_names_iff_get? {entries : Entries Value} {name : String} :
    name ∈ entries.names ↔ ∃ v, entries.get? name = some v := by
  rw [← Entries.has_iff, Entries.has, Option.isSome_iff_exists]

namespace SameContents

/-- Members of values with the same contents have partners with the same contents. -/
theorem members (hσ : σ.Distinct) (h : SameContents σ a b) {ms : List (Value × Option Value)}
    (hms : Members σ a b ms) : ∀ m ∈ ms, ∃ b', m.2 = some b' ∧ SameContents σ m.1 b' := by
  cases hms with
  | @items c d =>
    cases h with
    | array hsize hitems =>
      intro m hm
      obtain ⟨i, hi, rfl⟩ := List.mem_iff_getElem.1 hm
      rw [List.length_zip, List.length_map, Array.length_toList, Array.length_toList] at hi
      have hic : i < (σ.items c).size := by omega
      have hid : i < (σ.items d).size := by omega
      refine ⟨(σ.items d)[i], by simp, ?_⟩
      simpa using hitems i _ _ (Array.getElem?_eq_getElem hic) (Array.getElem?_eq_getElem hid)
  | @fields c d =>
    cases h with
    | struct hnames hfields =>
      intro m hm
      obtain ⟨⟨name, x⟩, hfield, rfl⟩ := List.mem_map.1 hm
      have hx := Entries.get?_of_mem (hσ c) hfield
      obtain ⟨y, hy⟩ := mem_names_iff_get?.1 ((hnames name).1 (mem_names_iff_get?.2 ⟨x, hx⟩))
      exact ⟨y, hy, hfields name x y hx hy⟩

/-- Values have the same contents when their members have partners with the same contents. -/
theorem of_members (hσ : σ.Distinct) {ms : List (Value × Option Value)} (hms : Members σ a b ms)
    (h : ∀ m ∈ ms, ∃ b', m.2 = some b' ∧ SameContents σ m.1 b') : SameContents σ a b := by
  cases hms with
  | @items c d _ hsize =>
    refine .array hsize fun i x y hx hy => ?_
    have hmem : (x, some y) ∈ (σ.items c).toList.zip ((σ.items d).toList.map some) := by
      refine List.mem_iff_getElem?.2 ⟨i, ?_⟩
      simp [List.getElem?_zip_eq_some, hx, hy]
    obtain ⟨y', hy', hsame⟩ := h _ hmem
    obtain rfl := Option.some.inj hy'
    exact hsame
  | @fields c d _ hsize =>
    have hpartner : ∀ name x, (σ.fields c).get? name = some x →
        ∃ y, (σ.fields d).get? name = some y ∧ SameContents σ x y := fun name x hx =>
      h _ (List.mem_map_of_mem (f := fun field => (field.2, (σ.fields d).get? field.1))
        (Entries.mem_of_get? hx))
    have hsub : (σ.fields c).names ⊆ (σ.fields d).names := fun name hname => by
      obtain ⟨x, hx⟩ := mem_names_iff_get?.1 hname
      obtain ⟨y, hy, -⟩ := hpartner name x hx
      exact mem_names_iff_get?.2 ⟨y, hy⟩
    -- As many names as there are on the other side, and all of them there: then they are all of them.
    have hperm : (σ.fields c).names.Perm (σ.fields d).names :=
      ((hσ c).subperm hsub).perm_of_length_le (by simp [Entries.names, hsize])
    refine .struct (fun name => hperm.mem_iff) fun name x y hx hy => ?_
    obtain ⟨y', hy', hsame⟩ := hpartner name x hx
    obtain rfl := Option.some.inj (hy.symm.trans hy')
    exact hsame

/-- The comparison never says that values with the same contents are different. -/
theorem hostEqualWithin_ne_false (hσ : σ.Distinct) (depth : Nat) :
    ∀ {a b : Value}, SameContents σ a b → hostEqualWithin σ depth a b ≠ some false := by
  induction depth with
  | zero => exact fun _ hno => by cases hno
  | succ depth ih =>
    intro a b h
    have hmembers : ∀ ms, Members σ a b ms → hostEqualWithin σ (depth + 1) a b ≠ some false := by
      intro ms hms hno
      rw [hostEqualWithin_succ hms] at hno
      obtain ⟨before, m, after, rfl, -, hm⟩ := exists_of_everyMember_ne_true (by rw [hno]; simp)
      obtain ⟨b', hb', hsame⟩ := h.members hσ hms m (by simp)
      rcases hm with ⟨hnone, -⟩ | ⟨b'', hb'', -, hanswer⟩
      · cases hnone.symm.trans hb'
      · obtain rfl := Option.some.inj (hb'.symm.trans hb'')
        exact ih hsame (hanswer.symm.trans hno)
    cases h with
    | @array c d hsize _ =>
      by_cases hcells : c = d
      · simp [hostEqualWithin, hcells]
      · exact hmembers _ (.items hcells hsize)
    | @struct c d hnames _ =>
      by_cases hcells : c = d
      · simp [hostEqualWithin, hcells]
      · have hperm := (List.perm_ext_iff_of_nodup (hσ c) (hσ d)).2 hnames
        exact hmembers _ (.fields hcells (by simpa [Entries.names] using hperm.length_eq))
    | float h => simp [hostEqualWithin, h]
    | function h => simp [hostEqualWithin, h]
    | native h => simp [hostEqualWithin, h]
    | _ => simp [hostEqualWithin]

/-- What has the contents of something has no float in it that is not a number. -/
theorem freeOfNaN (hσ : σ.Distinct) (h : SameContents σ a b) : a.FreeOfNaN σ := by
  induction h with
  | @float x y h =>
    refine freeOfNaN_float.2 ?_
    cases x with
    | nan => cases h
    | signed => rfl
  | @array c d hsize hitems ih =>
    refine freeOfNaN_of_parts (by simp) fun u hu => ?_
    obtain ⟨i, hi, rfl⟩ := List.mem_iff_getElem.1 hu
    have hic : i < (σ.items c).size := hi
    exact ih i _ _ (Array.getElem?_eq_getElem hic) (Array.getElem?_eq_getElem (hsize ▸ hic))
  | @struct c d hnames hfields ih =>
    refine freeOfNaN_of_parts (by simp) fun u hu => ?_
    obtain ⟨⟨name, x⟩, hfield, rfl⟩ := List.mem_map.1 hu
    have hx := Entries.get?_of_mem (hσ c) hfield
    obtain ⟨y, hy⟩ := mem_names_iff_get?.1 ((hnames name).1 (mem_names_iff_get?.2 ⟨x, hx⟩))
    exact ih name x y hx hy
  | _ => exact freeOfNaN_of_parts (by simp) (by simp [parts])

/-- Apart from floats that are not numbers, everything that does not lead back to itself has its own
contents. -/
theorem self {v : Value}
    (hreturn : ∀ u, Relation.ReflTransGen σ.Contains v u → ¬ Relation.TransGen σ.Contains u u)
    (hfree : v.FreeOfNaN σ) : SameContents σ v v := by
  obtain ⟨rank, -, hless⟩ := exists_rank_of_noReturn (R := σ.Contains) cell?
    ((Finset.range σ.cells.size).map .some) (fun _ _ h => h.cell?_mem)
    (fun x y z w hkey hxz ⟨cell, content, hcell, hcontent, hmem⟩ => by
      obtain ⟨cell', content', hcell', hcontent', hmem'⟩ := hxz
      obtain rfl := Option.some.inj (hcell'.symm.trans (hkey.trans hcell))
      exact ⟨cell', content', hcell, hcontent', hmem'⟩) hreturn
  -- The rank goes down from a value to what is in it.
  have hall : ∀ bound u, rank u < bound → Relation.ReflTransGen σ.Contains v u →
      u.FreeOfNaN σ → SameContents σ u u := by
    intro bound
    induction bound with
    | zero => exact fun _ hlt => absurd hlt (Nat.not_lt_zero _)
    | succ bound ih =>
      intro u hu hway hfree
      have hpart : ∀ w ∈ u.parts σ, SameContents σ w w := fun w hw => by
        have hcontains := contains_of_mem_parts hw
        have hlower := hless u w hway hcontains
        exact ih w (by omega) (hway.tail hcontains) (hfree.of_mem_parts hw)
      cases u with
      | null => exact .null
      | boolean b => exact .boolean b
      | integer n => exact .integer n
      | float x =>
        refine .float ?_
        cases x with
        | nan => cases freeOfNaN_float.1 hfree
        | signed => simp [Single.equal, Single.rank?]
      | string text => exact .string text
      | array c =>
        refine .array rfl fun i x y hx hy => ?_
        obtain rfl := Option.some.inj (hx.symm.trans hy)
        exact hpart x (Array.mem_toList_iff.2 (Array.mem_of_getElem? hx))
      | struct c =>
        refine .struct (fun _ => Iff.rfl) fun name x y hx hy => ?_
        obtain rfl := Option.some.inj (hx.symm.trans hy)
        exact hpart x (List.mem_map_of_mem (Entries.mem_of_get? hx))
      | function f => exact .function rfl
      | native f => exact .native rfl
  exact hall _ v (Nat.lt_succ_self _) .refl hfree

/-- Values that are equal for the host are the same, or they are scalars or callables with the same
contents, or what their members come to decides. -/
theorem or_members_of_true {depth : Nat} (h : hostEqualWithin σ (depth + 1) a b = some true) :
    a = b ∨ SameContents σ a b ∨ ∃ ms, Members σ a b ms := by
  cases a with
  | array c =>
    cases b with
    | array d =>
      by_cases hcells : c = d
      · exact .inl (hcells ▸ rfl)
      · by_cases hsize : (σ.items c).size = (σ.items d).size
        · exact .inr (.inr ⟨_, .items hcells hsize⟩)
        · exact absurd h (by simp [hostEqualWithin, hcells, hsize])
    | _ => exact absurd h (by simp [hostEqualWithin])
  | struct c =>
    cases b with
    | struct d =>
      by_cases hcells : c = d
      · exact .inl (hcells ▸ rfl)
      · by_cases hsize : (σ.fields c).length = (σ.fields d).length
        · exact .inr (.inr ⟨_, .fields hcells hsize⟩)
        · exact absurd h (by simp [hostEqualWithin, hcells, hsize])
    | _ => exact absurd h (by simp [hostEqualWithin])
  | float x =>
    cases b with
    | float y => exact .inr (.inl (.float (by simpa [hostEqualWithin] using h)))
    | _ => exact absurd h (by simp [hostEqualWithin])
  | function f =>
    cases b with
    | function g => exact .inr (.inl (.function (by simpa [hostEqualWithin] using h)))
    | _ => exact absurd h (by simp [hostEqualWithin])
  | native f =>
    cases b with
    | native g => exact .inr (.inl (.native (by simpa [hostEqualWithin] using h)))
    | _ => exact absurd h (by simp [hostEqualWithin])
  | _ => cases b <;> simp_all [hostEqualWithin]

/-- Where there is no float that is not a number, values that are equal for the host have the same
contents. -/
theorem of_hostEqualWithin (hσ : σ.Distinct) (depth : Nat) :
    ∀ {a b : Value},
      (∀ u, Relation.ReflTransGen σ.Contains a u → ¬ Relation.TransGen σ.Contains u u) →
      a.FreeOfNaN σ → hostEqualWithin σ depth a b = some true → SameContents σ a b := by
  induction depth with
  | zero => exact fun _ _ h => by cases h
  | succ depth ih =>
    intro a b hreturn hfree h
    rcases or_members_of_true h with rfl | hsame | ⟨ms, hms⟩
    · exact self hreturn hfree
    · exact hsame
    · rw [hostEqualWithin_succ hms] at h
      refine of_members hσ hms fun m hm => ?_
      obtain ⟨b', hb', hyes⟩ := everyMember_eq_true_iff.1 h m hm
      have hmember : (m.1, some b') ∈ ms := hb' ▸ hm
      have hpart := (Store.mem_parts_of_members hms hmember).1
      have hcontains := contains_of_mem_parts hpart
      exact ⟨b', hb', ih (fun u hu => hreturn u (.head hcontains hu)) (hfree.of_mem_parts hpart) hyes⟩

end SameContents

/-- The comparison of values from which nothing leads back to itself comes to an end, and a yes says
that they have the same contents, except that it may have been given to an array or a struct and itself
where there is a float in it that is not a number. Without such floats the answer is that about the
contents; with them there is no other value with the same contents, and the value itself has not got
them either. -/
theorem hostEqual_contents (hσ : σ.Distinct)
    (hreturn : ∀ u, Relation.ReflTransGen σ.Contains a u → ¬ Relation.TransGen σ.Contains u u) :
    ∃ yes, hostEqual? σ a b = some yes ∧
      (SameContents σ a b ↔ yes = true ∧ a.FreeOfNaN σ) := by
  obtain ⟨yes, hyes⟩ : ∃ yes, hostEqual? σ a b = some yes := by
    refine Option.ne_none_iff_exists'.1 fun hnone => ?_
    obtain ⟨⟨u, hway, hback⟩, -⟩ := returns_of_hostEqual?_eq_none σ a b hnone
    exact hreturn u hway hback
  refine ⟨yes, hyes, fun h => ⟨?_, h.freeOfNaN hσ⟩, ?_⟩
  · have hno := h.hostEqualWithin_ne_false hσ (σ.cells.size * σ.cells.size + 1)
    cases yes with
    | true => rfl
    | false => exact absurd hyes hno
  · rintro ⟨rfl, hfree⟩
    exact .of_hostEqualWithin hσ _ hreturn hfree hyes

/-- Where cells lead only to cells with lower numbers, nothing leads back to itself. -/
theorem not_transGen_self_of_lower
    (hlower : ∀ v u, σ.Contains v u → ∀ c d, v.cell? = some c → u.cell? = some d → d < c)
    (v : Value) : ¬ Relation.TransGen σ.Contains v v := by
  have hway : ∀ {v u}, Relation.TransGen σ.Contains v u →
      ∀ c d, v.cell? = some c → u.cell? = some d → d < c := by
    intro v u h
    induction h with
    | single hu => exact hlower _ _ hu
    | @tail u w _ hw ih =>
      intro c e hc he
      obtain ⟨d, -, hd, -⟩ := id hw
      exact (hlower u w hw d e hd he).trans (ih c d hc hd)
  intro hreturn
  obtain ⟨u, ⟨c, -, hc, -⟩, -⟩ := Relation.TransGen.head'_iff.1 hreturn
  exact absurd (hway hreturn c c hc hc) (Nat.lt_irrefl c)

/-- Two structs with the same fields in another order, which share an array. -/
def reordered : Store :=
  ⟨#[], #[.array #[.integer 1], .struct [("x", .array 0), ("y", .null)],
    .struct [("y", .null), ("x", .array 0)]], 0⟩

theorem hostEqual_contents_reordered :
    reordered.Distinct ∧
      ∃ yes, hostEqual? reordered (struct 1) (struct 2) = some yes ∧
        (SameContents reordered (struct 1) (struct 2) ↔
          yes = true ∧ (struct 1).FreeOfNaN reordered) := by
  have hdistinct : reordered.Distinct := by
    intro cell
    rcases cell with _ | _ | _ | cell <;> simp [reordered, Store.fields, Entries.names]
  refine ⟨hdistinct, hostEqual_contents hdistinct fun u _ => not_transGen_self_of_lower ?_ u⟩
  rintro v u ⟨cell, content, hcell, hcontent, hmem⟩ c d hc hd
  obtain rfl := Option.some.inj (hc.symm.trans hcell)
  rcases c with _ | _ | _ | c
  · obtain rfl := Option.some.inj hcontent
    obtain rfl := List.mem_singleton.1 hmem
    cases hd
  · obtain rfl := Option.some.inj hcontent
    rcases List.mem_cons.1 hmem with rfl | hmem
    · obtain rfl := Option.some.inj hd
      decide
    · obtain rfl := List.mem_singleton.1 hmem
      cases hd
  · obtain rfl := Option.some.inj hcontent
    rcases List.mem_cons.1 hmem with rfl | hmem
    · cases hd
    · obtain rfl := List.mem_singleton.1 hmem
      obtain rfl := Option.some.inj hd
      decide
  · cases hcontent

/-- An array with a float in it that is not a number is equal to itself for the host, but not by its
contents. -/
theorem not_hostEqual_contents :
    ¬ ∀ (σ : Store) (a b : Value), σ.Distinct →
      (∀ v u, Relation.ReflTransGen σ.Contains v u → ¬ Relation.TransGen σ.Contains u u) →
      (hostEqual? σ a b = some true ↔ SameContents σ a b) := by
  intro h
  have hdistinct : (Store.empty.newArray #[.float .nan]).2.Distinct :=
    Store.distinct_empty.addCell (by simp)
  have hsame := (h (Store.empty.newArray #[.float .nan]).2 (array 0) (array 0) hdistinct
    fun v u _ => not_transGen_self_of_lower ?_ u).1 (by decide)
  · cases hsame with
    | array _ hitems => cases hitems 0 (.float .nan) (.float .nan) rfl rfl with
      | float hnan => cases hnan
  · rintro v u ⟨cell, content, hcell, hcontent, hmem⟩ c d hc hd
    obtain rfl := Option.some.inj (hc.symm.trans hcell)
    rcases c with _ | c
    · obtain rfl := Option.some.inj hcontent
      obtain rfl := List.mem_singleton.1 hmem
      cases hd
    · cases hcontent

end Value

end ScriptEngine
