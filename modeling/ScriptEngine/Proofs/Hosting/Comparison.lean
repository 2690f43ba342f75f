import Mathlib.Data.Finset.Card
import Mathlib.Data.Finset.Prod
import ScriptEngine.Proofs.Running.Frames
import ScriptEngine.Proofs.Running.Printing
import ScriptEngine.Proofs.Running.Rest
import ScriptEngine.Value.Equality

/-!
How the host compares two values. Some answers are there at once; the others are put together from the
answers about the members of the two, in turn. The comparison keeps no list of what it is in the middle
of, so it comes to no end exactly when it comes to two values that it is in the middle of comparing.
Only values that have something in themselves can do that, and only when both do.
-/
namespace ScriptEngine

/-- Where nothing leads back to itself and only so many things lead on, ways are no longer than that.
Things with the same key that lead on lead to the same. -/
theorem exists_rank_of_noReturn {α κ : Type} [DecidableEq κ] {R : α → α → Prop} {start : α}
    (key : α → κ) (keys : Finset κ) (hkeys : ∀ x y, R x y → key x ∈ keys)
    (hsame : ∀ x y z w, key x = key y → R x z → R y w → R y z)
    (hreturn : ∀ x, Relation.ReflTransGen R start x → ¬ Relation.TransGen R x x) :
    ∃ rank : α → Nat, (∀ x, rank x ≤ keys.card) ∧
      ∀ x y, Relation.ReflTransGen R start x → R x y → rank y < rank x := by
  classical
  -- The rank counts the keys of what is still ahead and leads on.
  refine ⟨fun x => (keys.filter fun k =>
    ∃ y z, Relation.ReflTransGen R x y ∧ R y z ∧ key y = k).card,
    fun x => Finset.card_filter_le _ _, fun x y hx hxy => ?_⟩
  refine Finset.card_lt_card ⟨fun k hk => ?_, fun hsub => ?_⟩
  · simp only [Finset.mem_filter] at hk ⊢
    obtain ⟨hk, z, w, hz, hzw, hkey⟩ := hk
    exact ⟨hk, z, w, .head hxy hz, hzw, hkey⟩
  · have hmem := hsub (Finset.mem_filter.2 ⟨hkeys x y hxy, x, y, .refl, hxy, rfl⟩)
    obtain ⟨-, z, w, hz, hzw, hkey⟩ := Finset.mem_filter.1 hmem
    exact hreturn y (hx.tail hxy) (.tail' hz (hsame x z y w hkey.symm hxy hzw))

namespace Value

variable {σ : Store} {a b : Value}

/-- Asks the same question of members and their partners in turn, until one answer is not yes. -/
def everyMember (same : Value → Value → Option Bool) : List (Value × Option Value) → Option Bool
  | [] => some true
  | (_, none) :: _ => some false
  | (a, some b) :: rest =>
    match same a b with
    | some true => everyMember same rest
    | answer => answer

/-- The member has a partner, and the answer about the two is yes. -/
def Agrees (same : Value → Value → Option Bool) (m : Value × Option Value) : Prop :=
  ∃ b, m.2 = some b ∧ same m.1 b = some true

/-- What has to be compared of two arrays or structs: elements with those at the same positions, fields
with those of the same names, as far as there are such fields. -/
inductive Members (σ : Store) : Value → Value → List (Value × Option Value) → Prop where
  | items {c d : CellId} (hcells : c ≠ d) (hsize : (σ.items c).size = (σ.items d).size) :
    Members σ (array c) (array d) ((σ.items c).toList.zip ((σ.items d).toList.map some))
  | fields {c d : CellId} (hcells : c ≠ d) (hsize : (σ.fields c).length = (σ.fields d).length) :
    Members σ (struct c) (struct d)
      ((σ.fields c).map fun field => (field.2, (σ.fields d).get? field.1))

section EveryMember

variable {same same' : Value → Value → Option Bool} {ms : List (Value × Option Value)}

theorem everyPair_eq_everyMember {as bs : List Value} (h : as.length = bs.length) :
    everyPair same as bs = everyMember same (as.zip (bs.map some)) := by
  induction as generalizing bs with
  | nil =>
    obtain rfl : bs = [] := List.length_eq_zero_iff.1 h.symm
    rfl
  | cons a as ih =>
    cases bs with
    | nil => exact absurd h (by simp)
    | cons b bs =>
      rw [everyPair, ih (Nat.succ.inj h)]
      rfl

theorem everyField_eq_everyMember {other fs : Entries Value} :
    everyField same other fs =
      everyMember same (fs.map fun field => (field.2, other.get? field.1)) := by
  induction fs with
  | nil => rfl
  | cons field fs ih =>
    obtain ⟨name, a⟩ := field
    rw [List.map_cons, everyField, ih]
    cases other.get? name <;> rfl

theorem everyMember_eq_true_iff : everyMember same ms = some true ↔ ∀ m ∈ ms, Agrees same m := by
  fun_induction everyMember same ms with
  | case1 => simp
  | case2 a rest => simp [Agrees]
  | case3 a b rest h ih => simp [Agrees, ih, h]
  | case4 a b rest h =>
    simp only [List.forall_mem_cons, Agrees, Option.some.injEq, exists_eq_left']
    exact ⟨fun h' => absurd h' h, fun h' => absurd h'.1 h⟩

/-- An answer that is not yes is the one about the first member that does not agree. -/
theorem exists_of_everyMember_ne_true (h : everyMember same ms ≠ some true) :
    ∃ before m after, ms = before ++ m :: after ∧ (∀ m ∈ before, Agrees same m) ∧
      ((m.2 = none ∧ everyMember same ms = some false) ∨
        ∃ b, m.2 = some b ∧ same m.1 b ≠ some true ∧ everyMember same ms = same m.1 b) := by
  fun_induction everyMember same ms with
  | case1 => exact absurd rfl h
  | case2 a rest => exact ⟨[], (a, none), rest, rfl, by simp, .inl ⟨rfl, rfl⟩⟩
  | case3 a b rest hyes ih =>
    obtain ⟨before, m, after, rfl, hbefore, hm⟩ := ih h
    exact ⟨(a, some b) :: before, m, after, rfl,
      List.forall_mem_cons.2 ⟨⟨b, rfl, hyes⟩, hbefore⟩, hm⟩
  | case4 a b rest hno => exact ⟨[], (a, some b), rest, rfl, by simp, .inr ⟨b, rfl, hno, rfl⟩⟩

theorem everyMember_append {before : List (Value × Option Value)}
    (h : ∀ m ∈ before, Agrees same m) :
    everyMember same (before ++ ms) = everyMember same ms := by
  induction before with
  | nil => rfl
  | cons m before ih =>
    obtain ⟨⟨b, hb, hyes⟩, hrest⟩ := List.forall_mem_cons.1 h
    obtain ⟨a, b'⟩ := m
    obtain rfl : b' = some b := hb
    rw [List.cons_append, everyMember, hyes]
    exact ih hrest

/-- A member behind members that are not found to be different is asked about. -/
theorem exists_answer_of_everyMember {before after : List (Value × Option Value)} {a b : Value}
    {yes : Bool} (hbefore : ∀ m ∈ before, ∃ b, m.2 = some b ∧ same m.1 b ≠ some false)
    (h : everyMember same (before ++ (a, some b) :: after) = some yes) :
    ∃ answer, same a b = some answer := by
  induction before with
  | nil =>
    rw [List.nil_append, everyMember] at h
    cases hab : same a b with
    | none => rw [hab] at h; cases h
    | some answer => exact ⟨answer, rfl⟩
  | cons m before ih =>
    obtain ⟨⟨b', hb, hno⟩, hrest⟩ := List.forall_mem_cons.1 hbefore
    obtain ⟨a', partner⟩ := m
    obtain rfl : partner = some b' := hb
    rw [List.cons_append, everyMember] at h
    split at h
    · exact ih hrest h
    · exact absurd h fun heq => by
        cases hans : same a' b' with
        | none => rw [hans] at heq; cases heq
        | some answer => cases answer <;> simp_all

/-- Answers that are there stay when more questions are answered. -/
theorem everyMember_mono (hmore : ∀ a b yes, same a b = some yes → same' a b = some yes) {yes : Bool}
    (h : everyMember same ms = some yes) : everyMember same' ms = some yes := by
  by_cases htrue : everyMember same ms = some true
  · obtain rfl : yes = true := Option.some.inj (h.symm.trans htrue)
    refine everyMember_eq_true_iff.2 fun m hm => ?_
    obtain ⟨b, hb, hyes⟩ := everyMember_eq_true_iff.1 htrue m hm
    exact ⟨b, hb, hmore _ _ _ hyes⟩
  · obtain ⟨before, m, after, rfl, hbefore, hm⟩ := exists_of_everyMember_ne_true htrue
    have hagree : ∀ m ∈ before, Agrees same' m := fun m hm =>
      (hbefore m hm).imp fun b hb => ⟨hb.1, hmore _ _ _ hb.2⟩
    obtain ⟨a, b'⟩ := m
    rw [everyMember_append hagree]
    rcases hm with ⟨hnone, hno⟩ | ⟨b, hb, hne, hno⟩
    · obtain rfl : b' = none := hnone
      exact hno.symm.trans h
    · obtain rfl : b' = some b := hb
      have hanswer : same a b = some yes := hno.symm.trans h
      have hfalse : yes ≠ true := fun hyes => hne (hyes ▸ hanswer)
      rw [everyMember, hmore _ _ _ hanswer]
      cases yes with
      | true => exact absurd rfl hfalse
      | false => rfl

end EveryMember

section Within

theorem hostEqualWithin_succ {ms : List (Value × Option Value)} (h : Members σ a b ms)
    (depth : Nat) :
    hostEqualWithin σ (depth + 1) a b = everyMember (hostEqualWithin σ depth) ms := by
  cases h with
  | items hcells hsize =>
    rw [← everyPair_eq_everyMember (by simpa using hsize)]
    simp [hostEqualWithin, hcells, hsize]
  | fields hcells hsize =>
    rw [← everyField_eq_everyMember]
    simp [hostEqualWithin, hcells, hsize]

/-- An answer is there at once, or there are members to compare. -/
theorem hostEqualWithin_cases (σ : Store) (a b : Value) :
    (∃ yes, ∀ depth, hostEqualWithin σ (depth + 1) a b = some yes) ∨ ∃ ms, Members σ a b ms := by
  cases a with
  | array c =>
    cases b with
    | array d =>
      by_cases hcells : c = d
      · exact .inl ⟨true, fun depth => if_pos hcells⟩
      · by_cases hsize : (σ.items c).size = (σ.items d).size
        · exact .inr ⟨_, .items hcells hsize⟩
        · exact .inl ⟨false, fun depth => by simp [hostEqualWithin, hcells, hsize]⟩
    | _ => exact .inl ⟨false, fun _ => rfl⟩
  | struct c =>
    cases b with
    | struct d =>
      by_cases hcells : c = d
      · exact .inl ⟨true, fun depth => if_pos hcells⟩
      · by_cases hsize : (σ.fields c).length = (σ.fields d).length
        · exact .inr ⟨_, .fields hcells hsize⟩
        · exact .inl ⟨false, fun depth => by simp [hostEqualWithin, hcells, hsize]⟩
    | _ => exact .inl ⟨false, fun _ => rfl⟩
  | _ => cases b <;> exact .inl ⟨_, fun _ => rfl⟩

/-- An answer does not change when there is more room. -/
theorem hostEqualWithin_mono {depth more : Nat} (hle : depth ≤ more) {yes : Bool}
    (h : hostEqualWithin σ depth a b = some yes) : hostEqualWithin σ more a b = some yes := by
  induction depth generalizing more a b yes with
  | zero => cases h
  | succ depth ih =>
    obtain ⟨more, rfl⟩ : ∃ n, more = n + 1 := ⟨more - 1, by omega⟩
    rcases hostEqualWithin_cases σ a b with ⟨answer, hanswer⟩ | ⟨ms, hms⟩
    · rw [hanswer] at h ⊢
      exact h
    · rw [hostEqualWithin_succ hms] at h ⊢
      exact everyMember_mono (fun _ _ _ => ih (by omega)) h

/-- At most one answer is ever given. -/
theorem hostEqualWithin_unique {depth depth' : Nat} {yes yes' : Bool}
    (h : hostEqualWithin σ depth a b = some yes) (h' : hostEqualWithin σ depth' a b = some yes') :
    yes = yes' :=
  Option.some.inj ((hostEqualWithin_mono (le_max_left depth depth') h).symm.trans
    (hostEqualWithin_mono (le_max_right depth depth') h'))

end Within

end Value

namespace Store

open Value

variable {σ : Store} {p q : Value × Value}

/-- The comparison of the first two values comes to that of the second two: these are a member and its
partner, and those before them are equal. -/
def Asks (σ : Store) (p q : Value × Value) : Prop :=
  ∃ before after, Members σ p.1 p.2 (before ++ (q.1, some q.2) :: after) ∧
    ∃ depth, ∀ m ∈ before, Agrees (hostEqualWithin σ depth) m

theorem mem_parts_of_members {a b a' b' : Value} {ms : List (Value × Option Value)}
    (h : Members σ a b ms) (hmem : (a', some b') ∈ ms) : a' ∈ a.parts σ ∧ b' ∈ b.parts σ := by
  cases h with
  | items =>
    obtain ⟨ha, hb⟩ := List.of_mem_zip hmem
    obtain ⟨x, hx, hsome⟩ := List.mem_map.1 hb
    obtain rfl := Option.some.inj hsome
    exact ⟨ha, hx⟩
  | fields =>
    obtain ⟨field, hfield, heq⟩ := List.mem_map.1 hmem
    obtain ⟨rfl, hget⟩ := Prod.mk.inj heq
    exact ⟨List.mem_map_of_mem hfield, List.mem_map_of_mem (Entries.mem_of_get? hget)⟩

theorem Asks.mem_parts (h : σ.Asks p q) : q.1 ∈ p.1.parts σ ∧ q.2 ∈ p.2.parts σ := by
  obtain ⟨before, after, hmembers, -⟩ := h
  exact mem_parts_of_members hmembers (by simp)

theorem Asks.contains (h : σ.Asks p q) : σ.Contains p.1 q.1 ∧ σ.Contains p.2 q.2 :=
  ⟨contains_of_mem_parts h.mem_parts.1, contains_of_mem_parts h.mem_parts.2⟩

/-- No cell is an array and a struct, so what has something in it is determined by its cell. -/
theorem eq_of_cell?_eq {v w u u' : Value} (hv : u ∈ v.parts σ) (hw : u' ∈ w.parts σ)
    (h : v.cell? = w.cell?) : v = w := by
  have hcell : ∀ {x y : Value}, y ∈ x.parts σ → ∃ cell, x.cell? = some cell := by
    intro x y hy
    obtain ⟨cell, -, hcell, -, -⟩ := contains_of_mem_parts hy
    exact ⟨cell, hcell⟩
  obtain ⟨cell, hvcell⟩ := hcell hv
  have hwcell := h.symm.trans hvcell
  rcases eq_of_cell? hvcell with rfl | rfl <;> rcases eq_of_cell? hwcell with rfl | rfl
  · rfl
  · simp only [parts, Store.items, Store.fields] at hv hw
    split at hv <;> simp_all
  · simp only [parts, Store.items, Store.fields] at hv hw
    split at hv <;> simp_all
  · rfl

theorem Contains.cell?_mem {v u : Value} (h : σ.Contains v u) :
    v.cell? ∈ (Finset.range σ.cells.size).map Function.Embedding.some := by
  obtain ⟨cell, content, hcell, hcontent, -⟩ := h
  have hsize := (Array.getElem?_eq_some_iff.1 hcontent).1
  rw [hcell]
  exact Finset.mem_map_of_mem _ (Finset.mem_range.2 hsize)

/-- Where no comparison comes back to itself, comparisons go no deeper than there are pairs of cells. -/
theorem exists_rank_of_asks
    (hreturn : ∀ q, Relation.ReflTransGen σ.Asks p q → ¬ Relation.TransGen σ.Asks q q) :
    ∃ rank : Value × Value → Nat, (∀ q, rank q ≤ σ.cells.size * σ.cells.size) ∧
      ∀ q r, Relation.ReflTransGen σ.Asks p q → σ.Asks q r → rank r < rank q := by
  obtain ⟨rank, hle, hless⟩ := exists_rank_of_noReturn (R := σ.Asks)
    (fun q => (q.1.cell?, q.2.cell?))
    ((Finset.range σ.cells.size).map .some ×ˢ (Finset.range σ.cells.size).map .some)
    (fun q r hqr => Finset.mem_product.2 ⟨hqr.contains.1.cell?_mem, hqr.contains.2.cell?_mem⟩)
    (fun q q' r r' hkey hqr hqr' => by
      obtain ⟨hfirst, hsecond⟩ := Prod.mk.inj hkey
      have heq : q = q' := Prod.ext (eq_of_cell?_eq hqr.mem_parts.1 hqr'.mem_parts.1 hfirst)
        (eq_of_cell?_eq hqr.mem_parts.2 hqr'.mem_parts.2 hsecond)
      exact heq ▸ hqr)
    hreturn
  exact ⟨rank, by simpa using hle, hless⟩

/-- What is not answered comes to something that is not answered with less room. -/
theorem exists_asks_of_none {depth : Nat} (h : hostEqualWithin σ (depth + 1) p.1 p.2 = none) :
    ∃ q, σ.Asks p q ∧ hostEqualWithin σ depth q.1 q.2 = none := by
  rcases hostEqualWithin_cases σ p.1 p.2 with ⟨yes, hyes⟩ | ⟨ms, hms⟩
  · cases (hyes depth).symm.trans h
  · rw [hostEqualWithin_succ hms] at h
    obtain ⟨before, ⟨a, b'⟩, after, rfl, hbefore, hm⟩ :=
      exists_of_everyMember_ne_true (by rw [h]; simp)
    rcases hm with ⟨-, hno⟩ | ⟨b, hb, -, hnone⟩
    · cases hno.symm.trans h
    · obtain rfl : b' = some b := hb
      exact ⟨(a, b), ⟨before, after, hms, depth, hbefore⟩, hnone.symm.trans h⟩

/-- What is answered comes only to what is answered with less room. -/
theorem Asks.answered (hask : σ.Asks p q) {depth : Nat} {yes : Bool}
    (h : hostEqualWithin σ depth p.1 p.2 = some yes) :
    ∃ depth' < depth, ∃ answer, hostEqualWithin σ depth' q.1 q.2 = some answer := by
  obtain ⟨before, after, hmembers, room, hbefore⟩ := hask
  cases depth with
  | zero => cases h
  | succ depth =>
    rw [hostEqualWithin_succ hmembers] at h
    refine ⟨depth, Nat.lt_succ_self _, exists_answer_of_everyMember (fun m hm => ?_) h⟩
    obtain ⟨b, hb, hyes⟩ := hbefore m hm
    exact ⟨b, hb, fun hno => absurd (hostEqualWithin_unique hno hyes) (by simp)⟩

theorem answered_of_transGen (hway : Relation.TransGen σ.Asks p q) {depth : Nat} {yes : Bool}
    (h : hostEqualWithin σ depth p.1 p.2 = some yes) :
    ∃ depth' < depth, ∃ answer, hostEqualWithin σ depth' q.1 q.2 = some answer := by
  induction hway with
  | single hask => exact hask.answered h
  | tail _ hask ih =>
    obtain ⟨depth', hless, answer, hanswer⟩ := ih
    obtain ⟨depth'', hless', hlast⟩ := hask.answered hanswer
    exact ⟨depth'', hless'.trans hless, hlast⟩

/-- A comparison that comes back to itself has no answer. -/
theorem none_of_return (h : Relation.TransGen σ.Asks p p) (depth : Nat) :
    hostEqualWithin σ depth p.1 p.2 = none := by
  induction depth using Nat.strong_induction_on with
  | h depth ih =>
    by_contra hsome
    obtain ⟨yes, hyes⟩ := Option.ne_none_iff_exists'.1 hsome
    obtain ⟨depth', hless, answer, hanswer⟩ := answered_of_transGen h hyes
    cases (ih depth' hless).symm.trans hanswer

theorem none_of_comes_to_return (hway : Relation.ReflTransGen σ.Asks p q)
    (h : Relation.TransGen σ.Asks q q) (depth : Nat) :
    hostEqualWithin σ depth p.1 p.2 = none := by
  rcases Relation.reflTransGen_iff_eq_or_transGen.1 hway with rfl | hway
  · exact none_of_return h depth
  · by_contra hsome
    obtain ⟨yes, hyes⟩ := Option.ne_none_iff_exists'.1 hsome
    obtain ⟨depth', -, answer, hanswer⟩ := answered_of_transGen hway hyes
    cases (none_of_return h depth').symm.trans hanswer

/-- Where no comparison comes back to itself, there is an answer. -/
theorem exists_answer_of_noReturn
    (hreturn : ∀ q, Relation.ReflTransGen σ.Asks p q → ¬ Relation.TransGen σ.Asks q q) :
    ∃ yes, hostEqual? σ p.1 p.2 = some yes := by
  obtain ⟨rank, hle, hless⟩ := exists_rank_of_asks hreturn
  -- Each step of the comparison lowers the rank, so the room is enough wherever it is above the rank.
  have hroom : ∀ depth q, Relation.ReflTransGen σ.Asks p q → rank q < depth →
      hostEqualWithin σ depth q.1 q.2 ≠ none := by
    intro depth
    induction depth with
    | zero => exact fun q _ hlt => absurd hlt (Nat.not_lt_zero _)
    | succ depth ih =>
      intro q hq hlt hnone
      obtain ⟨r, hask, hnone⟩ := exists_asks_of_none hnone
      have hlower := hless q r hq hask
      exact ih r (hq.tail hask) (by omega) hnone
  exact Option.ne_none_iff_exists'.1 (hroom _ p .refl (Nat.lt_succ_of_le (hle p)))

/-- What is inside a comparison is inside the values that are compared. -/
theorem contains_of_asks (h : Relation.TransGen σ.Asks p q) :
    Relation.TransGen σ.Contains p.1 q.1 ∧ Relation.TransGen σ.Contains p.2 q.2 :=
  ⟨h.lift Prod.fst fun _ _ hask => hask.contains.1, h.lift Prod.snd fun _ _ hask => hask.contains.2⟩

theorem reach_of_asks (h : Relation.ReflTransGen σ.Asks p q) :
    Relation.ReflTransGen σ.Contains p.1 q.1 ∧ Relation.ReflTransGen σ.Contains p.2 q.2 :=
  ⟨h.lift Prod.fst fun _ _ hask => hask.contains.1, h.lift Prod.snd fun _ _ hask => hask.contains.2⟩

end Store

namespace Value

variable (σ : Store) (a b : Value)

theorem hostEqual?_eq_none_iff_return : hostEqual? σ a b = none ↔
    ∃ p, Relation.ReflTransGen σ.Asks (a, b) p ∧ Relation.TransGen σ.Asks p p := by
  refine ⟨fun h => ?_, fun ⟨p, hway, hreturn⟩ => Store.none_of_comes_to_return hway hreturn _⟩
  by_contra hno
  obtain ⟨yes, hyes⟩ := Store.exists_answer_of_noReturn (σ := σ) (p := (a, b))
    fun q hq hreturn => hno ⟨q, hq, hreturn⟩
  cases h.symm.trans hyes

theorem returns_of_hostEqual?_eq_none (h : hostEqual? σ a b = none) :
    (∃ u, Relation.ReflTransGen σ.Contains a u ∧ Relation.TransGen σ.Contains u u) ∧
      ∃ u, Relation.ReflTransGen σ.Contains b u ∧ Relation.TransGen σ.Contains u u := by
  obtain ⟨p, hway, hreturn⟩ := (hostEqual?_eq_none_iff_return σ a b).1 h
  obtain ⟨hfirst, hsecond⟩ := Store.reach_of_asks hway
  obtain ⟨hback, hback'⟩ := Store.contains_of_asks hreturn
  exact ⟨⟨p.1, hfirst, hback⟩, p.2, hsecond, hback'⟩

/-- The comparison of two values comes to an end unless it comes to two values that it is in the middle
of comparing: without an answer in the room that there is, there is none in any room. So it comes to an
end when one of the two leads to nothing that is in itself, and when the two are the same. -/
theorem hostEqual_ends :
    (hostEqual? σ a b = none ↔ ∀ depth, hostEqualWithin σ depth a b = none) ∧
    (hostEqual? σ a b = none ↔
      ∃ p, Relation.ReflTransGen σ.Asks (a, b) p ∧ Relation.TransGen σ.Asks p p) ∧
    (hostEqual? σ a b = none → ∀ v ∈ [a, b], ∃ u,
      Relation.ReflTransGen σ.Contains v u ∧ Relation.TransGen σ.Contains u u) ∧
    ∃ yes, hostEqual? σ a a = some yes := by
  have hiff := hostEqual?_eq_none_iff_return σ a b
  refine ⟨⟨fun h depth => ?_, fun h => h _⟩, hiff, fun h v hv => ?_, ?_⟩
  · obtain ⟨p, hway, hreturn⟩ := hiff.1 h
    exact Store.none_of_comes_to_return hway hreturn depth
  · obtain ⟨hfirst, hsecond⟩ := returns_of_hostEqual?_eq_none σ a b h
    rcases List.mem_cons.1 hv with rfl | hv
    · exact hfirst
    · obtain rfl := List.mem_singleton.1 hv
      exact hsecond
  · rcases hostEqualWithin_cases σ a a with ⟨yes, hyes⟩ | ⟨ms, hms⟩
    · exact ⟨yes, hyes _⟩
    · cases hms with
      | items hcells => exact absurd rfl hcells
      | fields hcells => exact absurd rfl hcells

/-- Two arrays of two elements. The first element is the array itself, and the second one is not the same
in both. -/
def twoRings : Program :=
  let ring (name : String) (n : Int32) : List Stmt :=
    [.declare ⟨name, default⟩ (some (.arrayOfSize (.literal (.integer 2) default) default)) default,
      .expression (.assignIndex (.variable ⟨name, default⟩) (.literal (.integer 0) default)
        (.variable ⟨name, default⟩) default) default,
      .expression (.assignIndex (.variable ⟨name, default⟩) (.literal (.integer 1) default)
        (.literal (.integer n) default) default) default]
  ⟨ring "a" 1 ++ ring "b" 2, default⟩

/-- A script can build two values whose comparison does not come to an end. -/
theorem not_hostEqual_ends :
    ¬ ∀ (program : Program) (a b : Value),
      let σ := (Machine.lone.run 5 20 ⟨0, none⟩ program).2.store
      σ.getLocal? 0 "a" = some a → σ.getLocal? 0 "b" = some b →
        ∃ depth yes, hostEqualWithin σ depth a b = some yes := by
  intro h
  obtain ⟨depth, yes, hyes⟩ := h twoRings (.array 0) (.array 1) rfl rfl
  have hask : (Machine.lone.run 5 20 ⟨0, none⟩ twoRings).2.store.Asks
      (.array 0, .array 1) (.array 0, .array 1) :=
    ⟨[], [(.integer 1, some (.integer 2))], .items (by decide) rfl, 0, by simp⟩
  cases (Store.none_of_return (.single hask) depth).symm.trans hyes

end Value

end ScriptEngine
