import Mathlib.Algebra.Group.Nat.Defs
import ScriptEngine.Run.Program

/-!
Strings as sequences of characters. A standard function counts the characters of a string, an index
finds one of them, as a string of its own, and the sum of two strings has the characters of the first
one before those of the second one. All three come down to the list of the characters, so that they
count alike whatever the characters are; what they do to each other is then said of lists.
-/
namespace ScriptEngine

namespace Text

/-- The character that an index finds. -/
def atIndex? (text : String) (i : Int32) : Option Char :=
  if 0 ≤ i then text.toList[i.toInt.toNat]? else none

variable {s t : String} {i : Int32}

theorem atIndex?_isSome_iff : (atIndex? s i).isSome ↔ 0 ≤ i ∧ i.toInt < s.length := by
  unfold atIndex?
  by_cases hi : 0 ≤ i
  · have hint : 0 ≤ i.toInt := Int32.le_iff_toInt_le.1 hi
    rw [if_pos hi, isSome_getElem?, String.length_toList, and_iff_right hi]
    omega
  · simp [hi]

theorem atIndex?_ofNat {n : Nat} (hn : n < 2 ^ 31) : atIndex? s (Int32.ofNat n) = s.toList[n]? := by
  have hint : (Int32.ofNat n).toInt = n := Int32.toInt_ofNat_of_lt hn
  have hi : 0 ≤ Int32.ofNat n := Int32.le_iff_toInt_le.2 (hint ▸ Int.natCast_nonneg n)
  rw [atIndex?, if_pos hi, hint, Int.toNat_natCast]

/-- An index into two texts in a row is one into the first or, behind its end, one into the second. -/
theorem atIndex?_append {n : Int32} (hn : n.toInt = s.length) :
    atIndex? (s ++ t) i = if i < n then atIndex? s i else atIndex? t (i - n) := by
  have hstart : (0 : Int32) ≤ n := Int32.le_iff_toInt_le.2 (hn ▸ Int.natCast_nonneg _)
  by_cases hbefore : i < n
  · have hlt : i.toInt < s.length := hn ▸ Int32.lt_iff_toInt_lt.1 hbefore
    rw [if_pos hbefore, atIndex?, atIndex?, String.toList_append]
    by_cases hi : 0 ≤ i
    · have hint : 0 ≤ i.toInt := Int32.le_iff_toInt_le.1 hi
      rw [if_pos hi, if_pos hi, List.getElem?_append_left (by rw [String.length_toList]; omega)]
    · rw [if_neg hi, if_neg hi]
  · -- the difference of the two indices is small enough for the numbers of a script
    have hbehind : n ≤ i := Int32.not_lt.1 hbefore
    have hi : 0 ≤ i := Int32.le_trans hstart hbehind
    have hdiff : (i - n).toInt = i.toInt - s.length := hn ▸ Int32.toInt_sub_of_le i n hstart hbehind
    have hint : (s.length : Int) ≤ i.toInt := hn ▸ Int32.le_iff_toInt_le.1 hbehind
    have hrest : 0 ≤ i - n := Int32.le_iff_toInt_le.2 (show 0 ≤ (i - n).toInt by omega)
    rw [if_neg hbefore, atIndex?, atIndex?, if_pos hi, if_pos hrest, String.toList_append,
      List.getElem?_append_right (by rw [String.length_toList]; omega), String.length_toList, hdiff,
      Int.toNat_sub']

end Text

/-- What a place in a string comes to: the character that is there, or a failure at the place `p`. -/
theorem Eval.readIndex_string (s : String) (i : Int32) (p : Span) (m : Machine) :
    Eval.readIndex (.string s) i p m =
      match Text.atIndex? s i with
      | some c => .done (.string c.toString) m
      | none => .failed (.indexOutOfBounds i s.length) p m := by
  simp only [readIndex, position, Text.charAt?_eq]
  by_cases hi : 0 ≤ i
  · rw [Text.atIndex?, if_pos hi]
    by_cases hlt : i.toInt.toNat < s.length
    · obtain ⟨c, hc⟩ : ∃ c, s.toList[i.toInt.toNat]? = some c :=
        Option.isSome_iff_exists.1 (by rwa [isSome_getElem?, String.length_toList])
      rw [if_pos ⟨hi, hlt⟩, hc]
      exact congrArg (Outcome.done · m) (by rw [hc])
    · rw [if_neg fun h => hlt h.2, List.getElem?_eq_none (by rw [String.length_toList]; omega)]
      rfl
  · rw [Text.atIndex?, if_neg hi, if_neg fun h => hi h.1]
    rfl

/-- The sum of an empty string and of what the first `n` indices find, one after the other. -/
def Expr.rejoined (e : Expr) (p : Span) : Nat → Expr
  | 0 => .literal (.string "") p
  | n + 1 => .binary .add (e.rejoined p n) (.index e (.literal (.integer (Int32.ofNat n)) p) p) p

/-- Where an expression is evaluated: the frame, the machine, and how deep calls may be. -/
structure Setting where
  limit : Nat
  scope : FrameId
  machine : Machine

namespace Setting

/-- With enough fuel this is what the expression comes to. -/
def Comes (S : Setting) (e : Expr) (outcome : Outcome Value) : Prop :=
  ∃ enough, ∀ fuel, enough ≤ fuel → Eval.expr S.limit fuel S.scope e S.machine = outcome

/-- The expression has the value, and it changes nothing. -/
def Gives (S : Setting) (e : Expr) (v : Value) : Prop := S.Comes e (.done v S.machine)

/-- The expression has no value for this reason, and it changes nothing. -/
def Fails (S : Setting) (e : Expr) (fault : RuntimeFault) (place : Span) : Prop :=
  S.Comes e (.failed fault place S.machine)

/-- The name means the standard function that counts. -/
def Counts (S : Setting) (callee : Name) : Prop :=
  ∃ frame f, S.machine.store.resolve S.scope callee.text = some frame ∧
    S.machine.store.getLocal? frame callee.text = some (.native f) ∧ f.action = .length ∧ f.arity = 1

variable {S : Setting} {callee : Name} {a b k : Expr} {s t : String} {i : Int32}

/-! Evaluation with enough fuel -/

theorem Comes.unique {e : Expr} {o o' : Outcome Value} (h : S.Comes e o) (h' : S.Comes e o') :
    o = o' := by
  obtain ⟨enough, h⟩ := h
  obtain ⟨enough', h'⟩ := h'
  exact (h _ (Nat.le_max_left enough enough')).symm.trans (h' _ (Nat.le_max_right enough enough'))

theorem Comes.of_succ {e : Expr} {o : Outcome Value} (enough : Nat)
    (h : ∀ fuel, enough ≤ fuel → Eval.expr S.limit (fuel + 1) S.scope e S.machine = o) :
    S.Comes e o := by
  refine ⟨enough + 1, fun fuel hfuel => ?_⟩
  cases fuel with
  | zero => exact absurd hfuel (Nat.not_succ_le_zero enough)
  | succ fuel => exact h fuel (Nat.le_of_succ_le_succ hfuel)

theorem gives_literal (value : Literal) (p : Span) : S.Gives (.literal value p) value.toValue :=
  .of_succ 0 fun _ _ => rfl

/-- What is done with the values of two expressions is done in the same machine. -/
theorem Gives.both {x y : Value} (ha : S.Gives a x) (hb : S.Gives b y) :
    ∃ enough, ∀ fuel, enough ≤ fuel → ∀ f : Value → Value → Eval Value,
      (Eval.expr S.limit fuel S.scope a >>= fun x => Eval.expr S.limit fuel S.scope b >>= f x)
        S.machine = f x y S.machine := by
  obtain ⟨enough, ha⟩ := ha
  obtain ⟨enough', hb⟩ := hb
  refine ⟨max enough enough', fun fuel hfuel f => ?_⟩
  rw [Eval.bind_apply, ha fuel (by omega)]
  change (Eval.expr S.limit fuel S.scope b >>= f x) S.machine = f x y S.machine
  rw [Eval.bind_apply, hb fuel (by omega)]

theorem Gives.index {v w : Value} (ha : S.Gives a v) (hk : S.Gives k w) (p : Span) :
    S.Comes (.index a k p) (Eval.readIndex v w.toInt32 p S.machine) := by
  obtain ⟨enough, h⟩ := ha.both hk
  exact .of_succ enough fun fuel hfuel => h fuel hfuel fun v w => Eval.readIndex v w.toInt32 p

theorem Gives.binary {v w u : Value} {op : BinaryOp} (ha : S.Gives a v) (hb : S.Gives b w)
    (hop : op.apply S.machine.store v w = .ok u) (p : Span) : S.Gives (.binary op a b p) u := by
  obtain ⟨enough, h⟩ := ha.both hb
  refine .of_succ enough fun fuel hfuel => ?_
  refine (h fuel hfuel fun v w => Eval.applyBinary op v w p).trans ?_
  rw [Eval.applyBinary, hop]

theorem Counts.gives (hcallee : S.Counts callee) (ha : S.Gives a (.string s)) (p : Span) :
    S.Gives (.call callee [a] p) (.integer (Int32.ofNat s.length)) := by
  obtain ⟨frame, f, hframe, hf, haction, harity⟩ := hcallee
  obtain ⟨enough, ha⟩ := ha
  have hfit : f.fit [.string s] = [.string s] := by simp [Native.fit, harity]
  refine .of_succ (enough + 2) fun fuel hfuel => ?_
  obtain ⟨more, rfl⟩ := Nat.exists_eq_add_of_le' hfuel
  have hresolve : Eval.resolve S.scope callee S.machine = .done frame S.machine := by
    rw [Eval.resolve, hframe]
  have harguments : Eval.exprs S.limit (more + (enough + 2)) S.scope [a] S.machine =
      .done [.string s] S.machine := by
    rw [← Nat.add_assoc, Eval.exprs]
    exact Eval.bind_eq_done_iff.2 ⟨_, _, ha _ (by omega), rfl⟩
  have hfunction : Eval.ask (fun σ => (σ.getLocal? frame callee.text).getD .null) S.machine =
      .done (.native f) S.machine := by
    rw [Eval.ask, hf, Option.getD_some]
  have hcall : Eval.callNative f [.string s] p S.machine =
      .done (.integer (Int32.ofNat s.length)) S.machine := by
    rw [Eval.callNative, Native.call, hfit, haction]
    rfl
  rw [Eval.expr]
  refine Eval.bind_eq_done_iff.2 ⟨_, _, hresolve, Eval.bind_eq_done_iff.2 ⟨_, _, harguments, ?_⟩⟩
  exact Eval.bind_eq_done_iff.2 ⟨_, _, hfunction, hcall⟩

/-! Strings -/

theorem Gives.place (ha : S.Gives a (.string s)) (hk : S.Gives k (.integer i)) (p : Span) :
    S.Comes (.index a k p)
      (match Text.atIndex? s i with
        | some c => .done (.string c.toString) S.machine
        | none => .failed (.indexOutOfBounds i s.length) p S.machine) :=
  Eval.readIndex_string s i p S.machine ▸ ha.index hk p

theorem Gives.place_iff (ha : S.Gives a (.string s)) (hk : S.Gives k (.integer i)) (p : Span)
    (v : Value) :
    S.Gives (.index a k p) v ↔ ∃ c, Text.atIndex? s i = some c ∧ v = .string c.toString := by
  have hplace := ha.place hk p
  constructor
  · intro hv
    have hsame := hplace.unique hv
    cases hc : Text.atIndex? s i with
    | none =>
      rw [hc] at hsame
      cases hsame
    | some c =>
      rw [hc] at hsame
      injection hsame with hsame
      exact ⟨c, rfl, hsame.symm⟩
  · rintro ⟨c, hc, rfl⟩
    rwa [hc] at hplace

/-- The value of a sum of strings has the characters of both. -/
theorem Gives.append (ha : S.Gives a (.string s)) (hb : S.Gives b (.string t)) (p : Span) :
    S.Gives (.binary .add a b p) (.string (s ++ t)) :=
  ha.binary hb rfl p

theorem gives_rejoined (ha : S.Gives a (.string s)) (hs : s.length < 2 ^ 31) (p : Span) {n : Nat}
    (hn : n ≤ s.length) : S.Gives (a.rejoined p n) (.string (String.ofList (s.toList.take n))) := by
  induction n with
  | zero => exact gives_literal (.string "") p
  | succ n ih =>
    have hlt : n < s.toList.length := by rw [String.length_toList]; omega
    have hchar : Text.atIndex? s (Int32.ofNat n) = some s.toList[n] := by
      rw [Text.atIndex?_ofNat (by omega), List.getElem?_eq_getElem hlt]
    have hnext : S.Gives (.index a (.literal (.integer (Int32.ofNat n)) p) p)
        (.string s.toList[n].toString) :=
      (ha.place_iff (gives_literal _ p) p _).2 ⟨_, hchar, rfl⟩
    have hjoined : String.ofList (s.toList.take n) ++ s.toList[n].toString =
        String.ofList (s.toList.take (n + 1)) := by
      rw [← List.take_append_getElem hlt, String.ofList_append]
      rfl
    exact hjoined ▸ (ih (by omega)).append hnext p

/-- What there is to see of a string in the expressions of a script. -/
structure Sequence (S : Setting) (callee : Name) (e : Expr) (s : String) (n : Int32) : Prop where
  length : n.toInt = s.length
  counted : ∀ p, S.Gives (.call callee [e] p) (.integer n)
  found_iff : ∀ k i p, S.Gives k (.integer i) →
    ((∃ v, S.Gives (.index e k p) v) ↔ 0 ≤ i ∧ i < n)
  fails : ∀ k i p, S.Gives k (.integer i) → ¬ (0 ≤ i ∧ i < n) →
    S.Fails (.index e k p) (.indexOutOfBounds i s.length) p
  single : ∀ k i p q v, S.Gives k (.integer i) → S.Gives (.index e k p) v →
    ∃ text, v = .string text ∧ text.length = 1 ∧
      S.Gives (.call callee [.index e k p] q) (.integer 1)
  rejoined : ∀ p, S.Gives (e.rejoined p s.length) (.string s)

/-- What there is to see of the sum of two strings, the first one of `n` characters. -/
structure Concatenation (S : Setting) (callee : Name) (a b : Expr) (s t : String) (n : Int32) :
    Prop where
  sum : ∀ p, S.Gives (.binary .add a b p) (.string (s ++ t))
  counted : ∀ p q r, ∃ z, S.Gives (.call callee [.binary .add a b p] q) (.integer z) ∧
    S.Gives (.binary .add (.call callee [a] p) (.call callee [b] q) r) (.integer z) ∧
    (s.length + t.length < 2 ^ 31 → z.toInt = s.length + t.length)
  found_iff : ∀ k i p q v, S.Gives k (.integer i) →
    (S.Gives (.index (.binary .add a b p) k q) v ↔
      if i < n then S.Gives (.index a k q) v
      else S.Gives (.index b (.binary .sub k (.call callee [a] p) p) q) v)

theorem sequence (hcallee : S.Counts callee) (ha : S.Gives a (.string s)) (hs : s.length < 2 ^ 31) :
    S.Sequence callee a s (Int32.ofNat s.length) := by
  have hlength : (Int32.ofNat s.length).toInt = s.length := Int32.toInt_ofNat_of_lt hs
  have hinside : ∀ i, (Text.atIndex? s i).isSome ↔ 0 ≤ i ∧ i < Int32.ofNat s.length := by
    intro i
    rw [Text.atIndex?_isSome_iff, Int32.lt_iff_toInt_lt, hlength]
  constructor
  case length => exact hlength
  case counted => exact hcallee.gives ha
  case found_iff =>
    intro k i p hk
    rw [← hinside, Option.isSome_iff_exists]
    simp only [ha.place_iff hk p]
    exact ⟨fun ⟨_, c, hc, _⟩ => ⟨c, hc⟩, fun ⟨c, hc⟩ => ⟨_, c, hc, rfl⟩⟩
  case fails =>
    intro k i p hk houtside
    rw [← hinside, Option.not_isSome_iff_eq_none] at houtside
    have hplace := ha.place hk p
    rwa [houtside] at hplace
  case single =>
    intro k i p q v hk hv
    obtain ⟨c, -, rfl⟩ := (ha.place_iff hk p v).1 hv
    have hone : c.toString.length = 1 := String.length_singleton
    have hcounted := hcallee.gives hv q
    rw [hone] at hcounted
    exact ⟨_, rfl, hone, hcounted⟩
  case rejoined =>
    intro p
    have hjoined := gives_rejoined ha hs p (Nat.le_refl _)
    rwa [← String.length_toList, List.take_length, String.ofList_toList,
      String.length_toList] at hjoined

theorem concatenation (hcallee : S.Counts callee) (ha : S.Gives a (.string s))
    (hb : S.Gives b (.string t)) (hs : s.length < 2 ^ 31) :
    S.Concatenation callee a b s t (Int32.ofNat s.length) := by
  have hlength : (Int32.ofNat s.length).toInt = s.length := Int32.toInt_ofNat_of_lt hs
  constructor
  case sum => exact ha.append hb
  case counted =>
    intro p q r
    have hsum := hcallee.gives (ha.append hb p) q
    rw [String.length_append] at hsum
    refine ⟨_, hsum, ?_, fun hfits => Int32.toInt_ofNat_of_lt hfits⟩
    -- beyond the largest number of a script both sides wrap around alike
    rw [Int32.ofNat_add]
    exact (hcallee.gives ha p).binary (hcallee.gives hb q) rfl r
  case found_iff =>
    intro k i p q v hk
    rw [(ha.append hb p).place_iff hk, Text.atIndex?_append hlength]
    by_cases hbefore : i < Int32.ofNat s.length
    · rw [if_pos hbefore, if_pos hbefore, ha.place_iff hk]
    · have hrest : S.Gives (.binary .sub k (.call callee [a] p) p)
          (.integer (i - Int32.ofNat s.length)) := hk.binary (hcallee.gives ha p) rfl p
      rw [if_neg hbefore, if_neg hbefore, hb.place_iff hrest]

/-- Strings are sequences of characters: what a script counts, finds by an index and puts together are
the characters of the string, and each of the three agrees with the others. -/
theorem strings_are_sequences (hcallee : S.Counts callee) (ha : S.Gives a (.string s))
    (hs : s.length < 2 ^ 31) :
    ∃ n, S.Sequence callee a s n ∧
      ∀ b t, S.Gives b (.string t) → S.Concatenation callee a b s t n :=
  ⟨_, sequence hcallee ha hs, fun _ _ hb => concatenation hcallee ha hb hs⟩

/-- The beginning of a run on an empty set of bindings. -/
def onEmptySet : Setting :=
  let emptySet : Store := ⟨#[some ⟨[], none, 1⟩], #[], 0⟩
  ⟨5, 0, (Machine.begin ⟨0, none⟩ { Machine.start with store := emptySet }).2⟩

theorem strings_are_sequences_mixed :
    onEmptySet.Counts ⟨"length", default⟩ ∧
      onEmptySet.Gives (.literal (.string "né€😀") default) (.string "né€😀") ∧
      "né€😀".length < 2 ^ 31 ∧
      ∃ n, onEmptySet.Sequence ⟨"length", default⟩ (.literal (.string "né€😀") default) "né€😀" n ∧
        ∀ b t, onEmptySet.Gives b (.string t) →
          onEmptySet.Concatenation ⟨"length", default⟩ (.literal (.string "né€😀") default) b
            "né€😀" t n := by
  have hcounts : onEmptySet.Counts ⟨"length", default⟩ := ⟨1, _, rfl, rfl, rfl, rfl⟩
  have hgives : onEmptySet.Gives (.literal (.string "né€😀") default) (.string "né€😀") :=
    gives_literal _ _
  have hlength : "né€😀".length < 2 ^ 31 := by decide
  exact ⟨hcounts, hgives, hlength, strings_are_sequences hcounts hgives hlength⟩

end Setting

end ScriptEngine
