import ScriptEngine.Proofs.Reading.Complete
import ScriptEngine.Proofs.Reading.RoundTrip
import ScriptEngine.Proofs.Running.Layout

/-!
Numbers as whole programs. A number, perhaps with a minus before it, and a semicolon after it are cut
into these two or three tokens; they are read as a statement, and the value of the program is the
number or its negative. Signed texts of numbers have a value in no other way, as a literal has no sign.
-/
namespace ScriptEngine

/-- The text is a program that nobody complains about, and whatever machine runs it with fuel for an
operator and its operand, the run ends with the value. -/
def ComesTo (source : List Char) (v : Value) : Prop :=
  ∃ program, parse source = ⟨some program, []⟩ ∧
    ∀ (m : Machine) (limit fuel : Nat) (layers : Layers),
      (m.run limit (fuel + 2) layers program).1 = .value v

namespace Spelling

/-- The number as a statement in a text, negative or not. -/
def statement (negative : Bool) (s : Spelling) : List Char :=
  (Single.sign negative).toList ++ (s.text ++ [';'])

/-- The kinds of the tokens of such a statement. -/
def statementKinds (negative : Bool) (kind : TokenKind) : List TokenKind :=
  (if negative then [.symbol .minus] else []) ++ [kind, .symbol .semicolon]

theorem endsNumber_semicolon : EndsNumber [';'] := by
  intro c hc
  obtain rfl : ';' = c := by simpa using hc
  decide

/-- A minus before a digit stands for itself. -/
theorem first_minus {c : Char} (hc : c.isDigit) (p : Position) (rest : List Char) :
    Scanned.first p '-' ([] ++ c :: rest) = ⟨.token (.symbol .minus), 0, []⟩ := by
  have hminus : c ≠ '-' := by
    rintro rfl
    exact absurd hc (by decide)
  simp [Scanned.first, Scanned.isBlank, Scanned.startsName, Scanned.comment?, Scanned.symbol?, hminus]

/-- The number and the semicolon are read, wherever they stand. -/
theorem readFrom_numeral {s : Spelling} (hs : s.isNumeral) (p : Position) :
    (Lexed.readFrom p 0 (s.text ++ [';']) 0).complaints = [] ∧
      (Lexed.readFrom p 0 (s.text ++ [';']) 0).tokens.map Token.kind =
        [s.kind, .symbol .semicolon, .endOfFile] := by
  obtain ⟨c, tail, htext, -, hfirst⟩ := first_numeral hs p endsNumber_semicolon
  have hsemicolon : ∀ q, Scanned.first q ';' ([] ++ []) = ⟨.token (.symbol .semicolon), 0, []⟩ :=
    fun _ => rfl
  have hend : ∀ q, Lexed.readFrom q 0 ([';'] ++ []) 0 = Lexed.prepend _ [] _ :=
    fun q => Lexed.readFrom_token (hsemicolon q)
  rw [htext, Lexed.readFrom_token hfirst, ← List.append_nil [';'], hend]
  exact ⟨rfl, rfl⟩

theorem lex_statement {s : Spelling} (hs : s.isNumeral) (negative : Bool) :
    (lex (s.statement negative)).complaints = [] ∧
      (lex (s.statement negative)).tokens.map Token.kind =
        statementKinds negative s.kind ++ [.endOfFile] := by
  cases negative with
  | false => exact readFrom_numeral hs ⟨1, 1⟩
  | true =>
    obtain ⟨c, tail, htext, hc, -⟩ := first_numeral hs ⟨1, 1⟩ endsNumber_semicolon
    have hminus := first_minus hc ⟨1, 1⟩ (tail ++ [';'])
    have hread : Lexed.readFrom ⟨1, 1⟩ 0 ('-' :: [] ++ (c :: (tail ++ [';']))) 0 =
        Lexed.prepend _ [] _ := Lexed.readFrom_token hminus
    obtain ⟨hcomplaints, hkinds⟩ := readFrom_numeral hs (Position.after ⟨1, 1⟩ ['-'])
    rw [htext, List.cons_append] at hcomplaints hkinds
    have hsource : s.statement true = '-' :: [] ++ (c :: (tail ++ [';'])) := by
      simp [statement, Single.sign, htext]
    rw [hsource, lex, hread]
    exact ⟨hcomplaints, congrArg (TokenKind.symbol .minus :: ·) hkinds⟩

end Spelling

/-! What the tokens are read as -/

namespace Literal

/-- The statement that consists of a literal, negated or not. -/
def statement (negative : Bool) (l : Literal) : Stmt :=
  let literal : Expr := .literal l default
  .expression (if negative then .unary .negate literal default else literal) default

/-- The value of the statement. -/
def signedValue (negative : Bool) (l : Literal) : Value :=
  if negative then UnaryOp.negate.apply l.toValue else l.toValue

theorem canonical_statement (negative : Bool) (l : Literal) :
    (⟨[l.statement negative], default⟩ : Program).Canonical := by
  cases negative <;> exact ⟨rfl, Nat.le_of_ble_eq_true rfl⟩

theorem tokens_statement (negative : Bool) (l : Literal) :
    (⟨[l.statement negative], default⟩ : Program).tokens =
      Spelling.statementKinds negative l.kind := by
  cases negative <;> rfl

theorem isCallable_signedValue (negative : Bool) (l : Literal) :
    (l.signedValue negative).isCallable = false := by
  cases negative with
  | false => cases l <;> rfl
  | true =>
    simp only [signedValue, if_pos, UnaryOp.apply]
    split <;> rfl

theorem run_statement (negative : Bool) (l : Literal) (m : Machine) (limit fuel : Nat)
    (layers : Layers) :
    (m.run limit (fuel + 2) layers ⟨[l.statement negative], default⟩).1 =
      .value (l.signedValue negative) := by
  cases negative <;> rfl

end Literal

namespace Value

theorem bare_of_not_isCallable {v : Value} (h : v.isCallable = false) : v.bare = v := by
  cases v with
  | function f => simp [isCallable] at h
  | _ => rfl

theorem isCallable_bare (v : Value) : v.bare.isCallable = v.isCallable := by
  cases v <;> rfl

end Value

/-- The text of a number, negative or not, and a semicolon come to the number or its negative. -/
theorem Spelling.comesTo_statement {s : Spelling} (hs : s.isNumeral) {l : Literal}
    (hl : s.kind = l.kind) (negative : Bool) :
    ComesTo (s.statement negative) (l.signedValue negative) := by
  obtain ⟨hcomplaints, hkinds⟩ := lex_statement hs negative
  rw [hl, ← l.tokens_statement] at hkinds
  obtain ⟨program, hprogram, hbare⟩ :=
    Program.exists_ofTokens (l.canonical_statement negative) hkinds
  refine ⟨program, (parse_of_lexed hcomplaints).trans hprogram, fun m limit fuel layers => ?_⟩
  have hvalue := l.isCallable_signedValue negative
  have hrun := (m.run_eq_of_bare hbare rfl limit (fuel + 2) layers).1
  rw [l.run_statement, Ending.bare, Value.bare_of_not_isCallable hvalue] at hrun
  -- Only functions contain places, so the value is the one that is meant and not only like it.
  cases hending : (m.run limit (fuel + 2) layers program).1 with
  | value v =>
    rw [hending] at hrun
    obtain hrun : v.bare = l.signedValue negative := by injection hrun
    have hv : v.isCallable = false := by rw [← v.isCallable_bare, hrun, hvalue]
    rw [← hrun, Value.bare_of_not_isCallable hv]
  | error e =>
    rw [hending] at hrun
    exact absurd hrun (by simp [Ending.bare])
  | exhausted =>
    rw [hending] at hrun
    exact absurd hrun (by simp [Ending.bare])

theorem not_comesTo_of_complaints {source : List Char} (h : (parse source).complaints ≠ [])
    (v : Value) : ¬ ComesTo source v := by
  rintro ⟨program, hprogram, -⟩
  exact h (by rw [hprogram])

/-! Integers -/

theorem toList_toString_int (n : Int) :
    (toString n).toList = (Single.sign (n < 0)).toList ++ (Digits.ofNat n.natAbs).text := by
  rw [Int.toString_eq_repr, Int.repr_eq_if]
  by_cases hn : n < 0
  · have hnatAbs : (-n).toNat = n.natAbs := by omega
    simp [hn, not_le.2 hn, Single.sign, Nat.repr_eq_ofList_toDigits, hnatAbs, Digits.ofNat]
  · have hnatAbs : n.toNat = n.natAbs := by omega
    simp [hn, not_lt.1 hn, Single.sign, Nat.repr_eq_ofList_toDigits, hnatAbs, Digits.ofNat]

/-- The magnitude of every integer but the least is an integer, and the integer is this magnitude or
its negative. -/
theorem Literal.signedValue_natAbs {n : Int32} (h : n.toInt.natAbs ≤ 2147483647) :
    (Literal.integer (Int32.ofNat n.toInt.natAbs)).signedValue (n.toInt < 0) = .integer n := by
  have hmagnitude : (Int32.ofNat n.toInt.natAbs).toInt = n.toInt.natAbs :=
    Int32.toInt_ofNat_of_lt (by omega)
  by_cases hn : n.toInt < 0
  · have hneg : -Int32.ofNat n.toInt.natAbs = n := by
      apply Int32.toInt_inj.1
      rw [Int32.toInt_neg, hmagnitude, Int.bmod_eq_of_le (by omega) (by omega)]
      omega
    simp [signedValue, hn, Literal.toValue, UnaryOp.apply, Value.number, hneg]
  · have hsame : Int32.ofNat n.toInt.natAbs = n := by
      apply Int32.toInt_inj.1
      rw [hmagnitude]
      omega
    simp [signedValue, hn, Literal.toValue, hsame]

/-- The digits of the least integer are read before the minus counts, and they are out of range. -/
theorem parse_least_integer (σ : Store) :
    (parse (((Value.integer Int32.minValue).text σ).toList ++ [';'])).complaints =
      [⟨.integerOutOfRange "2147483648".toList, ⟨⟨1, 2⟩, ⟨1, 11⟩⟩⟩] := by
  have htext : (toString Int32.minValue.toInt).toList ++ [';'] = "-2147483648;".toList := by
    decide +kernel
  change (parse ((toString Int32.minValue.toInt).toList ++ [';'])).complaints = _
  rw [htext]
  decide +kernel

theorem not_comesTo_least_integer (σ : Store) (v : Value) :
    ¬ ComesTo (((Value.integer Int32.minValue).text σ).toList ++ [';']) v :=
  not_comesTo_of_complaints (by rw [parse_least_integer]; simp) v

/-- The text of an integer and a semicolon come to the integer, whichever it is, except for the least
one. Of that one the digits are complained about, since they are out of range without the minus. -/
theorem Value.integer_text_comesTo_iff (σ : Store) (n : Int32) :
    (ComesTo (((Value.integer n).text σ).toList ++ [';']) (.integer n) ↔ n ≠ Int32.minValue) ∧
      (parse (((Value.integer Int32.minValue).text σ).toList ++ [';'])).complaints =
        [⟨.integerOutOfRange "2147483648".toList, ⟨⟨1, 2⟩, ⟨1, 11⟩⟩⟩] := by
  refine ⟨⟨?_, fun hn => ?_⟩, parse_least_integer σ⟩
  · rintro hcomes rfl
    exact not_comesTo_least_integer σ _ hcomes
  · have hrange : n.toInt.natAbs ≤ 2147483647 := by
      have hleast : n.toInt ≠ -2147483648 := fun h => hn (Int32.toInt_inj.1 h)
      have := n.le_toInt
      have := n.toInt_lt
      omega
    have hspelled : (Digits.ofNat n.toInt.natAbs).number ≤ 2147483647 := by simpa using hrange
    have hcomes := (Spelling.integer _ hspelled).comesTo_statement rfl (l := .integer _) rfl
      (decide (n.toInt < 0))
    rw [Digits.number_ofNat, Literal.signedValue_natAbs hrange] at hcomes
    have htext : ((Value.integer n).text σ).toList = (toString n.toInt).toList := rfl
    rw [htext, toList_toString_int, List.append_assoc]
    exact hcomes

theorem not_integer_text_comesTo :
    ¬ ∀ n : Int32, ComesTo (((Value.integer n).text Store.empty).toList ++ [';']) (.integer n) :=
  fun h => not_comesTo_least_integer _ _ (h Int32.minValue)

end ScriptEngine
