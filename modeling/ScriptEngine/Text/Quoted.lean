/-!
Quoted text of a record: a character that would end or break the quotation is written as an escape,
every other character as itself. Reading undoes writing.
-/
namespace ScriptEngine.Text.Quoted

/-- The digit of a number below sixteen, in lower case. -/
def hexDigit (n : Nat) : Char := "0123456789abcdef".toList.getD n '0'

def hexValue? (c : Char) : Option Nat :=
  if '0' ≤ c ∧ c ≤ '9' then some (c.toNat - '0'.toNat)
  else if 'a' ≤ c ∧ c ≤ 'f' then some (c.toNat - 'a'.toNat + 10)
  else none

/-- The letter that stands for a character with a short escape. -/
def shortEscape? (c : Char) : Option Char :=
  if c = '"' then some '"'
  else if c = '\\' then some '\\'
  else if c = Char.ofNat 8 then some 'b'
  else if c = Char.ofNat 12 then some 'f'
  else if c = '\n' then some 'n'
  else if c = '\r' then some 'r'
  else if c = '\t' then some 't'
  else none

def ofShortEscape? (c : Char) : Option Char :=
  if c = '"' then some '"'
  else if c = '\\' then some '\\'
  else if c = 'b' then some (Char.ofNat 8)
  else if c = 'f' then some (Char.ofNat 12)
  else if c = 'n' then some '\n'
  else if c = 'r' then some '\r'
  else if c = 't' then some '\t'
  else none

/-- A control character without a short escape is written with two hexadecimal digits. -/
def escape (c : Char) : List Char :=
  match shortEscape? c with
  | some letter => ['\\', letter]
  | none =>
    if c.toNat < 32 then ['\\', 'u', '0', '0', hexDigit (c.toNat / 16), hexDigit (c.toNat % 16)]
    else [c]

def escapeAll (text : List Char) : List Char := text.flatMap escape

def encode (text : List Char) : List Char := '"' :: escapeAll text ++ ['"']

/-- The text up to the closing quote, and what follows it. -/
def decodeRest : List Char → Option (List Char × List Char)
  | [] => none
  | '"' :: rest => some ([], rest)
  | '\\' :: 'u' :: '0' :: '0' :: high :: low :: rest =>
    match hexValue? high, hexValue? low with
    | some h, some l => (decodeRest rest).map fun r => (Char.ofNat (16 * h + l) :: r.1, r.2)
    | _, _ => none
  | '\\' :: letter :: rest =>
    match ofShortEscape? letter with
    | some c => (decodeRest rest).map fun r => (c :: r.1, r.2)
    | none => none
  | c :: rest => (decodeRest rest).map fun r => (c :: r.1, r.2)

/-- Reads a quotation at the front of a text. -/
def decode : List Char → Option (List Char × List Char)
  | '"' :: rest => decodeRest rest
  | _ => none

theorem hexValue?_hexDigit {n : Nat} (h : n < 16) : hexValue? (hexDigit n) = some n := by
  have all : ∀ k : Fin 16, hexValue? (hexDigit k) = some k.val := by decide
  exact all ⟨n, h⟩

/-- A short escape stands for the character it was made from. -/
theorem ofShortEscape?_of_shortEscape? {c letter : Char} (h : shortEscape? c = some letter) :
    ofShortEscape? letter = some c ∧ letter ≠ 'u' := by
  unfold shortEscape? at h
  (repeat' split at h) <;> cases h <;> subst_vars <;> decide

/-- A character without an escape is neither the quote nor the backslash. -/
theorem ne_of_shortEscape?_eq_none {c : Char} (h : shortEscape? c = none) : c ≠ '"' ∧ c ≠ '\\' := by
  constructor <;> rintro rfl <;> revert h <;> decide

/-- Reading the escape of a character gives the character back. -/
theorem decodeRest_escape (c : Char) (text : List Char) :
    decodeRest (escape c ++ text) = (decodeRest text).map fun r => (c :: r.1, r.2) := by
  unfold escape
  split
  · rename_i letter h
    obtain ⟨back, hu⟩ := ofShortEscape?_of_shortEscape? h
    simp [decodeRest, back, hu]
  · rename_i h
    obtain ⟨hq, hb⟩ := ne_of_shortEscape?_eq_none h
    split
    · rename_i hc
      have high : c.toNat / 16 < 16 := by omega
      have low : c.toNat % 16 < 16 := Nat.mod_lt _ (by decide)
      have value : 16 * (c.toNat / 16) + c.toNat % 16 = c.toNat := by omega
      simp [decodeRest, hexValue?_hexDigit high, hexValue?_hexDigit low, value]
    · simp [decodeRest, hb]

theorem decode_encode (text rest : List Char) :
    decode (encode text ++ rest) = some (text, rest) := by
  have step : ∀ text : List Char,
      decodeRest (escapeAll text ++ '"' :: rest) = some (text, rest) := by
    intro text
    induction text with
    | nil => simp [escapeAll, decodeRest]
    | cons c text ih =>
      simp only [escapeAll, List.flatMap_cons, List.append_assoc] at *
      rw [decodeRest_escape, ih]
      rfl
  simpa [encode, decode] using step text

end ScriptEngine.Text.Quoted
