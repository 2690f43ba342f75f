/-!
Text from bytes in UTF-8. Bytes that are part of no character are kept as gaps: each gap stands for
the longest beginning of a character that breaks off there, or for a single byte that begins none.
-/
namespace ScriptEngine.Text.Utf8

/-- A byte that continues a character. -/
def isTail (b : UInt8) : Bool := 0x80 ≤ b && b ≤ 0xBF

/-- The bytes that may follow the first byte of a character. Longer forms of shorter characters,
surrogates and numbers beyond the last code point are left out. -/
def isSecond (a b : UInt8) : Bool :=
  if 0xC2 ≤ a && a ≤ 0xDF then isTail b
  else if a == 0xE0 then 0xA0 ≤ b && b ≤ 0xBF
  else if a == 0xED then 0x80 ≤ b && b ≤ 0x9F
  else if 0xE1 ≤ a && a ≤ 0xEF then isTail b
  else if a == 0xF0 then 0x90 ≤ b && b ≤ 0xBF
  else if 0xF1 ≤ a && a ≤ 0xF3 then isTail b
  else if a == 0xF4 then 0x80 ≤ b && b ≤ 0x8F
  else false

/-- The bits of a continuing byte. -/
def tailBits (b : UInt8) : Nat := b.toNat % 0x40

def two (a b : UInt8) : Char := Char.ofNat ((a.toNat % 0x20) <<< 6 + tailBits b)

def three (a b c : UInt8) : Char :=
  Char.ofNat ((a.toNat % 0x10) <<< 12 + tailBits b <<< 6 + tailBits c)

def four (a b c d : UInt8) : Char :=
  Char.ofNat ((a.toNat % 0x08) <<< 18 + tailBits b <<< 12 + tailBits c <<< 6 + tailBits d)

def decode : List UInt8 → List (Option Char)
  | [] => []
  | a :: rest₁ =>
    if a < 0x80 then some (Char.ofNat a.toNat) :: decode rest₁
    else
      match rest₁ with
      | [] => [none]
      | b :: rest₂ =>
        if !isSecond a b then none :: decode (b :: rest₂)
        else if a < 0xE0 then some (two a b) :: decode rest₂
        else
          match rest₂ with
          | [] => [none]
          | c :: rest₃ =>
            if !isTail c then none :: decode (c :: rest₃)
            else if a < 0xF0 then some (three a b c) :: decode rest₃
            else
              match rest₃ with
              | [] => [none]
              | d :: rest₄ =>
                if !isTail d then none :: decode (d :: rest₄)
                else some (four a b c d) :: decode rest₄

/-- The text without gaps, if it has none. -/
def complete? (text : List (Option Char)) : Option (List Char) := text.mapM id

/-- The text with a replacement character for every gap. -/
def replaced (text : List (Option Char)) : List Char :=
  text.map fun c => c.getD (Char.ofNat 0xFFFD)

end ScriptEngine.Text.Utf8
