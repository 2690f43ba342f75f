/-!
White space of every script: the characters that a blank text may consist of.
-/
namespace ScriptEngine.Text

def isBlankChar (c : Char) : Bool :=
  let n := c.toNat
  (9 ≤ n && n ≤ 13) || n == 32 || n == 0x85 || n == 0xA0 || n == 0x1680
    || (0x2000 ≤ n && n ≤ 0x200A) || n == 0x2028 || n == 0x2029 || n == 0x202F || n == 0x205F
    || n == 0x3000

/-- A text is blank when nothing is left of it once white space is taken off. -/
def isBlank (text : String) : Bool := text.toList.all isBlankChar

end ScriptEngine.Text
