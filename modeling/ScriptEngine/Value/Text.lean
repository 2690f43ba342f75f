import ScriptEngine.Numeric.Notation
import ScriptEngine.Store.Basic
import ScriptEngine.Text.Escaped

/-!
The textual form of values. An array or struct that is met inside its own text is written as a mark;
everywhere else it is written in full.
-/
namespace ScriptEngine.Value

def bracket (left right : Char) (parts : List String) : String :=
  left.toString ++ String.intercalate ", " parts ++ right.toString

def arrayText (parts : List String) : String := bracket '[' ']' parts

def structText (parts : List (String × String)) : String :=
  bracket (Char.ofNat 123) (Char.ofNat 125) (parts.map fun part => part.1 ++ "=" ++ part.2)

def arrayMark : String := "[...]"

def structMark : String := "\x7b...\x7d"

/-- The text of a value inside the cells `around`, nested at most `depth` deep. -/
def textWithin (σ : Store) : Nat → List CellId → Value → String
  | 0, _, _ => ""
  | depth + 1, around, v =>
    match v with
    | null => "null"
    | boolean b => if b then "true" else "false"
    | integer n => toString n.toInt
    | float x => x.text
    | string text => text
    | array cell =>
      if cell ∈ around then arrayMark
      else arrayText ((σ.items cell).toList.map (textWithin σ depth (cell :: around)))
    | struct cell =>
      if cell ∈ around then structMark
      else
        structText ((σ.fields cell).map fun field =>
          (field.1, textWithin σ depth (cell :: around) field.2))
    | function f => f.signature
    | native f => f.signature

/-- The text of a value. Cells around a value are all different, so no value is nested deeper than
there are cells. -/
def text (σ : Store) (v : Value) : String := textWithin σ (σ.cells.size + 1) [] v

/-- The text of a value for inspection. -/
def inspect (σ : Store) : Value → String
  | string text => Text.Escaped.quote text
  | function f => "<function " ++ f.name ++ ">"
  | native f => "<native " ++ f.name ++ ">"
  | v => v.text σ

end ScriptEngine.Value
