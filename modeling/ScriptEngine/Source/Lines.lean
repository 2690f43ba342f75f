/-!
The lines of a text. A line feed ends a line; carriage returns before it are not part of the line's
text. A text always has a first line, and one more for each line feed.
-/
namespace ScriptEngine.Source

/-- The pieces between line feeds. -/
def pieces : List Char → List (List Char)
  | [] => [[]]
  | '\n' :: rest => [] :: pieces rest
  | c :: rest =>
    match pieces rest with
    | [] => [[c]]
    | line :: lines => (c :: line) :: lines

def stripReturns (line : List Char) : List Char :=
  (line.reverse.dropWhile (· == '\r')).reverse

def lines (text : List Char) : List (List Char) := (pieces text).map stripReturns

def lineCount (text : List Char) : Nat := (pieces text).length

/-- The text of a line, counted from 1. -/
def line? (text : List Char) (n : Nat) : Option (List Char) :=
  if n = 0 then none else (pieces text)[n - 1]?.map stripReturns

/-- The text of a line as a report quotes it: empty when there is no such line. -/
def quotedLine (text : List Char) (n : Nat) : String :=
  String.ofList ((line? text n).getD [])

theorem pieces_ne_nil (text : List Char) : pieces text ≠ [] := by
  fun_induction pieces text <;> simp

theorem lineCount_pos (text : List Char) : 0 < lineCount text :=
  List.length_pos_iff.2 (pieces_ne_nil text)

theorem lineCount_eq (text : List Char) : lineCount text = text.count '\n' + 1 := by
  unfold lineCount
  fun_induction pieces text with
  | case1 => rfl
  | case2 rest ih => simp [ih]
  | case3 c rest hc h => exact absurd h (pieces_ne_nil rest)
  | case4 c rest hc line lines h ih =>
    rw [h] at ih
    rw [List.count_cons_of_ne hc]
    exact ih

/-- A line has a text exactly when its number is between 1 and the count. -/
theorem line?_isSome_iff (text : List Char) (n : Nat) :
    (line? text n).isSome ↔ 1 ≤ n ∧ n ≤ lineCount text := by
  unfold line? lineCount
  split
  · simp_all
  · simp only [Option.isSome_map, isSome_getElem?]
    omega

end ScriptEngine.Source
