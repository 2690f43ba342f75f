/-!
The characters of a text by their places. Going to a place takes as many steps as there are characters
before it, and no list of the characters is made; the character found is the one in the list.
-/
namespace ScriptEngine.Text

/-- The character at a place, counted from 0. -/
def charAt? (text : String) (i : Nat) : Option Char :=
  let place := text.startPos.nextn i
  if h : place = text.endPos then none else some (place.get h)

theorem charAt?_eq (text : String) (i : Nat) : charAt? text i = text.toList[i]? := by
  have parts := text.splits_nextn_startPos i
  have head : text.toList[i]? = (text.toList.drop i).head? := by simp
  unfold charAt?
  rw [head]
  cases rest : text.toList.drop i with
  | nil =>
    rw [rest] at parts
    rw [dif_pos (parts.eq_endPos_iff.2 rfl)]
    rfl
  | cons c more =>
    have parts : (text.startPos.nextn i).Splits (String.ofList (text.toList.take i))
        (String.singleton c ++ String.ofList more) := by
      rw [rest] at parts
      rwa [← String.ofList_cons]
    rw [dif_neg parts.ne_endPos_of_singleton, parts.next.get_eq_of_singleton]
    rfl

/-- There is a character exactly at the places below the length. -/
theorem charAt?_isSome_iff (text : String) (i : Nat) : (charAt? text i).isSome ↔ i < text.length := by
  rw [charAt?_eq, isSome_getElem?, String.length_toList]

end ScriptEngine.Text
