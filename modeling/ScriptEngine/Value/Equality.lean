import ScriptEngine.Store.Basic
import ScriptEngine.Value.Operators

/-!
Equality as the host sees it: arrays and structs by their contents, the fields of structs in any
order, callables by identity, everything else by kind and value. Contents that are nested without end
leave the question open.
-/
namespace ScriptEngine.Value

/-- Asks the same question of the members of two lists in turn, until one answer is not yes. -/
def everyPair (same : Value → Value → Option Bool) : List Value → List Value → Option Bool
  | [], [] => some true
  | a :: as, b :: bs =>
    match same a b with
    | some true => everyPair same as bs
    | answer => answer
  | _, _ => some false

/-- Asks the same question of the fields of one struct and those of the same names in another. -/
def everyField (same : Value → Value → Option Bool) (other : Entries Value) :
    Entries Value → Option Bool
  | [] => some true
  | (name, a) :: rest =>
    match other.get? name with
    | none => some false
    | some b =>
      match same a b with
      | some true => everyField same other rest
      | answer => answer

/-- Compares two values nested at most `depth` deep. -/
def hostEqualWithin (σ : Store) : Nat → Value → Value → Option Bool
  | 0, _, _ => none
  | depth + 1, a, b =>
    match a, b with
    | null, null => some true
    | boolean a, boolean b => some (a == b)
    | integer a, integer b => some (a == b)
    | float a, float b => some (a.equal b)
    | string a, string b => some (a == b)
    | array a, array b =>
      if a = b then some true
      else if (σ.items a).size ≠ (σ.items b).size then some false
      else everyPair (hostEqualWithin σ depth) (σ.items a).toList (σ.items b).toList
    | struct a, struct b =>
      if a = b then some true
      else if (σ.fields a).length ≠ (σ.fields b).length then some false
      else everyField (hostEqualWithin σ depth) (σ.fields b) (σ.fields a)
    | function a, function b => some (a.identity == b.identity)
    | native a, native b => some (a.identity == b.identity)
    | _, _ => some false

/-- Whether two values are equal. A comparison that goes deeper than there are pairs of cells has come
back to a pair it is in the middle of and would not end: then there is no answer. -/
def hostEqual? (σ : Store) (a b : Value) : Option Bool :=
  hostEqualWithin σ (σ.cells.size * σ.cells.size + 1) a b

end ScriptEngine.Value
