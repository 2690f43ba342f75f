/-!
Named entries in the order in which their names came. A name that is put again keeps its place; a
name that is taken out loses it.
-/
namespace ScriptEngine

abbrev Entries (α : Type) := List (String × α)

namespace Entries

variable {α : Type}

def get? (name : String) : Entries α → Option α
  | [] => none
  | (n, a) :: rest => if n = name then some a else get? name rest

def put (name : String) (a : α) : Entries α → Entries α
  | [] => [(name, a)]
  | (n, b) :: rest => if n = name then (n, a) :: rest else (n, b) :: put name a rest

def erase (name : String) : Entries α → Entries α
  | [] => []
  | (n, a) :: rest => if n = name then rest else (n, a) :: erase name rest

def has (name : String) (entries : Entries α) : Bool := (get? name entries).isSome

def names (entries : Entries α) : List String := entries.map Prod.fst

def ofList (pairs : List (String × α)) : Entries α :=
  pairs.foldl (fun entries pair => put pair.1 pair.2 entries) []

theorem has_iff {name : String} {entries : Entries α} : has name entries ↔ name ∈ names entries := by
  unfold has names
  induction entries with
  | nil => simp [get?]
  | cons p rest ih =>
    obtain ⟨n, a⟩ := p
    by_cases h : n = name
    · simp [get?, h]
    · simp only [get?, h, if_false, ih, List.map_cons, List.mem_cons, Ne.symm h, false_or]

theorem get?_put_self (name : String) (a : α) (entries : Entries α) :
    get? name (put name a entries) = some a := by
  induction entries with
  | nil => simp [put, get?]
  | cons p rest ih =>
    obtain ⟨n, b⟩ := p
    by_cases h : n = name <;> simp [put, get?, h, ih]

theorem get?_put_of_ne {name other : String} (h : other ≠ name) (a : α) (entries : Entries α) :
    get? other (put name a entries) = get? other entries := by
  induction entries with
  | nil => simp [put, get?, h.symm]
  | cons p rest ih =>
    obtain ⟨n, b⟩ := p
    by_cases hn : n = name
    · subst hn
      simp [put, get?, h.symm]
    · simp only [put, hn, if_false, get?, ih]

theorem names_put (name : String) (a : α) (entries : Entries α) :
    names (put name a entries)
      = if name ∈ names entries then names entries else names entries ++ [name] := by
  unfold names
  induction entries with
  | nil => simp [put]
  | cons p rest ih =>
    obtain ⟨n, b⟩ := p
    by_cases h : n = name
    · simp [put, h]
    · simp only [put, h, if_false, List.map_cons, ih, List.mem_cons, Ne.symm h, false_or]
      split <;> rfl

theorem names_nodup_put {entries : Entries α} (h : (names entries).Nodup) (name : String) (a : α) :
    (names (put name a entries)).Nodup := by
  rw [names_put]
  split
  · exact h
  · rw [List.nodup_append]
    exact ⟨h, by simp, by grind⟩

end Entries

end ScriptEngine
