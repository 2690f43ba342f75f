import Mathlib.Data.List.Basic
import Mathlib.Logic.Function.Iterate
import ScriptEngine.Proofs.Hosting.TextLines
import ScriptEngine.Proofs.Running.Frames

/-!
Files that are read and written back. A reading drops the carriage return before each line feed and the
line feed at the end, and nothing else; what it drops it drops once. So a text is read as it stands when
there is neither of the two in it, and otherwise as a shorter one. A file that is copied over itself
again and again therefore comes to rest, though not always at the first copy.
-/
namespace ScriptEngine

theorem Lined.eq_nil {all : List (List Char)} (h : Lined [] all) : all = [] := by
  cases h with
  | nil => rfl
  | cons hhead _ => exact absurd hhead.length_lt (Nat.not_lt_zero _)

theorem Lined.ne_nil {text : List Char} {all : List (List Char)} (h : Lined text all) (hne : text ≠ []) :
    all ≠ [] := by
  cases h with
  | nil => exact absurd rfl hne
  | cons => exact List.cons_ne_nil _ _

/-- A line feed that no carriage return goes before does not end one. -/
theorem returnFeed_infix_feed {line : List Char} (hline : '\n' ∉ line)
    (hreturn : line.getLast? ≠ some '\r') (rest : List Char) :
    ['\r', '\n'] <:+: line ++ '\n' :: rest ↔ ['\r', '\n'] <:+: rest := by
  induction line with
  | nil => simp [List.infix_cons_iff]
  | cons c line ih =>
    rw [List.mem_cons, not_or] at hline
    rw [List.cons_append, List.infix_cons_iff, or_iff_right]
    · cases line with
      | nil => simp [List.infix_cons_iff]
      | cons d line => exact ih hline.2 (by simpa using hreturn)
    · rw [List.cons_prefix_cons]
      rintro ⟨rfl, hstart⟩
      cases line with
      | nil => exact hreturn rfl
      | cons d line =>
        rw [List.cons_append, List.cons_prefix_cons] at hstart
        exact hline.2 (hstart.1 ▸ List.mem_cons_self)

namespace Files

variable {files : Files} {path : String} {text : List Char}

/-- A text as it is read from a file. -/
def reading (text : List Char) : List Char := joinLines (lines text)

theorem joinLines_cons (line : List Char) {more : List (List Char)} (hmore : more ≠ []) :
    joinLines (line :: more) = line ++ '\n' :: joinLines more := by
  obtain ⟨next, more, rfl⟩ := List.exists_cons_of_ne_nil hmore
  exact List.intercalate_cons_cons.trans (List.append_assoc ..)

theorem length_joinLines_cons (line : List Char) (more : List (List Char)) :
    (joinLines (line :: more)).length ≤ line.length + 1 + (joinLines more).length := by
  cases more with
  | nil => simp [joinLines]
  | cons next more =>
    rw [joinLines_cons line (List.cons_ne_nil _ _), List.length_append, List.length_cons]
    omega

/-- What is dropped makes a text shorter. -/
theorem joinLines_eq_or_length_lt {all : List (List Char)} (h : Lined text all) :
    joinLines all = text ∨ (joinLines all).length < text.length := by
  induction h with
  | nil => exact Or.inl rfl
  | @cons text line rest more hhead hrest ih =>
    have hlength := length_joinLines_cons line more
    have hle : (joinLines more).length ≤ rest.length :=
      ih.elim (fun heq => heq ▸ Nat.le_refl _) Nat.le_of_lt
    cases hhead with
    | feed rest hline hreturn =>
      rw [List.length_append, List.length_cons]
      by_cases hne : rest = []
      · subst hne
        obtain rfl := hrest.eq_nil
        exact Or.inr (by simp [joinLines])
      · rw [joinLines_cons line (hrest.ne_nil hne)]
        rcases ih with heq | hlt
        · exact Or.inl (by rw [heq])
        · exact Or.inr (by rw [List.length_append, List.length_cons]; omega)
    | returnFeed rest hline =>
      rw [List.length_append, List.length_cons, List.length_cons]
      exact Or.inr (by omega)
    | last hline hne =>
      obtain rfl := hrest.eq_nil
      exact Or.inl (by simp [joinLines])

theorem reading_eq_or_length_lt (text : List Char) :
    reading text = text ∨ (reading text).length < text.length := by
  obtain ⟨all, hall⟩ := exists_lined text
  rw [reading, lines_of_lined hall]
  exact joinLines_eq_or_length_lt hall

theorem joinLines_eq_iff {all : List (List Char)} (h : Lined text all) :
    joinLines all = text ↔ text.getLast? ≠ some '\n' ∧ ¬ ['\r', '\n'] <:+: text := by
  induction h with
  | nil => simp [joinLines]
  | @cons text line rest more hhead hrest ih =>
    cases hhead with
    | feed rest hline hreturn =>
      rw [returnFeed_infix_feed hline hreturn]
      by_cases hne : rest = []
      · subst hne
        obtain rfl := hrest.eq_nil
        simp [joinLines]
      · have hlast : (line ++ '\n' :: rest).getLast? = rest.getLast? := by
          rw [List.getLast?_append_of_ne_nil _ (List.cons_ne_nil _ _), List.getLast?_cons_of_ne_nil hne]
        rw [joinLines_cons line (hrest.ne_nil hne), hlast, ← ih]
        simp
    | returnFeed rest hline =>
      have hle : (joinLines more).length ≤ rest.length :=
        (joinLines_eq_or_length_lt hrest).elim (fun heq => heq ▸ Nat.le_refl _) Nat.le_of_lt
      have hlength := length_joinLines_cons line more
      refine iff_of_false (fun heq => ?_) fun h => h.2 ⟨line, rest, by simp⟩
      rw [heq, List.length_append, List.length_cons, List.length_cons] at hlength
      omega
    | last hline hne =>
      obtain rfl := hrest.eq_nil
      refine iff_of_true (by simp [joinLines]) ⟨fun hlast => ?_, fun hinside => ?_⟩
      · exact hline (List.mem_of_getLast? hlast)
      · exact hline (hinside.subset (by simp))

/-- A text is read as it stands when no line feed ends it and no carriage return comes right before a
line feed. -/
theorem reading_eq_self_iff (text : List Char) :
    reading text = text ↔ text.getLast? ≠ some '\n' ∧ ¬ ['\r', '\n'] <:+: text := by
  obtain ⟨all, hall⟩ := exists_lined text
  rw [reading, lines_of_lined hall]
  exact joinLines_eq_iff hall

/-- Readings of readings come to rest: each that is not the last is shorter than the one before. -/
theorem reading_iterate_fixed {bound : Nat} (hbound : text.length ≤ bound) :
    reading (reading^[bound] text) = reading^[bound] text := by
  induction bound generalizing text with
  | zero =>
    rcases reading_eq_or_length_lt text with heq | hlt
    · exact heq
    · omega
  | succ bound ih =>
    rw [Function.iterate_succ_apply]
    rcases reading_eq_or_length_lt text with heq | hlt
    · rw [heq, Function.iterate_fixed heq]
      exact heq
    · exact ih (by omega)

/-! Writing to a file that is there -/

theorem find_put_eq_error_iff {name : String} (hname : (files.get? name).isSome)
    (contents : List (Option Char)) (own : Bool) (part : String) (fault : HostFault) :
    find (files.put name contents) own part = .error fault ↔ files.find own part = .error fault := by
  unfold find
  by_cases hlong : maxName < part.utf8ByteSize
  · rw [if_pos hlong, if_pos hlong]
  · rw [if_neg hlong, if_neg hlong]
    cases own with
    | false => rfl
    | true =>
      obtain ⟨old, hold⟩ := Option.isSome_iff_exists.mp hname
      rw [if_pos rfl, if_pos rfl, Entries.get?_put]
      by_cases hpart : part = name
      · subst hpart
        rw [if_pos rfl, hold]
        simp
      · rw [if_neg hpart]

/-- Paths lead where they led: no file is new. -/
theorem follow_put {name : String} (hname : (files.get? name).isSome) (contents : List (Option Char))
    (own : Bool) (parts : List String) :
    follow (files.put name contents) own parts = files.follow own parts := by
  induction parts generalizing own with
  | nil => rfl
  | cons part rest ih =>
    have herror := find_put_eq_error_iff hname contents own part
    rw [follow, follow, ih, ih]
    cases hfind : files.find own part with
    | error fault => rw [(herror fault).mpr hfind]
    | ok old =>
      cases hput : find (files.put name contents) own part with
      | error fault => exact absurd (hfind.symm.trans ((herror fault).mp hput)) (by simp)
      | ok new => rfl

/-- A file that can be read can be written, and the path leads to it still. -/
theorem Contains.write (h : files.Contains path text) (new : String) :
    ∃ files' : Files, files.write path new = .ok files' ∧ files'.Contains path new.toList := by
  obtain ⟨hslash, own, name, hlocate, hfind⟩ := h
  have hshort : ¬ maxName < name.utf8ByteSize := by
    intro hlong
    rw [find, if_pos hlong] at hfind
    exact absurd hfind (by simp)
  rw [find, if_neg hshort] at hfind
  cases own with
  | false => exact absurd hfind (by simp)
  | true =>
    have hname : (files.get? name).isSome := by
      rw [if_pos rfl] at hfind
      cases hget : files.get? name with
      | none =>
        rw [hget] at hfind
        exact absurd hfind (by simp)
      | some old => rfl
    refine ⟨files.put name (new.toList.map some), ?_, hslash, true, name, ?_, ?_⟩
    · simp [Files.write, hlocate, hslash, hshort]
    · rw [← hlocate, locate, locate, follow_put hname]
    · rw [find, if_neg hshort, if_pos rfl, Entries.get?_put_self]

end Files

namespace Machine

variable {m : Machine} {path : Value} {place : String} {text : List Char}

/-- The file is read, and what was read is written back. -/
def copy (m : Machine) (path : Value) : Except HostFault Value × Machine :=
  match NativeAction.readFile.run [path] m with
  | (.ok text, m) => NativeAction.writeFile.run [path, text] m
  | failed => failed

/-- The machine after so many copies. -/
def copied (m : Machine) (path : Value) : Nat → Machine
  | 0 => m
  | n + 1 => ((m.copied path n).copy path).2

theorem writeFile_of_contains (hpath : path.path m.store = .ok place)
    (hfile : m.files.Contains place text) (new : String) :
    ∃ files : Files, NativeAction.writeFile.run [path, .string new] m =
      (.ok .null, { m with files := files }) ∧ files.Contains place new.toList := by
  obtain ⟨files, hwrite, hcontains⟩ := hfile.write new
  have htext : (Value.string new).text m.store = new := rfl
  refine ⟨files, ?_, hcontains⟩
  simp [NativeAction.run, writeFile, hpath, Value.isNull, htext, hwrite]

theorem copied_contains (hpath : path.path m.store = .ok place)
    (hfile : m.files.Contains place text) (n : Nat) :
    ∃ files : Files, m.copied path n = { m with files := files } ∧
      files.Contains place (Files.reading^[n] text) := by
  induction n with
  | zero => exact ⟨m.files, rfl, hfile⟩
  | succ n ih =>
    obtain ⟨files, hcopied, hcontains⟩ := ih
    have hread := readFile_of_contains (n := { m with files := files }) hpath hcontains
    obtain ⟨files', hwrite, hcontains'⟩ :=
      writeFile_of_contains (m := { m with files := files }) hpath hcontains
        (String.ofList (Files.reading (Files.reading^[n] text)))
    refine ⟨files', ?_, ?_⟩
    · rw [copied, hcopied, copy, hread]
      exact congrArg Prod.snd hwrite
    · rw [Function.iterate_succ_apply']
      rwa [String.toList_ofList] at hcontains'

theorem readFile_copied (hpath : path.path m.store = .ok place)
    (hfile : m.files.Contains place text) (n : Nat) :
    (NativeAction.readFile.run [path] (m.copied path n)).1 =
      .ok (.string (String.ofList (Files.reading (Files.reading^[n] text)))) := by
  obtain ⟨files, hcopied, hcontains⟩ := copied_contains hpath hfile n
  rw [hcopied, readFile_of_contains (n := { m with files := files }) hpath hcontains]
  rfl

/-- A file that is copied over itself is read the second time as it was the first time exactly when
what was read neither ends with a line feed nor has a carriage return right before one. When it has been
copied as often as it has characters, the copies have stopped changing it. -/
theorem copies_come_to_rest (hpath : path.path m.store = .ok place)
    (hfile : m.files.Contains place text) :
    (∃ (first second : String) (m' : Machine),
      NativeAction.readFile.run [path] m = (.ok (.string first), m) ∧
      NativeAction.writeFile.run [path, .string first] m = (.ok .null, m') ∧
      NativeAction.readFile.run [path] m' = (.ok (.string second), m') ∧
      (second = first ↔ first.toList.getLast? ≠ some '\n' ∧ ¬ ['\r', '\n'] <:+: first.toList)) ∧
    ∃ last : String, ∀ n, text.length ≤ n →
      (NativeAction.readFile.run [path] (m.copied path n)).1 = .ok (.string last) := by
  refine ⟨?_, String.ofList (Files.reading^[text.length] text), fun n hn => ?_⟩
  · have hread := readFile_of_contains hpath hfile
    obtain ⟨files, hwrite, hcontains⟩ :=
      writeFile_of_contains hpath hfile (String.ofList (Files.reading text))
    rw [String.toList_ofList] at hcontains
    have hagain := readFile_of_contains (n := { m with files := files }) hpath hcontains
    refine ⟨_, _, _, hread, hwrite, hagain, ?_⟩
    rw [String.ofList_inj, String.toList_ofList]
    exact Files.reading_eq_self_iff (Files.reading text)
  · have hfixed := Files.reading_iterate_fixed (Nat.le_refl text.length)
    have hlater : Files.reading^[n] text = Files.reading^[text.length] text := by
      rw [← Nat.sub_add_cancel hn, Function.iterate_add_apply, Function.iterate_fixed hfixed]
    rw [readFile_copied hpath hfile, hlater, hfixed]

/-- A line that ends with two carriage returns, and an empty line at the end. -/
def unsettled : Machine := { start with files := .note "a\r\r\nb\n\n".toList }

theorem copies_come_to_rest_unsettled :
    (∃ (first second : String) (m' : Machine),
      NativeAction.readFile.run [.string "p"] unsettled = (.ok (.string first), unsettled) ∧
      NativeAction.writeFile.run [.string "p", .string first] unsettled = (.ok .null, m') ∧
      NativeAction.readFile.run [.string "p"] m' = (.ok (.string second), m') ∧
      (second = first ↔ first.toList.getLast? ≠ some '\n' ∧ ¬ ['\r', '\n'] <:+: first.toList)) ∧
    ∃ last : String, ∀ n, "a\r\r\nb\n\n".toList.length ≤ n →
      (NativeAction.readFile.run [.string "p"] (unsettled.copied (.string "p") n)).1 =
        .ok (.string last) :=
  copies_come_to_rest rfl (Files.note_contains _)

/-- When an empty line is the last one, the first copy loses a line feed. -/
theorem not_reread_same :
    ¬ ∀ (m : Machine) (path : Value) (place : String) (text : List Char),
      path.path m.store = .ok place → m.files.Contains place text →
      ∃ (first : String) (m' : Machine),
        NativeAction.readFile.run [path] m = (.ok (.string first), m) ∧
        NativeAction.writeFile.run [path, .string first] m = (.ok .null, m') ∧
        NativeAction.readFile.run [path] m' = (.ok (.string first), m') := by
  intro h
  let m : Machine := { start with files := .note ['a', '\n', '\n'] }
  have hpath : (Value.string "p").path m.store = .ok "p" := rfl
  have hfile : m.files.Contains "p" ['a', '\n', '\n'] := Files.note_contains _
  obtain ⟨first, m', hread, hwrite, hagain⟩ := h m (.string "p") "p" _ hpath hfile
  have hfirst := hread.symm.trans (readFile_of_contains hpath hfile)
  obtain rfl : first = String.ofList ['a', '\n'] := by
    injection hfirst with hfirst
    injection hfirst with hfirst
    injection hfirst
  obtain ⟨files, hwritten, hcontains⟩ :=
    writeFile_of_contains hpath hfile (String.ofList ['a', '\n'])
  obtain rfl := (Prod.mk.inj (hwrite.symm.trans hwritten)).2
  have hsecond := hagain.symm.trans (readFile_of_contains rfl hcontains)
  injection hsecond with hsecond
  injection hsecond with hsecond
  injection hsecond with hsecond
  rw [String.toList_ofList, String.ofList_inj] at hsecond
  exact absurd hsecond (by decide)

end Machine

end ScriptEngine
