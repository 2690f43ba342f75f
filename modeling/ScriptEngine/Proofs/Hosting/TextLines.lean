import ScriptEngine.Run.Native

/-!
The lines of a text. A line feed ends a line, and a carriage return right before it belongs to the
end; behind the last line feed there may be one more line, which nothing ends. The console takes lines
off the front of its input one by one, a file is cut into its lines at once; both take off the same
line, so that they have the same lines.
-/
namespace ScriptEngine

/-- The first line of a text, without what ends it, and what follows. -/
inductive HeadLine : List Char → List Char → List Char → Prop where
  | feed {line} (rest : List Char) (hline : '\n' ∉ line) (hreturn : line.getLast? ≠ some '\r') :
      HeadLine (line ++ '\n' :: rest) line rest
  | returnFeed {line} (rest : List Char) (hline : '\n' ∉ line) :
      HeadLine (line ++ '\r' :: '\n' :: rest) line rest
  | last {line} (hline : '\n' ∉ line) (hne : line ≠ []) : HeadLine line line []

/-- All lines of a text, in their order. -/
inductive Lined : List Char → List (List Char) → Prop where
  | nil : Lined [] []
  | cons {text line rest more} (hhead : HeadLine text line rest) (hrest : Lined rest more) :
      Lined text (line :: more)

variable {text line rest : List Char}

theorem exists_headLine (hne : text ≠ []) : ∃ line rest, HeadLine text line rest := by
  by_cases hfeed : '\n' ∈ text
  · obtain ⟨line, rest, rfl, hline⟩ := List.eq_append_cons_of_mem hfeed
    by_cases hreturn : line.getLast? = some '\r'
    · obtain ⟨line, rfl⟩ := List.getLast?_eq_some_iff.mp hreturn
      have hline : '\n' ∉ line := fun hmem => hline (List.mem_append_left _ hmem)
      refine ⟨line, rest, ?_⟩
      rw [List.append_assoc]
      exact .returnFeed rest hline
    · exact ⟨line, rest, .feed rest hline hreturn⟩
  · exact ⟨text, [], .last hfeed hne⟩

theorem HeadLine.length_lt (h : HeadLine text line rest) : rest.length < text.length := by
  cases h with
  | feed rest hline hreturn =>
    rw [List.length_append, List.length_cons]
    omega
  | returnFeed rest hline =>
    rw [List.length_append, List.length_cons, List.length_cons]
    omega
  | last hline hne => exact List.length_pos_iff.mpr hne

theorem exists_lined (text : List Char) : ∃ all, Lined text all := by
  induction hlength : text.length using Nat.strongRecOn generalizing text with
  | _ length ih =>
    by_cases hne : text = []
    · exact ⟨[], hne ▸ .nil⟩
    · obtain ⟨line, rest, hhead⟩ := exists_headLine hne
      obtain ⟨more, hrest⟩ := ih rest.length (hlength ▸ hhead.length_lt) rest rfl
      exact ⟨line :: more, .cons hhead hrest⟩

/-! Lines of a console -/

theorem Text.Utf8.complete?_map_some (text : List Char) :
    Text.Utf8.complete? (text.map some) = some text := by
  induction text with
  | nil => rfl
  | cons c text ih =>
    unfold Text.Utf8.complete? at ih ⊢
    rw [List.map_cons, List.mapM_cons, ih]
    rfl

namespace Console

theorem firstLine_of_not_mem (hline : '\n' ∉ line) :
    firstLine (line.map some) = (line.map some, []) := by
  induction line with
  | nil => rfl
  | cons c line ih =>
    rw [List.mem_cons, not_or] at hline
    have hc : some c ≠ some '\n' := fun h => hline.1 (Option.some.inj h).symm
    rw [List.map_cons, firstLine, if_neg hc, ih hline.2]

theorem firstLine_append (hline : '\n' ∉ line) (rest : List Char) :
    firstLine ((line ++ '\n' :: rest).map some) = ((line ++ ['\n']).map some, rest.map some) := by
  induction line with
  | nil => rfl
  | cons c line ih =>
    rw [List.mem_cons, not_or] at hline
    have hc : some c ≠ some '\n' := fun h => hline.1 (Option.some.inj h).symm
    rw [List.cons_append, List.map_cons, firstLine, if_neg hc, ih hline.2]
    rfl

theorem stripEnd_of_not_mem (hline : '\n' ∉ line) : stripEnd line = line := by
  unfold stripEnd
  split
  · rename_i hrev
    exact absurd (List.mem_reverse.mp (hrev ▸ List.mem_cons_self)) hline
  · rename_i hrev
    exact absurd (List.mem_reverse.mp (hrev ▸ List.mem_cons_self)) hline
  · rfl

theorem stripEnd_returnFeed (line : List Char) : stripEnd (line ++ ['\r', '\n']) = line := by
  simp [stripEnd]

theorem stripEnd_feed (hreturn : line.getLast? ≠ some '\r') : stripEnd (line ++ ['\n']) = line := by
  unfold stripEnd
  rw [List.reverse_append]
  rw [← List.head?_reverse] at hreturn
  cases hrev : line.reverse with
  | nil => simp_all
  | cons c init =>
    have hc : c ≠ '\r' := by
      rintro rfl
      exact hreturn (congrArg List.head? hrev)
    have hline : line = init.reverse ++ [c] := by
      rw [← List.reverse_cons, ← hrev, List.reverse_reverse]
    simp [hline, hc]

/-- A read takes the first line off. -/
theorem readLine_of_headLine {c : Console} (h : HeadLine text line rest)
    (hinput : c.input = text.map some) :
    c.readLine = (.ok (some (String.ofList line)), { c with input := rest.map some }) := by
  have hne : text.map some ≠ [] := by
    intro hnil
    have hlt := h.length_lt
    rw [List.map_eq_nil_iff.mp hnil] at hlt
    exact absurd hlt (Nat.not_lt_zero _)
  -- the piece that is read off is the line with its end
  have hpiece : ∃ piece, firstLine (text.map some) = (piece.map some, rest.map some) ∧
      stripEnd piece = line := by
    cases h with
    | feed rest hline hreturn => exact ⟨_, firstLine_append hline rest, stripEnd_feed hreturn⟩
    | returnFeed rest hline =>
      refine ⟨line ++ ['\r'] ++ ['\n'], ?_, ?_⟩
      · have hline' : '\n' ∉ line ++ ['\r'] := by simp [hline]
        rw [← firstLine_append hline' rest, List.append_assoc]
        rfl
      · rw [List.append_assoc]
        exact stripEnd_returnFeed line
    | last hline _ => exact ⟨_, firstLine_of_not_mem hline, stripEnd_of_not_mem hline⟩
  obtain ⟨piece, hfirst, hstrip⟩ := hpiece
  unfold readLine
  split
  · rename_i hnil
    exact absurd (hinput ▸ hnil) hne
  · rw [hinput, hfirst]
    simp only [Text.Utf8.complete?_map_some, hstrip]

end Console

/-! Lines of a file -/

namespace Files

theorem lines_cons_of_ne {c : Char} (hfeed : c ≠ '\n') (hreturn : c = '\r' → text.head? ≠ some '\n') :
    lines (c :: text) =
      match lines text with
      | [] => [[c]]
      | line :: more => (c :: line) :: more := by
  rw [lines.eq_def]
  split
  · rename_i heq
    cases heq
  · rename_i heq
    exact absurd (List.cons.inj heq).1 hfeed
  · rename_i heq
    obtain ⟨rfl, rfl⟩ := List.cons.inj heq
    exact absurd rfl (hreturn rfl)
  · rename_i heq
    obtain ⟨rfl, rfl⟩ := List.cons.inj heq
    rfl

theorem lines_of_not_mem (hline : '\n' ∉ line) (hne : line ≠ []) : lines line = [line] := by
  induction line with
  | nil => exact absurd rfl hne
  | cons c line ih =>
    rw [List.mem_cons, not_or] at hline
    rw [lines_cons_of_ne (Ne.symm hline.1) fun _ hhead => hline.2 (List.mem_of_mem_head? hhead)]
    cases line with
    | nil => rfl
    | cons d line => rw [ih hline.2 (by simp)]

theorem lines_feed (hline : '\n' ∉ line) (hreturn : line.getLast? ≠ some '\r') (rest : List Char) :
    lines (line ++ '\n' :: rest) = line :: lines rest := by
  induction line with
  | nil => rfl
  | cons c line ih =>
    rw [List.mem_cons, not_or] at hline
    rw [List.cons_append, lines_cons_of_ne (Ne.symm hline.1)]
    · cases line with
      | nil => rfl
      | cons d line => rw [ih hline.2 (by simpa using hreturn)]
    · rintro rfl hhead
      cases line with
      | nil => exact hreturn rfl
      | cons d line => exact hline.2 (Option.some.inj hhead ▸ List.mem_cons_self)

theorem lines_returnFeed (hline : '\n' ∉ line) (rest : List Char) :
    lines (line ++ '\r' :: '\n' :: rest) = line :: lines rest := by
  induction line with
  | nil => rfl
  | cons c line ih =>
    rw [List.mem_cons, not_or] at hline
    rw [List.cons_append, lines_cons_of_ne (Ne.symm hline.1), ih hline.2]
    rintro - hhead
    cases line with
    | nil => exact absurd (Option.some.inj hhead) (by decide)
    | cons d line => exact hline.2 (Option.some.inj hhead ▸ List.mem_cons_self)

theorem lines_of_headLine (h : HeadLine text line rest) : lines text = line :: lines rest := by
  cases h with
  | feed rest hline hreturn => exact lines_feed hline hreturn rest
  | returnFeed rest hline => exact lines_returnFeed hline rest
  | last hline hne => exact lines_of_not_mem hline hne

theorem lines_of_lined {all : List (List Char)} (h : Lined text all) : lines text = all := by
  induction h with
  | nil => rfl
  | cons hhead _ ih => rw [lines_of_headLine hhead, ih]

/-- The path leads to a file that contains the text. -/
def Contains (files : Files) (path : String) (text : List Char) : Prop :=
  isSlashed path = false ∧ ∃ own name,
    files.locate path = .ok (.entry own name) ∧ files.find own name = .ok (text.map some)

theorem Contains.read {files : Files} {path : String} (h : files.Contains path text) :
    files.read path = .ok (String.ofList (joinLines (lines text))) := by
  obtain ⟨hslash, own, name, hlocate, hfind⟩ := h
  unfold Files.read
  simp [hlocate, hfind, hslash, Text.Utf8.complete?_map_some]

/-- One file, `p`, with a text. -/
def note (text : List Char) : Files := [("p", text.map some)]

theorem note_contains (text : List Char) : (note text).Contains "p" text := by
  have hmove : "p".splitOnAux "/" 0 0 0 [] = "p".splitOnAux "/" 0 ⟨1⟩ 0 [] := by
    rw [String.splitOnAux, if_neg (by decide), if_neg (by decide)]
    rfl
  have hlast : "p".splitOnAux "/" 0 ⟨1⟩ 0 [] = ["p"] := by
    rw [String.splitOnAux, if_pos (by decide)]
    decide +kernel
  have hparts : "p".splitOn "/" = ["p"] := hmove.trans hlast
  have hstart : "p".startsWith "/" = false := by decide +kernel
  refine ⟨by decide +kernel, true, "p", ?_, ?_⟩
  · unfold locate
    rw [hparts, hstart]
    simp [follow, maxPath]
    decide
  · simp [note, find, Entries.get?, maxName]
    decide

end Files

/-! Both readers -/

namespace Machine

/-- What so many calls of `read` give one after another, and the machine that they leave. -/
def reads (m : Machine) : Nat → List (Except HostFault Value) × Machine
  | 0 => ([], m)
  | n + 1 =>
    let (result, m) := NativeAction.read.run [] m
    let (results, m) := m.reads n
    (result :: results, m)

variable {m n : Machine}

theorem reads_of_input_nil (hinput : m.console.input = []) (count : Nat) :
    (m.reads count).1 = List.replicate count (.ok .null) := by
  have hstep : NativeAction.read.run [] m = (.ok .null, m) := by
    simp [NativeAction.run, readLine, Console.readLine, hinput, Except.map]
  induction count with
  | zero => rfl
  | succ count ih =>
    rw [reads, hstep, List.replicate_succ]
    exact congrArg (List.cons _) ih

theorem reads_of_lined {all : List (List Char)} (h : Lined text all)
    (hinput : m.console.input = text.map some) (count : Nat) :
    (m.reads (all.length + count)).1 =
      all.map (fun line => .ok (.string (String.ofList line))) ++
        List.replicate count (.ok .null) := by
  induction h generalizing m with
  | nil =>
    rw [List.length_nil, Nat.zero_add]
    exact reads_of_input_nil hinput count
  | @cons text line rest more hhead _ ih =>
    have hstep : NativeAction.read.run [] m = (.ok (.string (String.ofList line)),
        { m with console := { m.console with input := rest.map some } }) := by
      simp [NativeAction.run, readLine, Console.readLine_of_headLine hhead hinput, Except.map]
    rw [List.length_cons, Nat.succ_add, reads, hstep]
    exact congrArg (List.cons _) (ih rfl)

theorem readFile_of_contains {path : Value} {place : String}
    (hpath : path.path n.store = .ok place) (hfile : n.files.Contains place text) :
    NativeAction.readFile.run [path] n =
      (.ok (.string (String.ofList (Files.joinLines (Files.lines text)))), n) := by
  simp [NativeAction.run, readFile, hpath, hfile.read, Except.map]

/-- From a console with this text `read` gives its lines, each once and in their order, and after them
null again and again. Joined by line feeds they are what `readFile` gives for a file with the text. -/
theorem readers_agree {path : Value} {place : String} (hinput : m.console.input = text.map some)
    (hpath : path.path n.store = .ok place) (hfile : n.files.Contains place text) :
    ∃ lines : List String, Lined text (lines.map String.toList) ∧
      (∀ count, (m.reads (lines.length + count)).1 =
        lines.map (fun line => .ok (.string line)) ++ List.replicate count (.ok .null)) ∧
      NativeAction.readFile.run [path] n = (.ok (.string ("\n".intercalate lines)), n) := by
  obtain ⟨all, hall⟩ := exists_lined text
  have hback : (all.map String.ofList).map String.toList = all := by simp
  refine ⟨all.map String.ofList, hback.symm ▸ hall, fun count => ?_, ?_⟩
  · rw [List.length_map, reads_of_lined hall hinput count, List.map_map]
    rfl
  · have hjoined : String.ofList (Files.joinLines all) = "\n".intercalate (all.map String.ofList) := by
      rw [← String.toList_inj, String.toList_intercalate, hback, String.toList_ofList]
      rfl
    rw [readFile_of_contains hpath hfile, Files.lines_of_lined hall, hjoined]

/-- A line with a carriage return of its own, an empty one, and one that nothing ends. -/
def fewLines : List Char := "a\r\r\n\nb\r".toList

theorem readers_agree_fewLines :
    ∃ lines : List String, Lined fewLines (lines.map String.toList) ∧
      (∀ count, (({ start with console := { Console.silent with input := fewLines.map some } } :
        Machine).reads (lines.length + count)).1 =
          lines.map (fun line => .ok (.string line)) ++ List.replicate count (.ok .null)) ∧
      NativeAction.readFile.run [.string "p"] { start with files := .note fewLines } =
        (.ok (.string ("\n".intercalate lines)), { start with files := .note fewLines }) :=
  readers_agree rfl rfl (Files.note_contains fewLines)

end Machine

end ScriptEngine
