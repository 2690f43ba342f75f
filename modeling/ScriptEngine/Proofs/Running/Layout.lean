import ScriptEngine.Proofs.Reading.Layout
import ScriptEngine.Proofs.Reading.Lossless
import ScriptEngine.Proofs.Running.Mirroring
import ScriptEngine.Proofs.Running.Opening

/-!
Running does not look at places. Without the places in a program and in the functions that are bound,
a run does what it does otherwise: the places only go into the functions that it declares and into its
error.
-/
namespace ScriptEngine

/-! Places that are forgotten -/

theorem Name.mapSpan_default (name : Name) : name.mapSpan (fun _ => default) = name.bare := rfl

namespace Expr

mutual

theorem mapSpans_default : ∀ e : Expr, e.mapSpans (fun _ => default) = e.bare
  | literal _ _ => rfl
  | .variable _ => rfl
  | assign target value _ => congrArg (assign target.bare · default) (mapSpans_default value)
  | adjust _ _ _ => rfl
  | array items _ => congrArg (array · default) (mapItems_default items)
  | arrayOfSize size _ => congrArg (arrayOfSize · default) (mapSpans_default size)
  | struct fields _ => congrArg (struct · default) (mapFields_default fields)
  | index target place _ => by
    simp only [mapSpans, bare, mapSpans_default target, mapSpans_default place]
  | assignIndex target place value _ => by
    simp only [mapSpans, bare, mapSpans_default target, mapSpans_default place,
      mapSpans_default value]
  | member target name _ => congrArg (member · name.bare default) (mapSpans_default target)
  | assignMember target _ value _ => by
    simp only [mapSpans, bare, mapSpans_default target, mapSpans_default value, Name.mapSpan_default]
  | binary _ left right _ => by
    simp only [mapSpans, bare, mapSpans_default left, mapSpans_default right]
  | unary op operand _ => congrArg (unary op · default) (mapSpans_default operand)
  | call callee arguments _ => congrArg (call callee.bare · default) (mapItems_default arguments)
  | paren inner _ => congrArg (paren · default) (mapSpans_default inner)

theorem mapItems_default : ∀ items : List Expr, mapItems (fun _ => default) items = bareItems items
  | [] => rfl
  | e :: rest => by simp only [mapItems, bareItems, mapSpans_default e, mapItems_default rest]

theorem mapFields_default : ∀ fields : List (Name × Expr),
    mapFields (fun _ => default) fields = bareFields fields
  | [] => rfl
  | (name, e) :: rest => by
    simp only [mapFields, bareFields, mapSpans_default e, mapFields_default rest,
      Name.mapSpan_default]

end

theorem map_mapSpans_default (value : Option Expr) :
    value.map (mapSpans fun _ => default) = value.map bare := by
  cases value with
  | none => rfl
  | some e => exact congrArg some (mapSpans_default e)

end Expr

namespace Stmt

mutual

theorem mapSpans_default : ∀ s : Stmt, s.mapSpans (fun _ => default) = s.bare
  | declare name init _ => congrArg (declare name.bare · default) (Expr.map_mapSpans_default init)
  | function name params body _ =>
    congrArg (function name.bare (params.map Name.bare) · default) (mapBody_default body)
  | block body _ => congrArg (block · default) (mapBody_default body)
  | branch condition thenBranch elseBranch _ => by
    simp only [mapSpans, bare, Expr.mapSpans_default condition, mapSpans_default thenBranch,
      mapElse_default elseBranch]
  | loop condition body _ => by
    simp only [mapSpans, bare, Expr.mapSpans_default condition, mapSpans_default body]
  | jump _ _ => rfl
  | transfer kind value _ => congrArg (transfer kind · default) (Expr.map_mapSpans_default value)
  | attempt body _ param handler _ _ => by
    simp only [mapSpans, bare, mapBody_default body, mapBody_default handler]
    rfl
  | expression value _ => congrArg (expression · default) (Expr.mapSpans_default value)
  | empty _ => rfl

theorem mapBody_default : ∀ body : List Stmt, mapBody (fun _ => default) body = bareBody body
  | [] => rfl
  | s :: rest => by simp only [mapBody, bareBody, mapSpans_default s, mapBody_default rest]

theorem mapElse_default : ∀ other : Option Stmt, mapElse (fun _ => default) other = bareElse other
  | some s => congrArg some (mapSpans_default s)
  | none => rfl

end

end Stmt

/-- Every place is the same, and all else is as it is. -/
def Renaming.placeless : Renaming where
  frame := id
  identity := id
  place _ := default
  kept := 0
  hollow _ := False
  frame_injective := Function.injective_id
  identity_injective := Function.injective_id
  not_hollow _ h := h

/-! What is left without places -/

/-- A function without the places of its code. -/
def FunctionDef.bare (definition : FunctionDef) : FunctionDef :=
  ⟨definition.name.bare, definition.params.map Name.bare, Stmt.bareBody definition.body, default⟩

def Value.bare : Value → Value
  | .function f => .function { f with definition := f.definition.bare }
  | v => v

def Cell.bare : Cell → Cell
  | .array items => .array (items.map Value.bare)
  | .struct fields => .struct (fields.mapValues Value.bare)

def Frame.bare (frame : Frame) : Frame :=
  { frame with bindings := frame.bindings.mapValues Value.bare }

def Store.bare (σ : Store) : Store :=
  { σ with frames := σ.frames.map (Option.map Frame.bare), cells := σ.cells.map Cell.bare }

def Machine.bare (m : Machine) : Machine := { m with store := m.store.bare }

def Ending.bare : Ending → Ending
  | .value v => .value v.bare
  | .error e => .error { e with span := e.span.map fun _ => default }
  | .exhausted => .exhausted

theorem Renaming.value_placeless : placeless.value = Value.bare := by
  funext v
  cases v with
  | function f =>
    have hhome : placeless.home f = f.home := if_neg (Nat.not_lt_zero _)
    change Value.function ⟨f.identity, f.definition.mapSpans _, placeless.home f⟩ =
      .function ⟨f.identity, f.definition.bare, f.home⟩
    rw [hhome]
    exact congrArg (fun body => Value.function ⟨f.identity, ⟨f.definition.name.bare,
      f.definition.params.map Name.bare, body, default⟩, f.home⟩) (Stmt.mapBody_default _)
  | _ => rfl

theorem Renaming.cell_placeless : placeless.cell = Cell.bare := by
  funext cell
  cases cell with
  | array items => exact congrArg (fun f => Cell.array (items.map f)) value_placeless
  | struct fields => exact congrArg (fun f => Cell.struct (fields.mapValues f)) value_placeless

theorem Renaming.ending_placeless : placeless.ending = Ending.bare := by
  funext ending
  cases ending with
  | value v => exact congrArg (fun f => Ending.value (f v)) value_placeless
  | _ => rfl

namespace Store

variable (σ : Store)

theorem frame?_bare (id : FrameId) : σ.bare.frame? id = (σ.frame? id).map Frame.bare := by
  unfold frame? bare
  rw [Array.getElem?_map]
  cases σ.frames[id]? <;> rfl

theorem size_bare : σ.bare.frames.size = σ.frames.size := Array.size_map

theorem isAlive_bare (id : FrameId) : σ.bare.isAlive id = σ.isAlive id := by
  unfold isAlive
  rw [frame?_bare, Option.isSome_map]

theorem bindings_bare (id : FrameId) :
    σ.bare.bindings id = (σ.bindings id).mapValues Value.bare := by
  unfold bindings
  rw [frame?_bare]
  cases σ.frame? id <;> rfl

theorem parent?_bare (id : FrameId) : σ.bare.parent? id = σ.parent? id := by
  unfold parent?
  rw [frame?_bare]
  cases σ.frame? id <;> rfl

theorem links_bare (id : FrameId) :
    (σ.bare.frame? id).map Frame.links = (σ.frame? id).map Frame.links := by
  rw [frame?_bare, Option.map_map]
  rfl

theorem image_bare : Renaming.placeless.Image σ σ.bare := by
  refine ⟨?_, σ.isAlive_bare, fun id => ?_, fun id => Or.inl ?_, fun k => ?_, fun _ => rfl,
    Nat.zero_le _⟩
  · rw [Renaming.cell_placeless]
    rfl
  · rw [Renaming.value_placeless]
    exact σ.bindings_bare id
  · refine (σ.parent?_bare id).trans ?_
    cases σ.parent? id <;> rfl
  · rw [size_bare]
    rfl

theorem bare_modifyFrame (id : FrameId) {f g : Frame → Frame}
    (h : ∀ frame, (f frame).bare = g frame.bare) :
    (σ.modifyFrame id f).bare = σ.bare.modifyFrame id g := by
  refine ext_frame? ?_ (fun other => ?_) rfl rfl
  · unfold modifyFrame
    rw [size_bare, Array.size_modify, Array.size_modify, size_bare]
  · rw [frame?_bare, frame?_modifyFrame, frame?_modifyFrame, frame?_bare]
    split
    · rw [Option.map_map, Option.map_map]
      exact congrArg (Option.map · _) (funext h)
    · rfl

theorem bare_relink (id : FrameId) (parent : Option FrameId) :
    (σ.relink id parent).bare = σ.bare.relink id parent :=
  σ.bare_modifyFrame id fun _ => rfl

theorem bare_setLocal (id : FrameId) (name : String) (v : Value) :
    (σ.setLocal id name v).bare = σ.bare.setLocal id name v.bare := by
  refine σ.bare_modifyFrame id fun frame => ?_
  exact congrArg (fun bindings => { frame with bindings := bindings })
    (Entries.put_mapValues Value.bare name v frame.bindings).symm

theorem bare_dropFrame (id : FrameId) : (σ.dropFrame id).bare = σ.bare.dropFrame id := by
  refine ext_frame? ?_ (fun other => ?_) rfl rfl
  · rw [size_bare, size_dropFrame, size_dropFrame, size_bare]
  · rw [frame?_bare, frame?_dropFrame, frame?_dropFrame, frame?_bare]
    split <;> rfl

theorem bare_newRoot : σ.newRoot.2.bare = σ.bare.newRoot.2 := by
  unfold newRoot addFrame bare
  rw [Array.map_push]
  rfl

theorem bare_installNatives (frame : FrameId) :
    (σ.installNatives frame).bare = σ.bare.installNatives frame := by
  unfold installNatives
  generalize standardNatives = natives
  induction natives generalizing σ with
  | nil => rfl
  | cons native rest ih =>
    rw [List.foldl_cons, List.foldl_cons, ih]
    exact congrArg (rest.foldl _) (bare_setLocal (σ.newNative native.1 native.2.1 native.2.2).2 ..)

end Store

namespace Layers

theorem bare_link (layers : Layers) (top : FrameId) (σ : Store) :
    (layers.link top σ).bare = layers.link top σ.bare := by
  unfold link
  cases layers.upper? with
  | none => exact σ.bare_relink _ _
  | some upper => exact (Store.bare_relink _ _ _).trans (by rw [Store.bare_relink])

theorem bare_restore (parents : List (FrameId × Option FrameId)) (σ : Store) :
    (restore parents σ).bare = restore parents σ.bare := by
  induction parents with
  | nil => rfl
  | cons first rest ih =>
    exact (Store.bare_relink _ _ _).trans (congrArg (Store.relink · first.1 first.2) ih)

theorem parents_bare (layers : Layers) (σ : Store) : layers.parents σ.bare = layers.parents σ := by
  unfold parents
  refine congrArg (List.map · _) (funext fun frame => ?_)
  rw [σ.parent?_bare]

end Layers

namespace Machine

variable (m : Machine)

theorem bare_begin (layers : Layers) : (m.begin layers).2.bare = (m.bare.begin layers).2 := by
  refine congrArg (fun σ => Machine.mk σ m.console m.files 0) ?_
  have htop : m.bare.store.newRoot.1 = m.store.newRoot.1 := m.store.size_bare
  change (layers.link m.store.newRoot.1 (m.store.newRoot.2.installNatives m.store.newRoot.1)).bare =
    layers.link m.bare.store.newRoot.1 (m.store.bare.newRoot.2.installNatives m.bare.store.newRoot.1)
  rw [htop, Layers.bare_link, Store.bare_installNatives, Store.bare_newRoot]

theorem bare_unlink (layers : Layers) (σ : Store) :
    (m.unlink layers σ).bare = m.bare.unlink layers σ.bare := by
  unfold unlink
  rw [Store.bare_dropFrame, Layers.bare_restore]
  change _ = (Layers.restore (layers.parents m.store.bare) σ.bare).dropFrame m.store.bare.frames.size
  rw [Layers.parents_bare, Store.size_bare]

/-- A machine that differs in places from one that was the same but for places, after evaluations that
left the frames in their places, is the same but for places. -/
theorem eq_bare_of_twins {start k k' : Machine} (htwins : Renaming.placeless.Twins k k')
    (hk : start.store.Settles k.store) (hk' : start.store.bare.Settles k'.store) : k' = k.bare := by
  obtain ⟨σ, console, files, depth⟩ := k
  obtain ⟨σ', console', files', depth'⟩ := k'
  obtain rfl : console' = console := htwins.console
  obtain rfl : files' = files := htwins.files
  obtain rfl : depth' = depth := htwins.depth
  have himage : Renaming.placeless.Image σ σ' := htwins.store
  refine congrArg (fun τ => Machine.mk τ console' files' depth') ?_
  refine Store.ext_frame? (himage.next.symm.trans σ.size_bare.symm) (fun id => ?_) ?_
    himage.nextIdentity.symm
  · refine Store.frame?_eq ?_ ?_
    · rw [σ.links_bare, hk'.links, start.store.links_bare, hk.links]
    · rw [σ.bindings_bare, ← Renaming.value_placeless]
      exact himage.bindings id
  · refine himage.cells.trans ?_
    rw [Renaming.cell_placeless]
    rfl

/-- A run without places is the run, without places. -/
theorem run_bare (limit fuel : Nat) (layers : Layers) (program : Program) :
    m.bare.run limit fuel layers program.bare =
      ((m.run limit fuel layers program).1.bare, (m.run limit fuel layers program).2.bare) := by
  have htwins : Renaming.placeless.Twins (m.begin layers).2 (m.begin layers).2.bare :=
    ⟨(m.begin layers).2.store.image_bare, rfl, rfl, rfl⟩
  have hmirror := Eval.mirrors_script (Renaming.suits_all rfl limit) 0 fuel layers.bindings
    program.body .null (m.begin layers).2 trivial _ htwins
  have hbody : Stmt.mapBody Renaming.placeless.place program.body = program.bare.body :=
    Stmt.mapBody_default _
  rw [hbody, Nat.zero_add] at hmirror
  have hmirror : Renaming.placeless.Mirrored 0 Renaming.placeless.value
      (Eval.script limit fuel layers.bindings .null program.body (m.begin layers).2)
      (Eval.script limit fuel layers.bindings .null program.bare.body (m.begin layers).2.bare) :=
    hmirror
  obtain ⟨hending, hmachines⟩ := hmirror.conclude
  have hsettles := settles_script limit fuel layers.bindings program.body (m.begin layers).2
  have hsettles' := settles_script limit fuel layers.bindings program.bare.body (m.begin layers).2.bare
  have hmachine := eq_bare_of_twins hmachines hsettles hsettles'
  rw [run_eq, run_eq, ← bare_begin]
  dsimp only
  rw [hending, hmachine, Renaming.ending_placeless]
  refine congrArg (Prod.mk _) ?_
  exact congrArg (fun σ => Machine.mk σ _ _ _) (m.bare_unlink layers _).symm

/-- Programs that are the same but for places do the same on machines that are the same but for
places. -/
theorem run_eq_of_bare {m' : Machine} {program program' : Program}
    (hprogram : program.bare = program'.bare) (hm : m.bare = m'.bare) (limit fuel : Nat)
    (layers : Layers) :
    (m.run limit fuel layers program).1.bare = (m'.run limit fuel layers program').1.bare ∧
      (m.run limit fuel layers program).2.bare = (m'.run limit fuel layers program').2.bare := by
  have hrun := m.run_bare limit fuel layers program
  rw [hprogram, hm, m'.run_bare limit fuel layers program'] at hrun
  exact ⟨congrArg Prod.fst hrun.symm, congrArg Prod.snd hrun.symm⟩

end Machine

/-- The layout of a text does not matter. Two texts that are cut without complaint into tokens of the
same kinds are both rejected, with the same complaints in the same order, or both are programs, and the
runs of these give the same values, errors of the same kind with the same message, and leave the same
output, the same files and the same bindings, on machines that are the same. Only places differ. -/
theorem layout_irrelevant {source source' : List Char} (hclean : (lex source).complaints = [])
    (hclean' : (lex source').complaints = [])
    (hkinds : (lex source).tokens.map Token.kind = (lex source').tokens.map Token.kind) :
    ((parse source).program = none ∧ (parse source').program = none ∧
        (parse source).complaints ≠ [] ∧
        (parse source).complaints.map Complaint.fault =
          (parse source').complaints.map Complaint.fault) ∨
      ∃ program program', (parse source).program = some program ∧
        (parse source').program = some program' ∧ (parse source).complaints = [] ∧
        (parse source').complaints = [] ∧
        ∀ m m' : Machine, m.bare = m'.bare → ∀ limit fuel layers,
          (m.run limit fuel layers program).1.bare = (m'.run limit fuel layers program').1.bare ∧
          (m.run limit fuel layers program).2.bare = (m'.run limit fuel layers program').2.bare := by
  have hparsed := bare_parse hclean hclean' hkinds
  have hprograms := congrArg Parsed.program hparsed
  have hcomplaints := congrArg Parsed.complaints hparsed
  change (parse source).program.map Program.bare = (parse source').program.map Program.bare at hprograms
  have hfaults : ∀ complaints : List Complaint,
      (complaints.map Complaint.bare).map Complaint.fault = complaints.map Complaint.fault := by
    intro complaints
    rw [List.map_map]
    rfl
  cases hprogram : (parse source).program with
  | none =>
    rw [hprogram, Option.map_none, eq_comm, Option.map_eq_none_iff] at hprograms
    refine Or.inl ⟨rfl, hprograms, fun hnone => ?_, ?_⟩
    · obtain ⟨program, hsome, -⟩ := exists_program_of_clean hnone
      exact absurd (hprogram.symm.trans hsome) (by simp)
    · rw [← hfaults (parse source).complaints, ← hfaults (parse source').complaints]
      exact congrArg (List.map Complaint.fault) hcomplaints
  | some program =>
    rw [hprogram, Option.map_some, eq_comm, Option.map_eq_some_iff] at hprograms
    obtain ⟨program', hprogram', hbare⟩ := hprograms
    refine Or.inr ⟨program, program', rfl, hprogram', complaints_eq_nil_of_program hprogram,
      complaints_eq_nil_of_program hprogram', fun m m' hm limit fuel layers => ?_⟩
    exact m.run_eq_of_bare hbare.symm hm limit fuel layers

/-- `x=1;` on one line and, with a comment, on two. -/
theorem layout_irrelevant_assignment :
    ∃ program program', (parse "x=1;".toList).program = some program ∧
      (parse "x = /* one */\n 1 ;".toList).program = some program' ∧
      ∀ (m : Machine) (limit fuel : Nat) (layers : Layers),
        (m.run limit fuel layers program).1.bare = (m.run limit fuel layers program').1.bare := by
  have hclean : (lex "x=1;".toList).complaints = [] := by decide +kernel
  have hclean' : (lex "x = /* one */\n 1 ;".toList).complaints = [] := by decide +kernel
  have hkinds : (lex "x=1;".toList).tokens.map Token.kind =
      (lex "x = /* one */\n 1 ;".toList).tokens.map Token.kind := by decide +kernel
  rcases layout_irrelevant hclean hclean' hkinds with ⟨-, -, hcomplaints, -⟩ | hprograms
  · have hnone : (parse "x=1;".toList).complaints = [] := by decide +kernel
    exact absurd hnone hcomplaints
  · obtain ⟨program, program', hprogram, hprogram', -, -, hrun⟩ := hprograms
    refine ⟨program, program', hprogram, hprogram', fun m limit fuel layers => ?_⟩
    exact (hrun m m rfl limit fuel layers).1

end ScriptEngine
