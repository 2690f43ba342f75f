import ScriptEngine.Proofs.Running.Evaluation
import ScriptEngine.Proofs.Running.Layers
import ScriptEngine.Proofs.Running.Lookup
import ScriptEngine.Proofs.Running.Moments
import ScriptEngine.Proofs.Running.Steps

/-!
Where names come from. A statement declares names in the scope that it runs in and nowhere else, an
expression declares none, and no name is ever lost, whatever becomes of the evaluation. What a name
means is therefore the same before and after an expression.
-/
namespace ScriptEngine

namespace Stmt

mutual

/-- The names that the statement can declare in the scope that it runs in. -/
def declared : Stmt → List String
  | declare name _ _ => [name.text]
  | function name _ _ _ => [name.text]
  | branch _ thenBranch elseBranch _ => thenBranch.declared ++ elseDeclared elseBranch
  | loop _ body _ => body.declared
  | _ => []

def elseDeclared : Option Stmt → List String
  | some s => s.declared
  | none => []

end

end Stmt

def Program.declared (program : Program) : List String := program.body.flatMap Stmt.declared

namespace Code

def declared : Code → List String
  | expr _ => []
  | stmt s => s.declared
  | stmts body => body.flatMap Stmt.declared

theorem Part.declared_subset {whole part : Code} (h : whole.Part part) :
    part.declared ⊆ whole.declared := by
  cases h with
  | operand => exact List.nil_subset _
  | evaluated => exact List.nil_subset _
  | thenBranch => exact List.subset_append_left _ _
  | elseBranch => exact List.subset_append_right _ _
  | pass => exact List.Subset.refl _
  | first => exact List.subset_append_left _ _
  | rest => exact List.subset_append_right _ _

end Code

namespace Store

variable {σ σ' : Store}

/-- From one store to the other nothing is declared but these names, in this scope, and each once. -/
structure Declares (σ σ' : Store) (scope : FrameId) (names : List String) : Prop where
  alive : ∀ id, σ'.isAlive id = σ.isAlive id
  others : ∀ id, id ≠ scope → σ'.localNames id = σ.localNames id
  new : ∃ more, σ'.localNames scope = σ.localNames scope ++ more ∧ more.Nodup ∧
    ∀ name ∈ more, name ∉ σ.localNames scope ∧ name ∈ names

/-- Nothing is declared, and every name means what it did. -/
structure SameNames (σ σ' : Store) : Prop where
  alive : ∀ id, σ'.isAlive id = σ.isAlive id
  names : ∀ id, σ'.localNames id = σ.localNames id
  resolve : ∀ id name, σ'.resolve id name = σ.resolve id name

theorem declares_of {scope : FrameId} {names : List String}
    (halive : ∀ id, σ'.isAlive id = σ.isAlive id)
    (hnew : ∀ id, ∃ more, σ'.localNames id = σ.localNames id ++ more ∧ more.Nodup ∧
      ∀ name ∈ more, name ∉ σ.localNames id ∧ id = scope ∧ name ∈ names) :
    σ.Declares σ' scope names := by
  refine ⟨halive, fun id hid => ?_, ?_⟩
  · obtain ⟨more, hmore, -, hmem⟩ := hnew id
    have hnil : more = [] := List.eq_nil_iff_forall_not_mem.mpr fun name hname =>
      hid (hmem name hname).2.1
    rw [hmore, hnil, List.append_nil]
  · obtain ⟨more, hmore, hnodup, hmem⟩ := hnew scope
    exact ⟨more, hmore, hnodup, fun name hname => ⟨(hmem name hname).1, (hmem name hname).2.2⟩⟩

theorem Settles.isAlive (h : σ.Settles σ') (id : FrameId) : σ'.isAlive id = σ.isAlive id := by
  by_cases hid : id < σ.frames.size
  · exact h.toExtends.isAlive hid
  · have hid := Nat.le_of_not_lt hid
    rw [Store.isAlive, Store.isAlive, h.gone id hid, frame?_eq_none hid]

theorem Settles.links (h : σ.Settles σ') (id : FrameId) :
    (σ'.frame? id).map Frame.links = (σ.frame? id).map Frame.links := by
  by_cases hid : id < σ.frames.size
  · exact h.same id hid
  · have hid := Nat.le_of_not_lt hid
    rw [h.gone id hid, frame?_eq_none hid]

end Store

/-- In the frames that are there a run binds the names that are there and, in one scope, some more. -/
def namesRealm (σ : Store) (scope : FrameId) (names : List String) : Realm where
  frames := fun _ => True
  scopes := fun _ => True
  cells := fun _ => True
  data := fun _ => True
  bound := fun id name _ => σ.frames.size ≤ id ∨ σ.hasLocal id name ∨ id = scope ∧ name ∈ names
  code := fun id c => σ.frames.size ≤ id ∨ id = scope ∧ c.declared ⊆ names
  callable := fun _ => True
  firstFrame := σ.frames.size
  firstCell := 0
  firstIdentity := 0
  scope_of_new := fun _ _ => trivial
  frame_of_scope := fun _ _ => trivial
  cell_of_new := fun _ _ => trivial
  data_scalar := fun _ _ => trivial
  data_array := fun _ => Iff.rfl
  data_struct := fun _ => Iff.rfl
  bound_of_new := fun _ _ _ hnew _ => Or.inl hnew
  bound_again := fun _ _ _ _ h _ => h
  data_of_bound := fun _ _ _ _ _ => trivial
  callable_of_bound := fun _ _ _ _ _ => trivial
  scope_of_callable := fun _ _ => trivial
  code_of_callable := fun _ _ _ hnew => Or.inl hnew
  scope_of_code := fun _ _ _ => trivial
  code_of_part := fun _ _ _ h hpart =>
    h.imp_right fun h => ⟨h.1, List.Subset.trans hpart.declared_subset h.2⟩
  code_of_opens := fun _ _ _ _ _ _ hnew => Or.inl hnew
  bound_of_declare := fun _ _ _ _ _ h _ =>
    h.imp_right fun h => Or.inr ⟨h.1, h.2 (by simp [Code.declared, Stmt.declared])⟩
  bound_of_function := fun _ _ _ _ _ _ h _ =>
    h.imp_right fun h => Or.inr ⟨h.1, h.2 (by simp [Code.declared, Stmt.declared])⟩

section

variable {σ σ' : Store} {scope : FrameId} {names : List String}

theorem namesRealm_holds (σ : Store) (scope : FrameId) (names : List String) :
    (namesRealm σ scope names).Holds σ := by
  refine ⟨fun id _ entry hentry => ?_, fun _ _ _ _ => trivial, fun _ _ _ _ _ _ => trivial,
    Nat.le_refl _, Nat.zero_le _, Nat.zero_le _⟩
  exact Or.inr (Or.inl (Entries.has_iff.mpr (List.mem_map.mpr ⟨entry, hentry, rfl⟩)))

/-- A name that is new in a frame is one of the names, and the frame is the scope. -/
theorem Realm.Settled.new_names (h : (namesRealm σ scope names).Settled σ σ') (id : FrameId) :
    ∃ more, σ'.localNames id = σ.localNames id ++ more ∧ more.Nodup ∧
      ∀ name ∈ more, name ∉ σ.localNames id ∧ id = scope ∧ name ∈ names := by
  by_cases hid : id < σ.frames.size
  · obtain ⟨more, hmore, hnodup, hnew⟩ := h.names id hid
    refine ⟨more, hmore, hnodup, fun name hname => ⟨hnew name hname, ?_⟩⟩
    have hmem : name ∈ Entries.names (σ'.bindings id) := hmore ▸ List.mem_append_right _ hname
    obtain ⟨entry, hentry, rfl⟩ := List.mem_map.mp hmem
    rcases h.holds.bindings id trivial entry hentry with hsize | hold | hdeclared
    · exact absurd hid (Nat.not_lt_of_le hsize)
    · exact absurd (Entries.has_iff.mp hold) (hnew entry.1 hname)
    · exact hdeclared
  · have hid := Nat.le_of_not_lt hid
    refine ⟨[], ?_, List.nodup_nil, by simp⟩
    rw [Store.localNames, Store.localNames, Store.bindings, h.gone id hid,
      Store.bindings_eq_nil hid]
    rfl

theorem Realm.Settled.declares (h : (namesRealm σ scope names).Settled σ σ') :
    σ.Declares σ' scope names :=
  Store.declares_of h.settles.isAlive h.new_names

theorem Realm.Settled.sameNames (h : (namesRealm σ scope []).Settled σ σ') : σ.SameNames σ' := by
  have hnames : ∀ id, σ'.localNames id = σ.localNames id := by
    intro id
    obtain ⟨more, hmore, -, hnew⟩ := h.new_names id
    have hnil : more = [] := List.eq_nil_iff_forall_not_mem.mpr fun name hname =>
      absurd (hnew name hname).2.2 (List.not_mem_nil)
    rw [hmore, hnil, List.append_nil]
  exact ⟨h.settles.isAlive, hnames, Store.resolve_congr h.settles.links hnames h.frames.size⟩

end

theorem Eval.Keeps.settled_machine {α : Type} {R : Realm} {x : Eval α} {m : Machine} {ok : α → Prop}
    (h : x.Keeps R m ok) : R.Settled m.store (x m).machine.store := by
  unfold Eval.Keeps at h
  cases hx : x m with
  | done a m' =>
    rw [hx] at h
    exact h.1
  | signalled s m' =>
    rw [hx] at h
    exact h.1
  | failed fault place m' =>
    rw [hx] at h
    exact h
  | exhausted m' =>
    rw [hx] at h
    exact h

namespace Machine

variable {m : Machine} {layers : Layers}

theorem isAlive_run (limit fuel : Nat) (layers : Layers) (program : Program) (m : Machine)
    (id : FrameId) : (m.run limit fuel layers program).2.store.isAlive id = m.store.isAlive id := by
  have hcode : Realm.whole.code layers.bindings (.stmts program.body) := trivial
  have hscript := Eval.keeps_script limit fuel program.body hcode .null
    (Realm.whole_holds (m.begin layers).2.store) trivial
  exact (settles_unlink (Outcome.Keeps.conclude hscript).1.settles).isAlive id

theorem localNames_run (limit fuel : Nat) (layers : Layers) (program : Program) (m : Machine)
    (id : FrameId) :
    ∃ more, (m.run limit fuel layers program).2.store.localNames id = m.store.localNames id ++ more ∧
      more.Nodup ∧ ∀ name ∈ more, name ∉ m.store.localNames id ∧ id = layers.bindings ∧
        name ∈ program.declared := by
  have hcode : (namesRealm (m.begin layers).2.store layers.bindings program.declared).code
      layers.bindings (.stmts program.body) := Or.inr ⟨rfl, List.Subset.refl _⟩
  have hscript := Eval.keeps_script limit fuel program.body hcode .null (namesRealm_holds _ _ _)
    trivial
  obtain ⟨more, hmore, hnew⟩ := (Outcome.Keeps.conclude hscript).1.new_names id
  by_cases htop : id = m.store.frames.size
  · refine ⟨[], ?_, List.nodup_nil, by simp⟩
    unfold Store.localNames
    rw [htop, Store.bindings_eq_nil (Nat.le_refl _)]
    unfold run
    exact congrArg Entries.names ((Store.bindings_dropFrame _ _ _).trans (if_pos rfl))
  · have hbegin : (m.begin layers).2.store.localNames id = m.store.localNames id :=
      congrArg Entries.names (bindings_begin layers htop)
    have hend : (m.run limit fuel layers program).2.store.bindings id =
        (conclude (Eval.script limit fuel layers.bindings .null program.body
          (m.begin layers).2)).2.store.bindings id := by
      refine (Store.bindings_dropFrame _ _ _).trans ((if_neg (Ne.symm htop)).trans ?_)
      exact Layers.bindings_restore _ _ _
    rw [hbegin] at hmore hnew
    exact ⟨more, (congrArg Entries.names hend).trans hmore, hnew⟩

end Machine

/-- Declarations land in the scope of the statement and nowhere else. Whatever comes of a statement, no
frame that was there is gone or loses a name, and only the scope gets new ones, each of which the
statement declares. Whatever comes of an expression or of arguments, no frame gets a name and every
name means what it did. After a run the bindings have their names and then some that the program
declares outside of blocks; all other frames, the globals among them, have the names that they had. -/
theorem declarations_in_scope (limit fuel : Nat) (m : Machine) :
    (∀ scope s,
      m.store.Declares (Eval.stmt limit fuel scope s m).machine.store scope s.declared) ∧
    (∀ scope e, m.store.SameNames (Eval.expr limit fuel scope e m).machine.store) ∧
    (∀ scope es, m.store.SameNames (Eval.exprs limit fuel scope es m).machine.store) ∧
    ∀ layers program, m.store.Declares (m.run limit fuel layers program).2.store layers.bindings
      program.declared := by
  refine ⟨fun scope s => ?_, fun scope e => ?_, fun scope es => ?_, fun layers program => ?_⟩
  · have hcode : (namesRealm m.store scope s.declared).code scope (.stmt s) :=
      Or.inr ⟨rfl, List.Subset.refl _⟩
    exact ((Eval.evaluations _ limit fuel).stmt s hcode
      (namesRealm_holds _ _ _)).settled_machine.declares
  · have hcode : (namesRealm m.store scope []).code scope (.expr e) :=
      Or.inr ⟨rfl, List.nil_subset _⟩
    exact ((Eval.evaluations _ limit fuel).expr e hcode
      (namesRealm_holds _ _ _)).settled_machine.sameNames
  · have hcode : ∀ e ∈ es, (namesRealm m.store scope []).code scope (.expr e) :=
      fun e _ => Or.inr ⟨rfl, List.nil_subset _⟩
    exact ((Eval.evaluations _ limit fuel).exprs es hcode
      (namesRealm_holds _ _ _)).settled_machine.sameNames
  · exact Store.declares_of (m.isAlive_run limit fuel layers program)
      (m.localNames_run limit fuel layers program)

end ScriptEngine
