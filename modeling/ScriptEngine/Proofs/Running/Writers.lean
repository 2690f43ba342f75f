import ScriptEngine.Proofs.Running.Composition
import ScriptEngine.Proofs.Running.Opening

/-!
Writers that refuse. A line is written in pieces, and a writer takes pieces as long as it has room. Of
all that an evaluation does itself only `print` has to do with the writer: when the writer takes the
pieces it is the same as with a writer that takes everything, and else it fails.
-/
namespace ScriptEngine

namespace Capacity

/-- What is left after the pieces, if the writer takes all of them. -/
def takeAll (capacity : Capacity) (pieces : List String) : Except HostFault Capacity :=
  pieces.foldlM take capacity

theorem takeAll_cons (capacity : Capacity) (piece : String) (pieces : List String) :
    capacity.takeAll (piece :: pieces) =
      (capacity.take piece).bind fun left => left.takeAll pieces := by
  unfold takeAll
  rw [List.foldlM_cons]
  rfl

theorem takeAll_append {capacity left : Capacity} {pieces : List String}
    (h : capacity.takeAll pieces = .ok left) (more : List String) :
    capacity.takeAll (pieces ++ more) = left.takeAll more := by
  unfold takeAll at h ⊢
  rw [List.foldlM_append, h]
  rfl

/-- Either the writer takes all the pieces, or it refuses one of them after those before it. -/
theorem takeAll_or_refuses (capacity : Capacity) (pieces : List String) :
    (∃ left, capacity.takeAll pieces = .ok left) ∨
      ∃ before piece after left reason, pieces = before ++ piece :: after ∧
        capacity.takeAll before = .ok left ∧ left.take piece = .error reason := by
  induction pieces generalizing capacity with
  | nil => exact Or.inl ⟨capacity, rfl⟩
  | cons piece rest ih =>
    cases hpiece : capacity.take piece with
    | error reason => exact Or.inr ⟨[], piece, rest, capacity, reason, rfl, rfl, hpiece⟩
    | ok room =>
      have hcons : ∀ more, capacity.takeAll (piece :: more) = room.takeAll more := by
        intro more
        rw [takeAll_cons, hpiece]
        rfl
      rcases ih room with ⟨left, hleft⟩ | ⟨before, refused, after, left, reason, rfl, hbefore, hrefused⟩
      · exact Or.inl ⟨left, (hcons rest).trans hleft⟩
      · exact Or.inr ⟨piece :: before, refused, after, left, reason, rfl,
          (hcons before).trans hbefore, hrefused⟩

theorem takeAll_unlimited (pieces : List String) : unlimited.takeAll pieces = .ok unlimited := by
  induction pieces with
  | nil => rfl
  | cons piece rest ih =>
    rw [takeAll_cons]
    exact ih

/-- A writer for so many pieces takes them and refuses the next one. -/
theorem takeAll_pieces {left : Capacity} {reason : HostFault} (pieces : List String) :
    ∀ {count : Nat}, (Capacity.pieces count reason).takeAll pieces = .ok left ↔
      pieces.length ≤ count ∧ left = .pieces (count - pieces.length) reason := by
  induction pieces with
  | nil =>
    intro count
    constructor
    · intro h
      exact ⟨Nat.zero_le _, (Except.ok.inj h).symm⟩
    · rintro ⟨-, rfl⟩
      rfl
  | cons piece rest ih =>
    intro count
    rw [takeAll_cons]
    cases count with
    | zero =>
      constructor
      · intro h
        exact absurd h (by simp [take, Except.bind])
      · rintro ⟨h, -⟩
        exact absurd h (Nat.not_succ_le_zero _)
    | succ count =>
      have hrest := @ih count
      rw [List.length_cons, Nat.succ_le_succ_iff, Nat.add_sub_add_right]
      exact hrest

end Capacity

namespace Console

/-- The pieces in which a line is written. -/
def linePieces (text : String) : List String := (if text.isEmpty then [] else [text]) ++ ["\n"]

/-- The console after the pieces, when the writer has so much room left. -/
def after (c : Console) (pieces : List String) (left : Capacity) : Console :=
  { c with written := pieces.reverse ++ c.written, capacity := left }

theorem after_after (c : Console) (pieces more : List String) (left left' : Capacity) :
    (c.after pieces left).after more left' = c.after (pieces ++ more) left' := by
  unfold after
  rw [List.reverse_append, List.append_assoc]

theorem output_of_written {c d : Console} {pieces more base : List String}
    (hd : d.written = pieces.reverse ++ base) (hc : c.written = (pieces ++ more).reverse ++ base) :
    c.output = d.output ++ String.join more := by
  unfold output
  rw [hc, hd]
  simp [String.append_assoc]

/-- Writes pieces up to one that is refused. -/
def writeAll (c : Console) : List String → Except HostFault Unit × Console
  | [] => (.ok (), c)
  | piece :: rest =>
    match c.write piece with
    | .error reason => (.error reason, c)
    | .ok c => c.writeAll rest

theorem writeLine_eq_writeAll (c : Console) (text : String) :
    c.writeLine text = c.writeAll (linePieces text) := by
  unfold writeLine writeText linePieces
  cases htext : text.isEmpty with
  | true => cases hfeed : c.write "\n" <;> simp [writeAll, hfeed]
  | false =>
    cases hwrite : c.write text with
    | error reason => simp [writeAll, hwrite]
    | ok d => cases hfeed : d.write "\n" <;> simp [writeAll, hwrite, hfeed]

theorem write_eq_ok {c : Console} {piece : String} {left : Capacity}
    (h : c.capacity.take piece = .ok left) : c.write piece = .ok (c.after [piece] left) := by
  unfold write
  rw [h]
  rfl

theorem write_eq_error {c : Console} {piece : String} {reason : HostFault}
    (h : c.capacity.take piece = .error reason) : c.write piece = .error reason := by
  unfold write
  rw [h]
  rfl

theorem writeAll_append {before : List String} (after : List String) :
    ∀ {c : Console} {left : Capacity}, c.capacity.takeAll before = .ok left →
      c.writeAll (before ++ after) = (c.after before left).writeAll after := by
  induction before with
  | nil =>
    intro c left h
    obtain rfl := Except.ok.inj h
    rfl
  | cons piece rest ih =>
    intro c left h
    rw [Capacity.takeAll_cons] at h
    cases hpiece : c.capacity.take piece with
    | error reason =>
      rw [hpiece] at h
      exact absurd h (by simp [Except.bind])
    | ok room =>
      rw [hpiece] at h
      have hrest := ih (c := c.after [piece] room) h
      rw [after_after] at hrest
      rw [List.cons_append, writeAll, write_eq_ok hpiece]
      exact hrest

theorem writeAll_eq_ok {c : Console} {pieces : List String} {left : Capacity}
    (h : c.capacity.takeAll pieces = .ok left) :
    c.writeAll pieces = (.ok (), c.after pieces left) := by
  have hall := writeAll_append [] h
  rw [List.append_nil] at hall
  exact hall

theorem writeAll_eq_error {c : Console} {before : List String} {piece : String}
    (after : List String) {left : Capacity} {reason : HostFault}
    (h : c.capacity.takeAll before = .ok left) (hpiece : left.take piece = .error reason) :
    c.writeAll (before ++ piece :: after) = (.error reason, c.after before left) := by
  rw [writeAll_append _ h, writeAll, write_eq_error hpiece]

/-- The text is taken, the line feed is not. -/
example : Console.writeLine ⟨[], [], .pieces 1 .writerFull⟩ "a" =
    (.error .writerFull, ⟨[], ["a"], .pieces 0 .writerFull⟩) := by
  rfl

end Console

namespace Machine

def withCapacity (m : Machine) (capacity : Capacity) : Machine :=
  { m with console := { m.console with capacity := capacity } }

/-- The second machine is the first one, which has a writer that takes everything, with a writer that
had some room and took all that was written after the base. -/
inductive Served (room : Capacity) (base : List String) : Machine → Machine → Prop where
  | intro {m pieces left} (hunlimited : m.console.capacity = .unlimited)
      (hwritten : m.console.written = pieces.reverse ++ base)
      (htaken : room.takeAll pieces = .ok left) : Served room base m (m.withCapacity left)

/-- The writer still takes everything, what was written is still written, and no frame was unmade. -/
structure Continues (m n : Machine) : Prop where
  capacity : n.console.capacity = .unlimited
  written : m.console.written <:+ n.console.written
  size : m.store.frames.size ≤ n.store.frames.size

theorem Continues.trans {m n k : Machine} (h : m.Continues n) (h' : n.Continues k) : m.Continues k :=
  ⟨h'.capacity, h.written.trans h'.written, Nat.le_trans h.size h'.size⟩

theorem Continues.refl {m : Machine} (h : m.console.capacity = .unlimited) : m.Continues m :=
  ⟨h, List.suffix_rfl, Nat.le_refl _⟩

namespace Served

variable {room : Capacity} {base : List String} {m m' : Machine} (h : m.Served room base m')
include h

theorem unlimited : m.console.capacity = .unlimited := by
  cases h with
  | intro hunlimited => exact hunlimited

theorem store : m'.store = m.store := by
  cases h with
  | intro => rfl

theorem onStore (f : Store → Store) :
    ({ m with store := f m.store } : Machine).Served room base { m' with store := f m'.store } := by
  cases h with
  | intro hunlimited hwritten htaken => exact .intro hunlimited hwritten htaken

theorem below (parent : FrameId) : (m.below parent).Served room base (m'.below parent) :=
  h.onStore fun σ => (σ.newChild parent).2

theorem atDepth (f : Nat → Nat) :
    ({ m with depth := f m.depth } : Machine).Served room base { m' with depth := f m'.depth } := by
  cases h with
  | intro hunlimited hwritten htaken => exact .intro hunlimited hwritten htaken

end Served

end Machine

/-- At the moment a line is printed, and a piece of it is refused by a writer that had some room before
what was written after the base. The machine is left as it was at the moment, with the pieces before
that one written; of the frames only so many need still be there. -/
structure Moment.Refused (room : Capacity) (base : List String) (limit size : Nat) (N : Moment)
    (reason : HostFault) (place : Span) (n : Machine) : Prop where
  print : ∃ f arguments, N.task = .native f arguments place ∧ f.action = .print
  taken : ∃ pieces, n.console.written = pieces.reverse ++ base ∧
    room.takeAll pieces = .ok n.console.capacity
  began : N.machine.console.written <:+ n.console.written
  refused : ∃ piece, n.console.capacity.take piece = .error reason ∧
    piece :: n.console.written <:+ (N.task.eval limit 0 N.machine).machine.console.written
  input : n.console.input = N.machine.console.input
  files : n.files = N.machine.files
  cells : n.store.cells = N.machine.store.cells
  identities : n.store.nextIdentity = N.machine.store.nextIdentity
  bindings : ∀ id, id < size → n.store.bindings id = N.machine.store.bindings id

/-- The second outcome is the first one, with a writer that has taken what was written, or a `print`
failed at such a moment. -/
inductive Outcome.Served (room : Capacity) (base : List String) (limit : Nat) (At : Moment → Prop)
    (size : Nat) {α : Type} : Outcome α → Outcome α → Prop where
  | same {outcome n'} (h : outcome.machine.Served room base n') :
      Served room base limit At size outcome (outcome.mapMachine fun _ => n')
  | stopped {outcome N reason place n'} (hN : At N)
      (hrefused : N.Refused room base limit size reason place n')
      (hwritten : (N.task.eval limit 0 N.machine).machine.console.written <:+
        outcome.machine.console.written) :
      Served room base limit At size outcome (.failed (.host reason) place n')

namespace Moment.Refused

variable {room : Capacity} {base : List String} {limit size : Nat} {N : Moment} {reason : HostFault}
  {place : Span} {n : Machine}

theorem within {size' : Nat} (h : N.Refused room base limit size' reason place n)
    (hsize : size ≤ size') : N.Refused room base limit size reason place n :=
  { h with bindings := fun id hid => h.bindings id (Nat.lt_of_lt_of_le hid hsize) }

theorem onStore (h : N.Refused room base limit size reason place n) {σ : Store}
    (hcells : σ.cells = n.store.cells) (hidentities : σ.nextIdentity = n.store.nextIdentity)
    (hbindings : ∀ id, id < size → σ.bindings id = n.store.bindings id) :
    N.Refused room base limit size reason place { n with store := σ } where
  print := h.print
  taken := h.taken
  began := h.began
  refused := h.refused
  input := h.input
  files := h.files
  cells := hcells.trans h.cells
  identities := hidentities.trans h.identities
  bindings id hid := (hbindings id hid).trans (h.bindings id hid)

theorem atDepth (h : N.Refused room base limit size reason place n) (depth : Nat) :
    N.Refused room base limit size reason place { n with depth := depth } :=
  ⟨h.print, h.taken, h.began, h.refused, h.input, h.files, h.cells, h.identities, h.bindings⟩

end Moment.Refused

namespace Outcome.Served

variable {α β : Type} {room : Capacity} {base : List String} {limit size : Nat} {At : Moment → Prop}

theorem within {size' : Nat} {first second : Outcome α}
    (h : Outcome.Served room base limit At size' first second) (hsize : size ≤ size') :
    Outcome.Served room base limit At size first second := by
  cases h with
  | same hn => exact .same hn
  | stopped hN hrefused hwritten =>
    exact .stopped hN (hrefused.within hsize) hwritten

theorem of_done {first : Outcome α} {a : α} {n' : Machine}
    (h : Outcome.Served room base limit At size first (.done a n')) :
    ∃ n, first = .done a n ∧ n.Served room base n' := by
  generalize hsecond : Outcome.done a n' = second at h
  cases h with
  | same hn =>
    cases first with
    | done b n =>
      obtain ⟨rfl, rfl⟩ := Outcome.done.inj hsecond
      exact ⟨n, rfl, hn⟩
    | _ => exact absurd hsecond (by simp [Outcome.mapMachine])
  | stopped => exact absurd hsecond (by simp)

theorem of_signalled {first : Outcome α} {s : Signal} {n' : Machine}
    (h : Outcome.Served room base limit At size first (.signalled s n')) :
    ∃ n, first = .signalled s n ∧ n.Served room base n' := by
  generalize hsecond : Outcome.signalled s n' = second at h
  cases h with
  | same hn =>
    cases first with
    | signalled t n =>
      obtain ⟨rfl, rfl⟩ := Outcome.signalled.inj hsecond
      exact ⟨n, rfl, hn⟩
    | _ => exact absurd hsecond (by simp [Outcome.mapMachine])
  | stopped => exact absurd hsecond (by simp)

end Outcome.Served

namespace Eval

variable {α β : Type} {room : Capacity} {base : List String} {limit fuel : Nat} {At : Moment → Prop}
  {m : Machine}

/-- The evaluation, begun with a writer that takes everything, continues from there; with another writer
it comes to the same or is stopped. -/
def Serves (room : Capacity) (base : List String) (limit : Nat) (At : Moment → Prop) (x : Eval α)
    (m : Machine) : Prop :=
  m.console.capacity = .unlimited → m.Continues (x m).machine ∧
    ∀ m', m.Served room base m' →
      Outcome.Served room base limit At m.store.frames.size (x m) (x m')

/-- Whatever the writer is, the evaluation does the same and writes nothing. -/
structure Quiet (x : Eval α) (m : Machine) : Prop where
  same : ∀ capacity, x (m.withCapacity capacity) = (x m).mapMachine (·.withCapacity capacity)
  capacity : (x m).machine.console.capacity = m.console.capacity
  written : (x m).machine.console.written = m.console.written
  size : m.store.frames.size ≤ (x m).machine.store.frames.size

theorem Quiet.serves {x : Eval α} (h : x.Quiet m) : Serves room base limit At x m := by
  intro hunlimited
  have hcapacity := h.capacity.trans hunlimited
  refine ⟨⟨hcapacity, h.written ▸ List.suffix_rfl, h.size⟩, fun m' hm => ?_⟩
  · cases hm with
    | @intro pieces left _ hwritten htaken =>
      have hend : (x m).machine.Served room base ((x m).machine.withCapacity left) :=
        .intro hcapacity (h.written.trans hwritten) htaken
      have hmap : (x m).mapMachine (·.withCapacity left) =
          (x m).mapMachine fun _ => (x m).machine.withCapacity left := by
        cases x m <;> rfl
      rw [h.same, hmap]
      exact .same hend

theorem quiet_of_machine {x : Eval α} (hm : (x m).machine = m)
    (h : ∀ capacity, x (m.withCapacity capacity) = (x m).mapMachine (·.withCapacity capacity)) :
    x.Quiet m :=
  ⟨h, by rw [hm], by rw [hm], Nat.le_of_eq (by rw [hm])⟩

theorem Inspects.quiet {x : Eval α} (h : x.Inspects) : x.Quiet m := by
  rcases h m.store with ⟨a, hdone⟩ | ⟨fault, place, -, hfailed⟩
  · refine quiet_of_machine ?_ fun capacity => ?_
    · rw [hdone m rfl]
      rfl
    · rw [hdone m rfl]
      exact hdone _ rfl
  · refine quiet_of_machine ?_ fun capacity => ?_
    · rw [hfailed m rfl]
      rfl
    · rw [hfailed m rfl]
      exact hfailed _ rfl

theorem quiet_exhausted : (exhausted : Eval α).Quiet m := quiet_of_machine rfl fun _ => rfl

theorem quiet_signal (s : Signal) : (signal s : Eval α).Quiet m := quiet_of_machine rfl fun _ => rfl

theorem quiet_add {f : Store → α × Store} (h : ∀ σ, (f σ).2.frames = σ.frames) : (add f).Quiet m :=
  ⟨fun _ => rfl, rfl, rfl, Nat.le_of_eq (congrArg Array.size (h m.store)).symm⟩

theorem quiet_setLocal (frame : FrameId) (name : Name) (v : Value) : (setLocal frame name v).Quiet m :=
  ⟨fun _ => rfl, rfl, rfl, Nat.le_of_eq (Store.size_setLocal ..).symm⟩

theorem quiet_checkCall (f : Closure) (place : Span) : (checkCall limit f place).Quiet m := by
  unfold checkCall
  by_cases hdepth : limit ≤ m.depth
  · exact quiet_of_machine (by simp [hdepth, Outcome.machine]) fun _ => by
      simp [hdepth, Machine.withCapacity, Outcome.mapMachine]
  · by_cases halive : m.store.isAlive f.home <;>
      exact quiet_of_machine (by simp [hdepth, halive, Outcome.machine]) fun _ => by
        simp [hdepth, halive, Machine.withCapacity, Outcome.mapMachine]

/-! Host functions -/

/-- Whatever the writer is, the host function does the same and writes nothing. -/
structure QuietHost (f : Machine → Except HostFault Value × Machine) (m : Machine) : Prop where
  same : ∀ capacity, f (m.withCapacity capacity) = ((f m).1, (f m).2.withCapacity capacity)
  capacity : (f m).2.console.capacity = m.console.capacity
  written : (f m).2.console.written = m.console.written

theorem quietHost_readLine (m : Machine) : QuietHost Machine.readLine m := by
  unfold Machine.readLine Console.readLine
  cases hinput : m.console.input with
  | nil => constructor <;> simp [Machine.withCapacity, hinput]
  | cons c rest =>
    cases hline : Text.Utf8.complete? (Console.firstLine (c :: rest)).1 <;>
      constructor <;> simp [Machine.withCapacity, hinput, hline]

theorem quietHost_readFile (path : Value) (m : Machine) : QuietHost (·.readFile path) m := by
  unfold Machine.readFile
  cases hpath : path.path m.store <;> constructor <;> simp [Machine.withCapacity, hpath]

theorem quietHost_writeFile (path text : Value) (m : Machine) :
    QuietHost (·.writeFile path text) m := by
  unfold Machine.writeFile
  cases hpath : path.path m.store with
  | error fault => constructor <;> simp [Machine.withCapacity, hpath]
  | ok path =>
    cases htext : text.isNull with
    | true => constructor <;> simp [Machine.withCapacity, hpath]
    | false =>
      cases hwrite : m.files.write path (text.text m.store) <;>
        constructor <;> simp [Machine.withCapacity, hpath, hwrite]

theorem quietHost_keys (v : Value) (m : Machine) :
    QuietHost (fun m => (.ok (m.keys v).1, (m.keys v).2)) m := by
  cases v <;> exact ⟨fun _ => rfl, rfl, rfl⟩

/-- Only `print` has to do with the writer. -/
theorem quietHost_run {action : NativeAction} (haction : action ≠ .print) (arguments : List Value)
    (m : Machine) : QuietHost (action.run arguments) m := by
  cases action with
  | print => exact absurd rfl haction
  | read => exact quietHost_readLine m
  | readFile => exact quietHost_readFile _ m
  | writeFile => exact quietHost_writeFile _ _ m
  | keys => exact quietHost_keys (arguments.getD 0 .null) m
  | _ => exact ⟨fun _ => rfl, rfl, rfl⟩

theorem machine_callNative (f : Native) (arguments : List Value) (place : Span) (m : Machine) :
    (callNative f arguments place m).machine = (f.action.run (f.fit arguments) m).2 := by
  unfold callNative Native.call
  cases f.action.run (f.fit arguments) m with
  | mk result n => cases result <;> rfl

theorem quiet_callNative {f : Native} (hf : f.action ≠ .print) (arguments : List Value)
    (place : Span) : (callNative f arguments place).Quiet m := by
  have hrun := quietHost_run hf (f.fit arguments) m
  have hmachine := machine_callNative f arguments place m
  refine ⟨fun capacity => ?_, ?_, ?_, ?_⟩
  · unfold callNative Native.call
    rw [hrun.same]
    cases f.action.run (f.fit arguments) m with
    | mk result n => cases result <;> rfl
  · rw [hmachine]
    exact hrun.capacity
  · rw [hmachine]
    exact hrun.written
  · rw [hmachine, frames_run]

/-- The line that `print` writes. -/
def printed (f : Native) (arguments : List Value) (σ : Store) : String :=
  ((f.fit arguments).getD 0 .null).text σ

theorem callNative_print_eq_done {f : Native} (hf : f.action = .print) {arguments : List Value}
    (place : Span) {line : List String} {left : Capacity}
    (hline : Console.linePieces (printed f arguments m.store) = line)
    (h : m.console.capacity.takeAll line = .ok left) :
    callNative f arguments place m = .done .null { m with console := m.console.after line left } := by
  have hwrite := (Console.writeLine_eq_writeAll _ _).trans
    ((congrArg _ hline).trans (Console.writeAll_eq_ok h))
  unfold printed at hwrite
  simp only [callNative, Native.call, hf, NativeAction.run, Machine.print, hwrite, Except.map]

theorem callNative_print_eq_failed {f : Native} (hf : f.action = .print) {arguments : List Value}
    (place : Span) {before after : List String} {piece : String} {left : Capacity}
    {reason : HostFault}
    (hline : Console.linePieces (printed f arguments m.store) = before ++ piece :: after)
    (h : m.console.capacity.takeAll before = .ok left) (hpiece : left.take piece = .error reason) :
    callNative f arguments place m = .failed (.host reason) place { m with
      console := m.console.after before left } := by
  have hwrite := (Console.writeLine_eq_writeAll _ _).trans
    ((congrArg _ hline).trans (Console.writeAll_eq_error after h hpiece))
  unfold printed at hwrite
  simp only [callNative, Native.call, hf, NativeAction.run, Machine.print, hwrite, Except.map]

/-- A line that the writer does not take whole stops the evaluation at the moment that prints it. -/
theorem serves_print {f : Native} (hf : f.action = .print) {arguments : List Value} {place : Span}
    (hM : At ⟨.native f arguments place, m⟩) :
    Serves room base limit At (callNative f arguments place) m := by
  intro hunlimited
  generalize hline : Console.linePieces (printed f arguments m.store) = line
  have hall : m.console.capacity.takeAll line = .ok .unlimited := by
    rw [hunlimited]
    exact Capacity.takeAll_unlimited line
  have hfree := callNative_print_eq_done hf place hline hall
  have hafter : ∀ taken pieces : List String, m.console.written = pieces.reverse ++ base →
      taken.reverse ++ m.console.written = (pieces ++ taken).reverse ++ base := by
    intro taken pieces hwritten
    rw [hwritten, List.reverse_append, List.append_assoc]
  rw [hfree]
  refine ⟨⟨rfl, List.suffix_append _ _, Nat.le_refl _⟩, fun m' hm => ?_⟩
  cases hm with
  | @intro pieces left _ hwritten htaken =>
    rcases left.takeAll_or_refuses line with ⟨left', hleft⟩ |
      ⟨before, piece, after, left', reason, rfl, hbefore, hpiece⟩
    · have hcurbed := callNative_print_eq_done (m := m.withCapacity left) hf place hline hleft
      rw [hcurbed]
      exact .same (.intro rfl (hafter line pieces hwritten)
        ((Capacity.takeAll_append htaken line).trans hleft))
    · have hcurbed := callNative_print_eq_failed (m := m.withCapacity left) hf place hline
        hbefore hpiece
      rw [hcurbed]
      refine .stopped hM ⟨⟨f, arguments, rfl, hf⟩, ?_, ?_, ?_, rfl, rfl, rfl, rfl, fun _ _ => rfl⟩ ?_
      · exact ⟨pieces ++ before, hafter before pieces hwritten,
          (Capacity.takeAll_append htaken before).trans hbefore⟩
      · exact List.suffix_append _ _
      · refine ⟨piece, hpiece, ?_⟩
        change _ <:+ (callNative f arguments place m).machine.console.written
        rw [hfree]
        refine ⟨after.reverse, ?_⟩
        simp [Console.after, Machine.withCapacity, Outcome.machine]
      · change (callNative f arguments place m).machine.console.written <:+ _
        rw [hfree]

end Eval

end ScriptEngine
