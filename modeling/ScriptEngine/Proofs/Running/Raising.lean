import ScriptEngine.Proofs.Running.Course
import ScriptEngine.Proofs.Running.Interruptions

/-!
Where faults and signals are raised. What breaks off the evaluation that begins at a moment is raised at
this moment, or at one that is entered from it and broken off by the same. Since that takes less fuel, a
way leads from each moment that is broken off to the one at which that was raised, through moments that
are all broken off by it.
-/
namespace ScriptEngine

namespace Moment

/-- The evaluation that begins at the moment raises this itself, and leaves this machine: it fails in its
own right, or it is a jump, or a transfer with the value that it has got. -/
inductive Raises (limit : Nat) : Moment → Interruption → Machine → Prop where
  | fault {M fault place n} (hplace : place ∈ M.task.spans) (hkind : fault.kind ≠ .userThrow) :
      Raises limit M (.fault fault place) n
  | jump {scope j place m} :
      Raises limit ⟨.stmt scope (.jump j place), m⟩ (.signal (.jump j place)) m
  | transfer {scope kind value place m v n} (fuel : Nat)
      (hvalue : Eval.optional limit fuel scope value m = .done v n) :
      Raises limit ⟨.stmt scope (.transfer kind value place), m⟩ (.signal (.transfer kind v place)) n

/-- With so much fuel the evaluation that begins at the moment is broken off. -/
def BrokenOff (limit fuel : Nat) (M : Moment) (i : Interruption) (n : Machine) : Prop :=
  (M.task.eval limit fuel M.machine).broken? = some (i, n)

/-- What breaks off the evaluation that begins at the moment is raised there, or it breaks off one that
is entered from there, and only frames have gone since. -/
def Accounts (limit fuel : Nat) (M : Moment) (i : Interruption) (n : Machine) : Prop :=
  ∃ k : Machine, k.Unwound n ∧ (M.Raises limit i k ∨
    ∃ N fuel', fuel' < fuel ∧ Enters limit M N ∧ N.BrokenOff limit fuel' i k)

variable {limit fuel : Nat} {M : Moment}

theorem Accounts.unwound {i : Interruption} {k n : Machine} (h : M.Accounts limit fuel i k)
    (hn : k.Unwound n) : M.Accounts limit fuel i n := by
  obtain ⟨k', hk', hraised⟩ := h
  exact ⟨k', hk'.trans hn, hraised⟩

end Moment

namespace Eval

variable {α β : Type} {limit fuel bound : Nat} {M : Moment} {m : Machine} {scope : FrameId}
  {P : Interruption → Machine → Prop}

theorem Faults.accounts {x : Eval α} (h : x.Faults M.task.spans) :
    x.Breaks m (M.Accounts limit fuel) := by
  intro i n hbroken
  obtain ⟨fault, place, rfl, hplace, hkind⟩ := h m i n hbroken
  exact ⟨n, .refl n, .inl (.fault hplace hkind)⟩

theorem breaks_of_enters {N : Moment} (h : Enters limit M N) (hfuel : fuel < bound) :
    (N.task.eval limit fuel).Breaks N.machine (M.Accounts limit bound) :=
  fun _ n hbroken => ⟨n, .refl n, .inr ⟨N, fuel, hfuel, h, hbroken⟩⟩

/-- A task that is a statement or statements is broken off as they are. -/
theorem broken?_task (x : Eval Unit) (m : Machine) :
    ((do x; pure .null : Eval Value) m).broken? = (x m).broken? := by
  rw [bind_apply]
  cases x m <;> rfl

theorem breaks_stmt_of_enters {s : Stmt} {n : Machine} (h : Enters limit M ⟨.stmt scope s, n⟩)
    (hfuel : fuel < bound) : (stmt limit fuel scope s).Breaks n (M.Accounts limit bound) :=
  fun i k hbroken => breaks_of_enters h hfuel i k ((broken?_task _ n).trans hbroken)

theorem breaks_stmts_of_enters {body : List Stmt} {n : Machine}
    (h : Enters limit M ⟨.stmts scope body, n⟩) (hfuel : fuel < bound) :
    (stmts limit fuel scope body).Breaks n (M.Accounts limit bound) :=
  fun i k hbroken => breaks_of_enters h hfuel i k ((broken?_task _ n).trans hbroken)

/-! Expressions in turn -/

/-- With less than so much fuel, whatever breaks off the evaluation that begins at the moment is this. -/
def BreaksWithin (limit bound : Nat) (P : Interruption → Machine → Prop) (N : Moment) : Prop :=
  ∀ fuel < bound, (N.task.eval limit fuel).Breaks N.machine P

theorem breaks_operand {x : Expr} {rest : List Expr} {f : Value → Eval β}
    (hturn : Moment.InTurn limit (BreaksWithin limit bound P) scope (x :: rest) m)
    (hfuel : fuel < bound)
    (hf : ∀ v n, Moment.InTurn limit (BreaksWithin limit bound P) scope rest n → (f v).Breaks n P) :
    (expr limit fuel scope x >>= f).Breaks m P :=
  Breaks.bind (hturn.head fuel hfuel) fun v n hv => hf v n (hturn.tail hv)

theorem breaks_exprs {es : List Expr} (hfuel : fuel < bound) :
    Moment.InTurn limit (BreaksWithin limit bound P) scope es m →
      (exprs limit fuel scope es).Breaks m P := by
  induction es generalizing fuel m with
  | nil =>
    intro _ i n hbroken
    cases fuel <;> cases hbroken
  | cons e rest ih =>
    intro hturn
    cases fuel with
    | zero =>
      intro i n hbroken
      cases hbroken
    | succ fuel =>
      refine breaks_operand hturn (Nat.lt_of_succ_lt hfuel) fun v n hn => ?_
      refine Breaks.bind (ih (Nat.lt_of_succ_lt hfuel) hn) fun vs k _ i n hbroken => ?_
      cases hbroken

theorem breaks_fieldValues {fields : List (Name × Expr)} {entries : Entries Value}
    (hfuel : fuel < bound) :
    Moment.InTurn limit (BreaksWithin limit bound P) scope (fields.map Prod.snd) m →
      (fieldValues limit fuel scope entries fields).Breaks m P := by
  induction fields generalizing fuel m entries with
  | nil =>
    intro _ i n hbroken
    cases fuel <;> cases hbroken
  | cons field rest ih =>
    intro hturn
    cases fuel with
    | zero =>
      intro i n hbroken
      cases hbroken
    | succ fuel =>
      exact breaks_operand hturn (Nat.lt_of_succ_lt hfuel) fun v n hn =>
        ih (Nat.lt_of_succ_lt hfuel) hn

theorem breaks_optional {value : Option Expr} (hfuel : fuel < bound)
    (hvalue : ∀ e, value = some e → BreaksWithin limit bound P ⟨.expr scope e, m⟩) :
    (optional limit fuel scope value).Breaks m P := by
  cases fuel with
  | zero =>
    intro i n hbroken
    cases hbroken
  | succ fuel =>
    cases value with
    | none =>
      intro i n hbroken
      cases hbroken
    | some e => exact hvalue e rfl fuel (Nat.lt_of_succ_lt hfuel)

/-! One step inwards -/

theorem breaks_callee {frame : FrameId} {callee : Name} {arguments : List Expr} {place : Span}
    {vs : List Value} {n : Machine} (hframe : m.store.resolve scope callee.text = some frame)
    (harguments : exprs limit fuel scope arguments m = .done vs n) :
    (do match ← ask fun σ => (σ.getLocal? frame callee.text).getD .null with
        | .function f => call limit fuel f vs place
        | .native f => callNative f vs place
        | other => fail (.mismatch .function other.typeName) callee.span : Eval Value).Breaks n
      (Moment.Accounts limit (fuel + 1) ⟨.expr scope (.call callee arguments place), m⟩) := by
  have hspan : callee.span ∈ (Task.expr scope (.call callee arguments place)).spans := by
    simp [Task.spans, Expr.names]
  refine Breaks.bind (faults_ask _).accounts fun found k hfound => ?_
  obtain rfl : n = k := (Outcome.done.inj hfound).2
  have hfound : (n.store.getLocal? frame callee.text).getD .null = found :=
    (Outcome.done.inj hfound).1
  cases hlocal : n.store.getLocal? frame callee.text with
  | none =>
    rw [hlocal] at hfound
    subst hfound
    exact (faults_fail hspan (by simp [RuntimeFault.kind])).accounts
  | some v =>
    rw [hlocal, Option.getD_some] at hfound
    subst hfound
    cases v with
    | function f =>
      exact breaks_of_enters (.call fuel hframe harguments hlocal) (Nat.lt_succ_self fuel)
    | native f =>
      have hnative : Enters limit ⟨.expr scope (.call callee arguments place), m⟩
          ⟨.native f vs place, n⟩ := .native fuel hframe harguments hlocal
      exact breaks_of_enters hnative (Nat.lt_succ_self fuel)
    | _ => exact (faults_fail hspan (by simp [RuntimeFault.kind])).accounts

theorem accounts_expr (fuel : Nat) (scope : FrameId) (e : Expr) (m : Machine) :
    (expr limit fuel scope e).Breaks m (Moment.Accounts limit fuel ⟨.expr scope e, m⟩) := by
  cases fuel with
  | zero =>
    intro i n hbroken
    cases hbroken
  | succ fuel =>
    have hless := Nat.lt_succ_self fuel
    have hturn : (∀ name ∈ e.subject?, (m.store.resolve scope name.text).isSome) →
        Moment.InTurn limit (BreaksWithin limit (fuel + 1)
          (Moment.Accounts limit (fuel + 1) ⟨.expr scope e, m⟩)) scope e.operands m :=
      fun hsubject before x after n hoperands hbefore fuel' hfuel' =>
        breaks_of_enters (.operand hsubject hoperands hbefore) hfuel'
    have hown : ∀ {α : Type} {x : Eval α} {n : Machine},
        x.Faults (Task.expr scope e).spans →
        x.Breaks n (Moment.Accounts limit (fuel + 1) ⟨.expr scope e, m⟩) :=
      fun h => Faults.accounts (M := ⟨.expr scope e, m⟩) h
    have hnode : e.span ∈ (Task.expr scope e).spans := List.mem_cons_self
    have hname : ∀ name ∈ e.names, name.span ∈ (Task.expr scope e).spans :=
      fun name h => List.mem_cons_of_mem _ (List.mem_map_of_mem h)
    unfold expr
    cases e with
    | literal value _ => exact hown (faults_pure _)
    | «variable» name => exact hown (faults_readVariable hnode)
    | assign target value _ =>
      refine Breaks.bind (hown (faults_resolve (hname target (by simp [Expr.names])))) ?_
      intro frame n hframe
      obtain ⟨hframe, rfl⟩ := resolve_eq_done hframe
      refine breaks_operand (hturn (by simp [Expr.subject?, hframe])) hless fun v n' _ => ?_
      exact hown ((faults_change _).bind fun _ => faults_pure v)
    | adjust target step _ => exact hown (faults_adjust (hname target (by simp [Expr.names])) step)
    | array items _ =>
      refine Breaks.bind (breaks_exprs hless (hturn (by simp [Expr.subject?]))) fun vs n _ => ?_
      exact hown (faults_add _)
    | arrayOfSize size place =>
      refine breaks_operand (hturn (by simp [Expr.subject?])) hless fun v n _ => ?_
      exact hown (faults_newArrayOfSize hnode v.toInt32)
    | struct fields _ =>
      refine Breaks.bind (breaks_fieldValues hless (hturn (by simp [Expr.subject?]))) fun _ n _ => ?_
      exact hown (faults_add _)
    | index target index place =>
      refine breaks_operand (hturn (by simp [Expr.subject?])) hless fun t n hn => ?_
      refine breaks_operand hn hless fun i n' _ => ?_
      exact hown (faults_readIndex hnode t i.toInt32)
    | assignIndex target index value place =>
      refine breaks_operand (hturn (by simp [Expr.subject?])) hless fun t n hn => ?_
      refine breaks_operand hn hless fun i n' hn' => breaks_operand hn' hless fun v n'' _ => ?_
      exact hown (faults_writeIndex hnode t i.toInt32 v)
    | member target member place =>
      refine breaks_operand (hturn (by simp [Expr.subject?])) hless fun t n _ => ?_
      exact hown (faults_readMember hnode (hname member (by simp [Expr.names])) t)
    | assignMember target member value place =>
      refine breaks_operand (hturn (by simp [Expr.subject?])) hless fun t n hn => ?_
      refine breaks_operand hn hless fun v n' _ => ?_
      exact hown (faults_writeMember hnode (hname member (by simp [Expr.names])) t v)
    | binary op left right place =>
      refine breaks_operand (hturn (by simp [Expr.subject?])) hless fun a n hn => ?_
      refine breaks_operand hn hless fun b n' _ => ?_
      exact hown (faults_applyBinary hnode op a b)
    | unary op operand _ =>
      refine breaks_operand (hturn (by simp [Expr.subject?])) hless fun v n _ => ?_
      exact hown (faults_pure _)
    | call callee arguments place =>
      refine Breaks.bind (hown (faults_resolve (hname callee (by simp [Expr.names])))) ?_
      intro frame n hframe
      obtain ⟨hframe, rfl⟩ := resolve_eq_done hframe
      refine Breaks.bind (breaks_exprs hless (hturn (by simp [Expr.subject?, hframe]))) ?_
      exact fun vs n hvs => breaks_callee hframe hvs
    | paren inner _ => exact (hturn (by simp [Expr.subject?])).head fuel hless

theorem accounts_call (fuel : Nat) (f : Closure) (arguments : List Value) (place : Span)
    (m : Machine) : (call limit fuel f arguments place).Breaks m
      (Moment.Accounts limit fuel ⟨.call f arguments place, m⟩) := by
  cases fuel with
  | zero =>
    intro i n hbroken
    cases hbroken
  | succ fuel =>
    have hplace : place ∈ (Task.call f arguments place).spans := List.mem_singleton_self place
    have hown : ∀ {α : Type} {x : Eval α} {n : Machine},
        x.Faults (Task.call f arguments place).spans →
        x.Breaks n (Moment.Accounts limit (fuel + 1) ⟨.call f arguments place, m⟩) :=
      fun h => Faults.accounts (M := ⟨.call f arguments place, m⟩) h
    refine Breaks.bind (hown (faults_checkCall hplace f)) fun _ n hcheck => ?_
    obtain ⟨-, rfl⟩ := checkCall_eq_done hcheck
    refine breaks_inChild (fun _ _ _ h hn => h.unwound hn) ?_
    refine Breaks.bind (hown (faults_bindParameters _ _)) fun _ n hbind => ?_
    refine breaks_asCall (fun _ _ _ h hn => h.unwound hn) ?_ fun j k => ?_
    · exact breaks_stmts_of_enters (.activation hcheck hbind) (Nat.lt_succ_self fuel)
    · exact ⟨k, .refl k, .inl (.fault hplace (by simp [RuntimeFault.kind]))⟩

theorem accounts_loop (fuel : Nat) (scope : FrameId) (condition : Expr) (body : Stmt) (span : Span)
    (m : Machine) : (loop limit fuel scope condition body).Breaks m
      (Moment.Accounts limit (fuel + 1) ⟨.stmt scope (.loop condition body span), m⟩) := by
  cases fuel with
  | zero =>
    intro i n hbroken
    cases hbroken
  | succ fuel =>
    have hless : fuel < fuel + 2 := by omega
    refine Breaks.bind (breaks_of_enters (.part rfl) hless) fun v n hcondition => ?_
    split
    · rename_i htruth
      refine breaks_repeating ?_ fun n' hbody => ?_
      · exact breaks_stmt_of_enters (.pass fuel hcondition htruth) hless
      · exact breaks_stmt_of_enters (.again fuel hcondition htruth hbody) (Nat.lt_succ_self (fuel + 1))
    · exact Faults.accounts (faults_pure ())

theorem accounts_stmt (fuel : Nat) (scope : FrameId) (s : Stmt) (m : Machine) :
    (stmt limit fuel scope s).Breaks m (Moment.Accounts limit fuel ⟨.stmt scope s, m⟩) := by
  cases fuel with
  | zero =>
    intro i n hbroken
    cases hbroken
  | succ fuel =>
    have hless := Nat.lt_succ_self fuel
    have hpart : ∀ e, s.operand? = some e → BreaksWithin limit (fuel + 1)
        (Moment.Accounts limit (fuel + 1) ⟨.stmt scope s, m⟩) ⟨.expr scope e, m⟩ :=
      fun e he fuel' hfuel' => breaks_of_enters (.part he) hfuel'
    have hown : ∀ {α : Type} {x : Eval α} {n : Machine},
        x.Faults (Task.stmt scope s).spans →
        x.Breaks n (Moment.Accounts limit (fuel + 1) ⟨.stmt scope s, m⟩) :=
      fun h => Faults.accounts (M := ⟨.stmt scope s, m⟩) h
    have hname : ∀ name ∈ s.names, name.span ∈ (Task.stmt scope s).spans :=
      fun name h => List.mem_map_of_mem h
    unfold stmt
    cases s with
    | declare name init _ =>
      refine Breaks.bind (breaks_optional hless hpart) fun v n _ => ?_
      exact hown (faults_declare (hname name (by simp [Stmt.names])) v)
    | function name params body span =>
      refine hown ((faults_add _).bind fun identity => ?_)
      exact faults_declare (hname name (by simp [Stmt.names])) _
    | block body _ =>
      refine breaks_inChild (fun _ _ _ h hn => h.unwound hn) ?_
      exact breaks_stmts_of_enters .block hless
    | branch condition thenBranch elseBranch _ =>
      refine Breaks.bind (hpart condition rfl fuel hless) fun v n hcondition => ?_
      split
      · rename_i htruth
        exact breaks_stmt_of_enters (.branch fuel hcondition (if_pos htruth)) hless
      · rename_i htruth
        cases elseBranch with
        | none => exact hown (faults_pure ())
        | some other =>
          exact breaks_stmt_of_enters (.branch fuel hcondition (if_neg htruth)) hless
    | loop condition body span => exact accounts_loop fuel scope condition body span m
    | jump j place =>
      intro i n hbroken
      obtain ⟨rfl, rfl⟩ := Prod.mk.inj (Option.some.inj hbroken)
      exact ⟨m, .refl m, .inl .jump⟩
    | transfer kind value place =>
      refine Breaks.bind (breaks_optional hless hpart) fun v k hvalue i n hbroken => ?_
      obtain ⟨rfl, rfl⟩ := Prod.mk.inj (Option.some.inj hbroken)
      exact ⟨k, .refl k, .inl (.transfer fuel hvalue)⟩
    | attempt body _ param handler _ _ =>
      refine breaks_catching ?_ fun payload place n hthrown => ?_
      · refine breaks_inChild (fun _ _ _ h hn => h.unwound hn) ?_
        exact breaks_stmts_of_enters .attempt hless
      · refine breaks_inChild (fun _ _ _ h hn => h.unwound hn) ?_
        refine Breaks.bind (hown (faults_declareThrown (fun name h => hname name ?_) payload)) ?_
        · exact Option.mem_toList.2 h
        · exact fun _ n' hparam =>
            breaks_stmts_of_enters (.handler fuel hthrown hparam) hless
    | expression e _ =>
      exact Breaks.bind (hpart e rfl fuel hless) fun v n _ => hown (faults_pure ())
    | empty _ => exact hown (faults_pure ())

theorem accounts_stmts (fuel : Nat) (scope : FrameId) (body : List Stmt) (m : Machine) :
    (stmts limit fuel scope body).Breaks m (Moment.Accounts limit fuel ⟨.stmts scope body, m⟩) := by
  cases fuel with
  | zero =>
    intro i n hbroken
    cases hbroken
  | succ fuel =>
    cases body with
    | nil => exact Faults.accounts (faults_pure ())
    | cons s rest =>
      refine Breaks.bind (breaks_stmt_of_enters .first (Nat.lt_succ_self fuel)) fun _ n hfirst => ?_
      exact breaks_stmts_of_enters (.rest fuel hfirst) (Nat.lt_succ_self fuel)

end Eval

namespace Moment

variable {limit fuel : Nat} {M N : Moment} {i : Interruption} {n : Machine}

theorem BrokenOff.accounts (h : M.BrokenOff limit fuel i n) : M.Accounts limit fuel i n := by
  obtain ⟨task, m⟩ := M
  cases task with
  | expr scope e => exact Eval.accounts_expr fuel scope e m i n h
  | call f arguments place => exact Eval.accounts_call fuel f arguments place m i n h
  | native f arguments place =>
    refine Eval.Faults.accounts (x := Eval.callNative f arguments place) ?_ i n h
    exact Eval.faults_callNative (List.mem_singleton_self place) f arguments
  | stmt scope s => exact Eval.accounts_stmt fuel scope s m i n ((Eval.broken?_task _ m).symm.trans h)
  | stmts scope body =>
    exact Eval.accounts_stmts fuel scope body m i n ((Eval.broken?_task _ m).symm.trans h)

/-- The second moment is entered from the first, and both are broken off by this. -/
def Hands (limit : Nat) (i : Interruption) (M N : Moment) : Prop :=
  Enters limit M N ∧ (∃ fuel n, M.BrokenOff limit fuel i n) ∧ ∃ fuel n, N.BrokenOff limit fuel i n

theorem reaches_of_hands (h : Relation.ReflTransGen (Hands limit i) M N) : M.Reaches limit N :=
  h.lift id fun _ _ h => h.1

/-- What breaks off an evaluation was raised inside it, and everything on the way there is broken off by
the same. -/
theorem BrokenOff.raised (h : M.BrokenOff limit fuel i n) :
    ∃ N k, Relation.ReflTransGen (Hands limit i) M N ∧ N.Raises limit i k ∧ k.Unwound n := by
  induction fuel using Nat.strong_induction_on generalizing M n with
  | h fuel ih =>
    obtain ⟨k, hk, hraised | ⟨N, fuel', hless, henters, hN⟩⟩ := h.accounts
    · exact ⟨M, k, .refl, hraised, hk⟩
    · obtain ⟨L, k', hway, hraised, hk'⟩ := ih fuel' hless hN
      exact ⟨L, k', .head ⟨henters, ⟨fuel, n, h⟩, fuel', k, hN⟩ hway, hraised, hk'.trans hk⟩

end Moment

end ScriptEngine
