import ScriptEngine.Proofs.Running.Fuel
import ScriptEngine.Proofs.Running.Series

/-!
The course of a run through its moments. The amounts of fuel with which a run comes to a moment do not
matter: with enough fuel each evaluation comes to all the moments inside it, and goes on from there to
its end. So whatever is there at some moment, or when the evaluation that begins then ends, is there at
the end of the run, and at the time when a run that has no end is cut short late enough.
-/
namespace ScriptEngine

namespace Eval

variable {α β γ : Type} {limit : Nat} {m n k : Machine}

theorem Prolonged.eq {x y : Eval α} (h : x.Prolonged y) {outcome : Outcome α}
    (hx : x m = outcome) (hends : ∀ n, outcome ≠ .exhausted n) : y m = outcome := by
  have hout := h.outcome m
  rw [hx] at hout
  generalize y m = second at hout
  cases hout with
  | same => rfl
  | further => exact absurd rfl (hends _)

/-- With enough fuel the first evaluation comes to the second one, leaves it as much fuel as it may
need, and goes on when that is through. -/
def Leads (x : Nat → Eval α) (m : Machine) (y : Nat → Eval β) (n : Machine) : Prop :=
  ∀ least, ∃ enough, ∀ fuel, enough ≤ fuel → ∃ fuel', least ≤ fuel' ∧
    (y fuel' n).machine.store.Retains (x fuel m).machine.store

variable {x : Nat → Eval α} {y : Nat → Eval β} {z : Nat → Eval γ}

namespace Leads

theorem refl (x : Nat → Eval α) (m : Machine) : Leads x m x m :=
  fun least => ⟨least, fun fuel hfuel => ⟨fuel, hfuel, .refl _⟩⟩

theorem trans (h : Leads x m y n) (h' : Leads y n z k) : Leads x m z k := by
  intro least
  obtain ⟨enough', h'⟩ := h' least
  obtain ⟨enough, h⟩ := h enough'
  refine ⟨enough, fun fuel hfuel => ?_⟩
  obtain ⟨fuel', hfuel', hway⟩ := h fuel hfuel
  obtain ⟨fuel'', hfuel'', hway'⟩ := h' fuel' hfuel'
  exact ⟨fuel'', hfuel'', hway'.trans hway⟩

theorem succ (h : Leads (fun fuel => x (fuel + 1)) m y n) : Leads x m y n := by
  intro least
  obtain ⟨enough, h⟩ := h least
  refine ⟨enough + 1, fun fuel hfuel => ?_⟩
  obtain ⟨fuel, rfl⟩ := Nat.exists_eq_add_of_le' hfuel
  exact h (fuel + enough) (Nat.le_add_left _ _)

theorem of_succ (h : Leads x m (fun fuel => y (fuel + 1)) n) : Leads x m y n := by
  intro least
  obtain ⟨enough, h⟩ := h least
  refine ⟨enough, fun fuel hfuel => ?_⟩
  obtain ⟨fuel', hfuel', hway⟩ := h fuel hfuel
  exact ⟨fuel' + 1, Nat.le_succ_of_le hfuel', hway⟩

/-- What comes last in an evaluation, after enough of it is through. -/
theorem last {whole : Nat → Eval γ} (enough : Nat) (h : Leads x k y n)
    (hwhole : ∀ fuel, enough ≤ fuel →
      (x fuel k).machine.store.Retains (whole fuel m).machine.store) : Leads whole m y n := by
  intro least
  obtain ⟨enough', h⟩ := h least
  refine ⟨max enough enough', fun fuel hfuel => ?_⟩
  obtain ⟨fuel', hfuel', hway⟩ := h fuel (Nat.le_trans (Nat.le_max_right _ _) hfuel)
  exact ⟨fuel', hfuel', hway.trans (hwhole fuel (Nat.le_trans (Nat.le_max_left _ _) hfuel))⟩

theorem first {f : Nat → α → Eval γ} (h : Leads x m y n) (hrest : ∀ fuel a, (f fuel a).Retains) :
    Leads (fun fuel => x fuel >>= f fuel) m y n := by
  refine Leads.last 0 h fun fuel _ => ?_
  rw [bind_apply]
  cases x fuel m with
  | done a k => exact hrest fuel a k
  | _ => exact .refl _

theorem next {f : Nat → α → Eval γ} {a : α} (enough : Nat)
    (hx : ∀ fuel, enough ≤ fuel → x fuel m = .done a k) (h : Leads (fun fuel => f fuel a) k y n) :
    Leads (fun fuel => x fuel >>= f fuel) m y n := by
  refine Leads.last enough h fun fuel hfuel => ?_
  rw [bind_apply, hx fuel hfuel]
  exact .refl _

theorem inChild {parent : FrameId} {body : Nat → FrameId → Eval α}
    (h : Leads (fun fuel => body fuel m.store.frames.size) (m.below parent) y n) :
    Leads (fun fuel => Eval.inChild parent (body fuel)) m y n := by
  refine Leads.last 0 h fun fuel _ => ?_
  change Store.Retains _ (Outcome.mapMachine _ _).machine.store
  rw [Outcome.machine_mapMachine]
  exact .of_cells rfl

theorem asCall {place : Span} {body : Nat → Eval Unit}
    (h : Leads body { m with depth := m.depth + 1 } y n) :
    Leads (fun fuel => Eval.asCall place (body fuel)) m y n := by
  refine Leads.last 0 h fun fuel _ => ?_
  rw [store_asCall]
  exact .refl _

theorem catching {body : Nat → Eval Unit} {handler : Nat → Value → Eval Unit} (h : Leads body m y n)
    (hhandler : ∀ fuel v, (handler fuel v).Retains) :
    Leads (fun fuel => Eval.catching (body fuel) (handler fuel)) m y n := by
  refine Leads.last 0 h fun fuel _ => ?_
  unfold Eval.catching
  cases body fuel m with
  | signalled s k =>
    cases s with
    | jump j at_ => exact .refl _
    | transfer kind v at_ =>
      cases kind with
      | throw => exact hhandler fuel v k
      | _ => exact .refl _
  | _ => exact .refl _

theorem handling {body : Nat → Eval Unit} {handler : Nat → Value → Eval Unit} {payload : Value}
    {place : Span} (enough : Nat)
    (hbody : ∀ fuel, enough ≤ fuel → body fuel m = .signalled (.transfer .throw payload place) k)
    (h : Leads (fun fuel => handler fuel payload) k y n) :
    Leads (fun fuel => Eval.catching (body fuel) (handler fuel)) m y n := by
  refine Leads.last enough h fun fuel hfuel => ?_
  unfold Eval.catching
  rw [hbody fuel hfuel]
  exact .refl _

theorem repeating {body again : Nat → Eval Unit} (h : Leads body m y n)
    (hagain : ∀ fuel, (again fuel).Retains) :
    Leads (fun fuel => Eval.repeating (body fuel) (again fuel)) m y n := by
  refine Leads.last 0 h fun fuel _ => ?_
  unfold Eval.repeating
  cases body fuel m with
  | done _ k => exact hagain fuel k
  | signalled s k =>
    cases s with
    | jump j at_ =>
      cases j with
      | «continue» => exact hagain fuel k
      | «break» => exact .refl _
    | transfer kind v at_ => exact .refl _
  | _ => exact .refl _

theorem again {body again : Nat → Eval Unit} (enough : Nat)
    (hbody : ∀ fuel, enough ≤ fuel → body fuel m = .done () k ∨
      ∃ place, body fuel m = .signalled (.jump .continue place) k)
    (h : Leads again k y n) : Leads (fun fuel => Eval.repeating (body fuel) (again fuel)) m y n := by
  refine Leads.last enough h fun fuel hfuel => ?_
  unfold Eval.repeating
  rcases hbody fuel hfuel with hbody | ⟨place, hbody⟩
  · rw [hbody]
    exact .refl _
  · rw [hbody]
    exact .refl _

end Leads

/-! The same with more fuel -/

theorem expr_eq_done {fuel fuel' : Nat} {scope : FrameId} {e : Expr} {v : Value}
    (h : expr limit fuel scope e m = .done v n) (hfuel : fuel ≤ fuel') :
    expr limit fuel' scope e m = .done v n :=
  ((longer limit hfuel).expr scope e).eq h fun _ => by simp

theorem retains_expr (fuel : Nat) (scope : FrameId) (e : Expr) : (expr limit fuel scope e).Retains :=
  ((longer limit (Nat.le_refl fuel)).expr scope e).retains

theorem retains_pure (a : α) : (Pure.pure a : Eval α).Retains := (prolonged_pure a).retains

theorem Retains.bind {x : Eval α} {f : α → Eval β} (h : x.Retains) (hf : ∀ a, (f a).Retains) :
    (x >>= f).Retains :=
  ((prolonged_of_retains h).bind fun a => prolonged_of_retains (hf a)).retains

theorem Retains.inChild {parent : FrameId} {body : FrameId → Eval α}
    (h : ∀ frame, (body frame).Retains) : (inChild parent body).Retains :=
  (Prolonged.inChild fun frame => prolonged_of_retains (h frame)).retains

/-! Operands -/

theorem leads_exprs {scope : FrameId} {before after : List Expr} {e : Expr}
    (h : Passes limit scope before m n) :
    Leads (fun fuel => exprs limit fuel scope (before ++ e :: after)) m
      (fun fuel => expr limit fuel scope e) n := by
  have hall := fun fuel => longer limit (Nat.le_refl fuel)
  induction h with
  | nil =>
    refine .succ (.first (.refl _ _) fun fuel v => ?_)
    exact ((hall fuel).exprs scope after).retains.bind fun vs => retains_pure _
  | cons fuel hfirst _ ih =>
    refine .succ (.next fuel (fun fuel' hfuel => expr_eq_done hfirst hfuel) ?_)
    exact .first ih fun fuel vs => retains_pure _

theorem leads_fieldValues {scope : FrameId} {before : List Expr} {m n : Machine}
    (h : Passes limit scope before m n) {after : List Expr} {e : Expr} :
    ∀ {fields : List (Name × Expr)} (entries : Entries Value),
      fields.map Prod.snd = before ++ e :: after →
      Leads (fun fuel => fieldValues limit fuel scope entries fields) m
        (fun fuel => expr limit fuel scope e) n := by
  have hall := fun fuel => longer limit (Nat.le_refl fuel)
  induction h with
  | nil =>
    intro fields entries hfields
    obtain ⟨⟨name, _⟩, rest, rfl, rfl, -⟩ := List.map_eq_cons_iff.mp hfields
    refine .succ (.first (.refl _ _) fun fuel v => ?_)
    exact ((hall fuel).fieldValues scope _ rest).retains
  | cons fuel hfirst _ ih =>
    intro fields entries hfields
    obtain ⟨⟨name, _⟩, rest, rfl, rfl, hrest⟩ := List.map_eq_cons_iff.mp hfields
    exact .succ (.next fuel (fun fuel' hfuel => expr_eq_done hfirst hfuel) (ih _ hrest))

/-- The expressions are evaluated in turn, then something else is done that takes no array or struct
away. -/
inductive InOrder (limit : Nat) (scope : FrameId) : List Expr → (Nat → Eval α) → Prop where
  | rest {x : Nat → Eval α} (hx : ∀ fuel, (x fuel).Retains) : InOrder limit scope [] x
  | cons {e : Expr} {es : List Expr} {f : Nat → Value → Eval α}
      (h : ∀ v, InOrder limit scope es fun fuel => f fuel v) :
      InOrder limit scope (e :: es) fun fuel => expr limit fuel scope e >>= f fuel

theorem InOrder.retains {scope : FrameId} {es : List Expr} (h : InOrder limit scope es x) (fuel : Nat) :
    (x fuel).Retains := by
  induction h with
  | rest hx => exact hx fuel
  | cons _ ih => exact (retains_expr fuel scope _).bind fun v => ih v

theorem InOrder.leads {scope : FrameId} {before after es : List Expr} {e : Expr}
    (hx : InOrder limit scope es x) (hes : es = before ++ e :: after)
    (h : Passes limit scope before m n) : Leads x m (fun fuel => expr limit fuel scope e) n := by
  subst hes
  induction h generalizing x with
  | nil =>
    cases hx with
    | cons hx => exact .first (.refl _ _) fun fuel v => (hx v).retains fuel
  | cons fuel hfirst _ ih =>
    cases hx with
    | cons hx => exact .next fuel (fun fuel' => expr_eq_done hfirst) (ih (hx _))

theorem inOrder_of_keeps {scope : FrameId} {x : Eval α} {ok : Machine → α → Prop}
    (h : ∀ m, Realm.whole.Holds m.store → x.Keeps Realm.whole m (ok m)) :
    InOrder limit scope [] fun _ => x :=
  .rest fun _ => Keeps.retains h

/-! Moments -/

theorem leads_operand {scope : FrameId} {e x : Expr} {before after : List Expr}
    (hsubject : ∀ name ∈ e.subject?, (m.store.resolve scope name.text).isSome)
    (hoperands : e.operands = before ++ x :: after) (h : Passes limit scope before m n) :
    Leads (fun fuel => expr limit fuel scope e) m (fun fuel => expr limit fuel scope x) n := by
  have hresolve : ∀ name, e.subject? = some name →
      ∃ frame, ∀ fuel : Nat, 0 ≤ fuel → resolve scope name m = .done frame m := by
    intro name hname
    obtain ⟨frame, hframe⟩ := Option.isSome_iff_exists.mp (hsubject name hname)
    refine ⟨frame, fun _ _ => ?_⟩
    unfold resolve
    rw [hframe]
  have hlist : ∀ {f : Nat → List Value → Eval Value} {es : List Expr}, es = before ++ x :: after →
      (∀ fuel vs, (f fuel vs).Retains) →
      Leads (fun fuel => exprs limit fuel scope es >>= f fuel) m
        (fun fuel => expr limit fuel scope x) n := by
    rintro f es rfl hrest
    exact .first (leads_exprs h) hrest
  refine .succ ?_
  cases e with
  | literal value _ => exact absurd hoperands (by simp [Expr.operands])
  | «variable» name => exact absurd hoperands (by simp [Expr.operands])
  | assign target value _ =>
    obtain ⟨frame, hframe⟩ := hresolve target rfl
    refine .next 0 hframe (InOrder.leads (.cons fun v => ?_) hoperands h)
    exact .rest fun _ => (prolonged_setLocal frame target v).retains.bind fun _ => retains_pure v
  | adjust target step _ => exact absurd hoperands (by simp [Expr.operands])
  | array items _ =>
    refine hlist hoperands fun _ vs => ?_
    exact Keeps.retains fun _ h => keeps_newArray h fun _ _ => trivial
  | arrayOfSize size place =>
    refine InOrder.leads (.cons fun v => ?_) hoperands h
    exact inOrder_of_keeps fun _ h => keeps_newArrayOfSize h v.toInt32 place
  | struct fields _ =>
    refine .first (leads_fieldValues h [] hoperands) fun _ entries => ?_
    exact Keeps.retains fun _ h => keeps_newStruct h fun _ _ => trivial
  | index target index place =>
    refine InOrder.leads (.cons fun t => .cons fun i => ?_) hoperands h
    exact inOrder_of_keeps fun _ h => keeps_readIndex h (trivial : Realm.whole.data t) i.toInt32 place
  | assignIndex target index value place =>
    refine InOrder.leads (.cons fun t => .cons fun i => .cons fun v => ?_) hoperands h
    exact inOrder_of_keeps fun _ h =>
      keeps_writeIndex h (trivial : Realm.whole.data t) i.toInt32 (v := v) trivial place
  | member target member place =>
    refine InOrder.leads (.cons fun t => ?_) hoperands h
    exact inOrder_of_keeps fun _ h => keeps_readMember h (trivial : Realm.whole.data t) member place
  | assignMember target member value place =>
    refine InOrder.leads (.cons fun t => .cons fun v => ?_) hoperands h
    exact inOrder_of_keeps fun _ h =>
      keeps_writeMember h (trivial : Realm.whole.data t) member (v := v) trivial place
  | binary op left right place =>
    refine InOrder.leads (.cons fun a => .cons fun b => ?_) hoperands h
    exact inOrder_of_keeps fun _ h => keeps_applyBinary h op a b place
  | unary op operand _ =>
    exact InOrder.leads (.cons fun v => .rest fun _ => retains_pure _) hoperands h
  | call callee arguments place =>
    obtain ⟨frame, hframe⟩ := hresolve callee rfl
    refine .next 0 hframe (hlist hoperands fun fuel vs => ?_)
    exact (prolonged_callee fun f =>
      (longer limit (Nat.le_refl fuel)).call f vs place).retains
  | paren inner _ =>
    obtain ⟨rfl, hinner⟩ : before = [] ∧ x = inner := by
      cases before with
      | nil => exact ⟨rfl, (List.cons.inj hoperands).1.symm⟩
      | cons first rest => exact absurd hoperands (by simp [Expr.operands])
    cases h
    exact hinner ▸ .refl _ _

theorem leads_callee {scope frame : FrameId} {callee : Name} {arguments : List Expr} {place : Span}
    {vs : List Value} {fuel : Nat} (hframe : m.store.resolve scope callee.text = some frame)
    (harguments : exprs limit fuel scope arguments m = .done vs n)
    (h : Leads (fun fuel => (do
        match ← ask fun σ => (σ.getLocal? frame callee.text).getD .null with
        | .function f => call limit fuel f vs place
        | .native f => callNative f vs place
        | other => fail (.mismatch .function other.typeName) callee.span : Eval Value)) n y k) :
    Leads (fun fuel => expr limit fuel scope (.call callee arguments place)) m y k := by
  refine .succ (.next 0 (a := frame) (k := m) (fun _ _ => ?_) ?_)
  · unfold resolve
    rw [hframe]
  · refine .next fuel (a := vs) (k := n) (fun fuel' hfuel => ?_) h
    exact ((longer limit hfuel).exprs scope arguments).eq harguments fun _ => by simp

theorem leads_loop {scope : FrameId} {condition : Expr} {body : Stmt} {v : Value} {fuel : Nat}
    (hcondition : expr limit fuel scope condition m = .done v n) (htruth : v.truth)
    (h : Leads (fun fuel => repeating (stmt limit fuel scope body)
      (loop limit fuel scope condition body)) n y k) :
    Leads (fun fuel => loop limit fuel scope condition body) m y k := by
  refine .succ (.next fuel (fun fuel' hfuel => expr_eq_done hcondition hfuel) ?_)
  simp only [if_pos htruth]
  exact h

theorem Leads.to_stmt {scope : FrameId} {s : Stmt}
    (h : Leads x m (fun fuel => stmt limit fuel scope s) n) :
    Leads x m (fun fuel => (Task.stmt scope s).eval limit fuel) n := by
  refine h.trans (.last 0 (.refl _ n) fun fuel _ => ?_)
  change Store.Retains ((stmt limit fuel scope s >>= fun _ => Pure.pure Value.null) n).machine.store _
  rw [bind_apply]
  cases stmt limit fuel scope s n <;> exact .refl _

theorem Leads.to_stmts {scope : FrameId} {body : List Stmt}
    (h : Leads x m (fun fuel => stmts limit fuel scope body) n) :
    Leads x m (fun fuel => (Task.stmts scope body).eval limit fuel) n := by
  refine h.trans (.last 0 (.refl _ n) fun fuel _ => ?_)
  change Store.Retains ((stmts limit fuel scope body >>= fun _ => Pure.pure Value.null) n).machine.store _
  rw [bind_apply]
  cases stmts limit fuel scope body n <;> exact .refl _

theorem Leads.of_stmt {scope : FrameId} {s : Stmt}
    (h : Leads (fun fuel => stmt limit (fuel + 1) scope s) m y n) :
    Leads (fun fuel => (Task.stmt scope s).eval limit fuel) m y n :=
  .first (.succ h) fun _ _ => retains_pure Value.null

theorem Leads.of_stmts {scope : FrameId} {body : List Stmt}
    (h : Leads (fun fuel => stmts limit (fuel + 1) scope body) m y n) :
    Leads (fun fuel => (Task.stmts scope body).eval limit fuel) m y n :=
  .first (.succ h) fun _ _ => retains_pure Value.null

end Eval

namespace Moment

variable {limit : Nat} {M N : Moment}

/-- From one moment the run comes to another one. -/
def Leads (limit : Nat) (M N : Moment) : Prop :=
  Eval.Leads (fun fuel => M.task.eval limit fuel) M.machine (fun fuel => N.task.eval limit fuel)
    N.machine

end Moment

open Eval in
theorem Enters.leads {limit : Nat} {M N : Moment} (h : Enters limit M N) : M.Leads limit N := by
  have hall := fun fuel => longer limit (Nat.le_refl fuel)
  cases h with
  | operand hsubject hoperands hbefore => exact leads_operand hsubject hoperands hbefore
  | call fuel hframe harguments hcallee =>
    refine leads_callee hframe harguments (.next 0 (fun _ _ => rfl) ?_)
    simp only [hcallee, Option.getD_some]
    exact .refl _ _
  | native fuel hframe harguments hcallee =>
    refine leads_callee hframe harguments (.next 0 (fun _ _ => rfl) ?_)
    simp only [hcallee, Option.getD_some]
    exact .refl _ _
  | activation hcheck hbind =>
    refine Leads.to_stmts (.succ (.next 0 (fun _ _ => hcheck) (.inChild ?_)))
    exact .next 0 (fun _ _ => hbind) (.asCall (.refl _ _))
  | @part scope s e m hoperand =>
    have hoptional : ∀ {value}, value = some e → Leads (fun fuel => optional limit fuel scope value) m
        (fun fuel => expr limit fuel scope e) m := by
      rintro value rfl
      exact .succ (.refl _ _)
    refine Leads.of_stmt ?_
    cases s with
    | declare name init _ =>
      exact .first (hoptional hoperand) fun _ v => (prolonged_declare scope name v).retains
    | branch condition thenBranch elseBranch _ =>
      obtain rfl := Option.some.inj hoperand
      refine .first (.refl _ _) fun fuel v => ?_
      split
      · exact ((hall fuel).stmt scope thenBranch).retains
      · cases elseBranch with
        | none => exact retains_pure ()
        | some other => exact ((hall fuel).stmt scope other).retains
    | loop condition body _ =>
      obtain rfl := Option.some.inj hoperand
      refine .succ (.first (.refl _ _) fun fuel v => ?_)
      split
      · exact (((hall fuel).stmt scope body).repeating ((hall fuel).loop scope condition body)).retains
      · exact retains_pure ()
    | transfer kind value place =>
      exact .first (hoptional hoperand) fun _ v => (prolonged_signal _).retains
    | expression value _ =>
      obtain rfl := Option.some.inj hoperand
      exact .first (.refl _ _) fun _ _ => retains_pure ()
    | _ => exact absurd hoperand (by simp [Stmt.operand?])
  | @block scope body _ m =>
    have hbody : Leads (fun fuel => inChild scope fun frame => stmts limit fuel frame body) m
      (fun fuel => stmts limit fuel m.store.frames.size body) (m.below scope) := .inChild (.refl _ _)
    exact Leads.of_stmt (.to_stmts hbody)
  | @branch _ _ _ elseBranch _ _ v _ chosen fuel hcondition hchosen =>
    refine Leads.of_stmt (.to_stmt (.next fuel (fun fuel' => expr_eq_done hcondition) ?_))
    split at hchosen
    · rename_i htruth
      obtain rfl := Option.some.inj hchosen
      simp only [if_pos htruth]
      exact .refl _ _
    · rename_i htruth
      subst hchosen
      simp only [if_neg htruth]
      exact .refl _ _
  | @pass _ condition body _ _ _ _ fuel hcondition htruth =>
    refine Leads.of_stmt (.to_stmt (leads_loop hcondition htruth ?_))
    exact .repeating (.refl _ _) fun fuel => ((hall fuel).loop _ condition body).retains
  | @again scope condition body _ _ _ _ _ fuel hcondition htruth hbody =>
    refine Leads.of_stmt (.to_stmt (leads_loop hcondition htruth ?_))
    refine .of_succ (.again fuel (fun fuel' hfuel => ?_) (.refl _ _))
    have hsame := ((longer limit hfuel).stmt scope body)
    rcases hbody with hbody | ⟨place, hbody⟩
    · exact Or.inl (hsame.eq hbody fun _ => by simp)
    · exact Or.inr ⟨place, hsame.eq hbody fun _ => by simp⟩
  | @attempt scope body _ param handler _ _ _ =>
    refine Leads.of_stmt (.to_stmts (.catching (.inChild (.refl _ _)) ?_))
    refine fun fuel payload => Retains.inChild fun frame => ?_
    refine Retains.bind ?_ fun _ => ((hall fuel).stmts frame handler).retains
    exact Keeps.retains fun _ h => keeps_declareThrown h (Nat.zero_le frame) param trivial
  | @handler scope body _ param handler _ _ m payload place m' _ fuel hthrown hparam =>
    have hbody : ∀ fuel', fuel ≤ fuel' → inChild scope (fun frame => stmts limit fuel' frame body) m =
        .signalled (.transfer .throw payload place) m' := fun fuel' hfuel =>
      (Prolonged.inChild fun frame => (longer limit hfuel).stmts frame body).eq hthrown fun _ => by simp
    refine Leads.of_stmt (.to_stmts (.handling fuel hbody (.inChild ?_)))
    exact .next 0 (fun _ _ => hparam) (.refl _ _)
  | @first scope s rest m =>
    refine Leads.of_stmts (.to_stmt (.first (.refl _ _) fun fuel _ => ?_))
    exact ((hall fuel).stmts scope rest).retains
  | @rest scope s rest m m' fuel hfirst =>
    have hdone : ∀ fuel', fuel ≤ fuel' → stmt limit fuel' scope s m = .done () m' := fun fuel' hfuel =>
      ((longer limit hfuel).stmt scope s).eq hfirst fun _ => by simp
    exact Leads.of_stmts (.to_stmts (.next fuel hdone (.refl _ _)))

/-- With enough fuel a run comes to every moment in it. -/
theorem Moment.Reaches.leads {limit : Nat} {M N : Moment} (h : M.Reaches limit N) :
    M.Leads limit N := by
  induction h with
  | refl => exact .refl _ _
  | tail _ hlast ih => exact ih.trans hlast.leads

/-! Ends -/

theorem Outcome.Prolonged.retains {α : Type} {first second : Outcome α} (h : first.Prolonged second) :
    first.machine.store.Retains second.machine.store := by
  cases h with
  | same => exact .refl _
  | further hn => exact hn

theorem Task.prolonged (limit : Nat) {fuel fuel' : Nat} (h : fuel ≤ fuel') (task : Task) :
    (task.eval limit fuel).Prolonged (task.eval limit fuel') := by
  have hall := Eval.longer limit h
  cases task with
  | expr scope e => exact hall.expr scope e
  | call f arguments place => exact hall.call f arguments place
  | native f arguments place =>
    exact Eval.prolonged_of_keeps fun _ h => Eval.keeps_callNative h f (fun _ _ => trivial) place
  | stmt scope s => exact (hall.stmt scope s).bind fun _ => Eval.prolonged_pure _
  | stmts scope body => exact (hall.stmts scope body).bind fun _ => Eval.prolonged_pure _

/-- A run that is long enough has, at its end, what there was at a moment and what there was when the
evaluation that begins then had ended or had run out of its fuel. -/
theorem Moment.Reaches.retains {limit : Nat} {M N : Moment} (h : M.Reaches limit N) (fuel : Nat) :
    ∃ enough, ∀ fuel', enough ≤ fuel' →
      N.machine.store.Retains (M.task.eval limit fuel' M.machine).machine.store ∧
      (N.task.eval limit fuel N.machine).machine.store.Retains
        (M.task.eval limit fuel' M.machine).machine.store := by
  obtain ⟨enough, hway⟩ := h.leads fuel
  refine ⟨enough, fun fuel' hfuel => ?_⟩
  obtain ⟨later, hlater, hretains⟩ := hway fuel' hfuel
  have hend := N.task.prolonged limit hlater
  exact ⟨(hend.retains N.machine).trans hretains, (hend.outcome N.machine).retains.trans hretains⟩

namespace Eval

theorem prolonged_script (limit : Nat) {fuel fuel' : Nat} (h : fuel ≤ fuel') (scope : FrameId) (body : List Stmt) :
    ∀ last, (script limit fuel scope last body).Prolonged (script limit fuel' scope last body) := by
  have hall := longer limit h
  induction body with
  | nil => exact fun last => prolonged_pure last
  | cons s rest ih =>
    intro last
    cases s with
    | expression e _ => exact (hall.expr scope e).bind fun v => ih v
    | _ => exact (hall.stmt scope _).bind fun _ => ih .null

/-- The statements of a script, run in turn, leave what the script leaves. -/
theorem prolonged_stmts (limit : Nat) {fuel fuel' : Nat} (h : fuel ≤ fuel') (scope : FrameId)
    (body : List Stmt) :
    ∀ last, (do stmts limit fuel scope body; Pure.pure Value.null : Eval Value).Prolonged
      (do let _ ← script limit fuel' scope last body; Pure.pure Value.null) := by
  have hend : ∀ body last,
      (do let _ ← script limit fuel' scope last body; Pure.pure Value.null : Eval Value).Retains :=
    fun body last => ((prolonged_script limit (Nat.le_refl fuel') scope body last).retains).bind
      fun _ => retains_pure _
  induction body generalizing fuel with
  | nil =>
    intro last
    cases fuel with
    | zero => exact prolonged_exhausted (hend [] last)
    | succ fuel => exact prolonged_pure _
  | cons s rest ih =>
    intro last
    cases fuel with
    | zero => exact prolonged_exhausted (hend (s :: rest) last)
    | succ fuel =>
      have hless := Nat.le_of_succ_le h
      change Prolonged ((stmt limit fuel scope s >>= fun _ => stmts limit fuel scope rest) >>= _) _
      rw [bind_assoc]
      cases s with
      | expression e span =>
        change Prolonged _ ((expr limit fuel' scope e >>= fun v => script limit fuel' scope v rest) >>= _)
        rw [bind_assoc]
        cases fuel with
        | zero =>
          exact prolonged_exhausted ((retains_expr fuel' scope e).bind fun v => hend rest v)
        | succ fuel =>
          change Prolonged ((expr limit fuel scope e >>= fun _ => Pure.pure ()) >>= _) _
          rw [bind_assoc]
          exact ((longer limit (Nat.le_of_succ_le hless)).expr scope e).bind fun v => ih hless v
      | _ =>
        change Prolonged _ ((stmt limit fuel' scope _ >>= fun _ => script limit fuel' scope .null rest) >>= _)
        rw [bind_assoc]
        exact ((longer limit hless).stmt scope _).bind fun _ => ih hless .null

end Eval

namespace Machine

variable {m n : Machine} {job : Job}

theorem ne_exhausted_of_conclude {outcome : Outcome Value} (h : (conclude outcome).1 ≠ .exhausted)
    (n : Machine) : outcome ≠ .exhausted n := by
  rintro rfl
  exact h rfl

/-- What is there in some state of a run is there when a run that is long enough is cut short. -/
theorem Visits.exists_retains (h : m.Visits job n) :
    ∃ enough, ∀ fuel, enough ≤ fuel →
      n.store.Retains ((Task.stmts job.layers.bindings job.program.body).eval job.limit fuel
        ((m.equipped job).begin job.layers).2).machine.store := by
  cases h with
  | beginning hM =>
    obtain ⟨enough, hretains⟩ := hM.retains 0
    exact ⟨enough, fun fuel hfuel => (hretains fuel hfuel).1⟩
  | ending hM fuel =>
    obtain ⟨enough, hretains⟩ := hM.retains fuel
    exact ⟨enough, fun fuel' hfuel => (hretains fuel' hfuel).2⟩

/-- Two states of a run have what they have at the same time. -/
theorem Visits.common {n' : Machine} (h : m.Visits job n) (h' : m.Visits job n') :
    ∃ σ, n.store.Retains σ ∧ n'.store.Retains σ := by
  obtain ⟨enough, hretains⟩ := h.exists_retains
  obtain ⟨enough', hretains'⟩ := h'.exists_retains
  exact ⟨_, hretains _ (Nat.le_max_left enough enough'), hretains' _ (Nat.le_max_right _ _)⟩

theorem store_perform (m : Machine) (job : Job) :
    (m.perform job).2.store = (m.equipped job).unlink job.layers
      (Eval.script job.limit job.fuel job.layers.bindings .null job.program.body
        ((m.equipped job).begin job.layers).2).machine.store := by
  unfold perform
  rw [run_eq]
  dsimp only
  rw [machine_conclude]

theorem retains_perform (m : Machine) (job : Job) : m.store.Retains (m.perform job).2.store := by
  have hscript := (Eval.prolonged_script job.limit (Nat.le_refl job.fuel) job.layers.bindings
    job.program.body .null).retains ((m.equipped job).begin job.layers).2
  rw [store_perform]
  refine ((Store.Retains.of_cells ?_).trans hscript).trans (.of_cells (cells_unlink ..))
  exact cells_begin job.layers (m.equipped job)

theorem retains_performAll (m : Machine) (jobs : List Job) :
    m.store.Retains (m.performAll jobs).store := by
  induction jobs generalizing m with
  | nil => exact .refl m.store
  | cons job rest ih => exact (m.retains_perform job).trans (ih _)

/-- A run that does not run out of fuel leaves what was there in any state of it. -/
theorem Visits.retains_perform (h : m.Visits job n) (hends : (m.perform job).1 ≠ .exhausted) :
    n.store.Retains (m.perform job).2.store := by
  obtain ⟨enough, hretains⟩ := h.exists_retains
  have hfuel : job.fuel ≤ max enough job.fuel := Nat.le_max_right _ _
  have hends : ∀ k, Eval.script job.limit job.fuel job.layers.bindings .null job.program.body
      ((m.equipped job).begin job.layers).2 ≠ .exhausted k := ne_exhausted_of_conclude hends
  have hsame := (Eval.prolonged_script job.limit hfuel job.layers.bindings job.program.body .null).eq rfl hends
  have hstmts := ((Eval.prolonged_stmts job.limit (Nat.le_refl (max enough job.fuel))
    job.layers.bindings job.program.body .null).outcome ((m.equipped job).begin job.layers).2).retains
  have hdiscarded : ∀ (x : Eval Value) (k : Machine),
      ((do let _ ← x; pure Value.null : Eval Value) k).machine = (x k).machine := by
    intro x k
    rw [Eval.bind_apply]
    cases x k <;> rfl
  rw [hdiscarded, hsame] at hstmts
  rw [store_perform]
  exact ((hretains _ (Nat.le_max_left _ _)).trans hstmts).trans (.of_cells (cells_unlink ..))

end Machine

end ScriptEngine
