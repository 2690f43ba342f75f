import ScriptEngine.Proofs.Running.Writers

/-!
Runs with a writer that refuses. A run goes as it goes with a writer that takes everything, up to the
`print` of which a piece is refused. There it ends: nothing around a call catches the failure of a host
function or runs anything after it.
-/
namespace ScriptEngine

namespace Eval

variable {α β : Type} {room : Capacity} {base : List String} {limit fuel : Nat} {At : Moment → Prop}
  {m : Machine}

/-! What is around them -/

/-- What runs after a part, when the part does not fail, serves when it does so from the end of the
part. -/
theorem Serves.after {x : Eval α} {y : Eval β} (h : Serves room base limit At x m)
    (hfailed : ∀ n fault place k, x n = .failed fault place k → y n = .failed fault place k)
    (hnext : (x m).machine.console.capacity = .unlimited → (x m).machine.Continues (y m).machine ∧
      ∀ m' n', (x m).machine.Served room base n' → x m' = ((x m).mapMachine fun _ => n') →
        Outcome.Served room base limit At (x m).machine.store.frames.size (y m) (y m')) :
    Serves room base limit At y m := by
  intro hunlimited
  obtain ⟨hgo, hserved⟩ := h hunlimited
  obtain ⟨hgo', hserved'⟩ := hnext hgo.capacity
  refine ⟨hgo.trans hgo', fun m' hm => ?_⟩
  have hx := hserved m' hm
  generalize hfirst : x m = first at hx
  generalize hsecond : x m' = second at hx
  cases hx with
  | same hn =>
    subst hfirst
    exact (hserved' m' _ hn hsecond).within hgo.size
  | stopped hN hrefused hwritten =>
    subst hfirst
    rw [hfailed m' _ _ _ hsecond]
    exact .stopped hN hrefused (hwritten.trans hgo'.written)

theorem Serves.bind {x : Eval α} {f : α → Eval β} (h : Serves room base limit At x m)
    (hf : ∀ a n, x m = .done a n → Serves room base limit At (f a) n) :
    Serves room base limit At (x >>= f) m := by
  refine h.after (fun n fault place k hx => ?_) fun hend => ?_
  · rw [bind_apply, hx]
  · rw [bind_apply]
    cases hfirst : x m with
    | done a n =>
      rw [hfirst] at hend
      obtain ⟨hgo, hserved⟩ := hf a n hfirst hend
      refine ⟨hgo, fun m' n' hn hm' => ?_⟩
      rw [bind_apply, hm']
      exact hserved n' hn
    | _ =>
      rw [hfirst] at hend
      refine ⟨.refl hend, fun m' n' hn hm' => ?_⟩
      rw [bind_apply, hm']
      exact .same hn

theorem serves_catching {body : Eval Unit} {handler : Value → Eval Unit}
    (h : Serves room base limit At body m)
    (hhandler : ∀ payload place n, body m = .signalled (.transfer .throw payload place) n →
      Serves room base limit At (handler payload) n) :
    Serves room base limit At (catching body handler) m := by
  refine h.after (fun n fault place k hx => ?_) fun hend => ?_
  · unfold catching
    rw [hx]
  · unfold catching
    cases hfirst : body m with
    | signalled s n =>
      rw [hfirst] at hend
      cases s with
      | jump j at_ =>
        refine ⟨.refl hend, fun m' n' hn hm' => ?_⟩
        rw [hm']
        exact .same hn
      | transfer kind v at_ =>
        cases kind with
        | throw =>
          obtain ⟨hgo, hserved⟩ := hhandler v at_ n hfirst hend
          refine ⟨hgo, fun m' n' hn hm' => ?_⟩
          rw [hm']
          exact hserved n' hn
        | _ =>
          refine ⟨.refl hend, fun m' n' hn hm' => ?_⟩
          rw [hm']
          exact .same hn
    | _ =>
      rw [hfirst] at hend
      refine ⟨.refl hend, fun m' n' hn hm' => ?_⟩
      rw [hm']
      exact .same hn

theorem serves_repeating {body again : Eval Unit} (h : Serves room base limit At body m)
    (hagain : ∀ n, (body m = .done () n ∨
      ∃ place, body m = .signalled (.jump .continue place) n) → Serves room base limit At again n) :
    Serves room base limit At (repeating body again) m := by
  refine h.after (fun n fault place k hx => ?_) fun hend => ?_
  · unfold repeating
    rw [hx]
  · unfold repeating
    cases hfirst : body m with
    | done a n =>
      rw [hfirst] at hend
      obtain ⟨hgo, hserved⟩ := hagain n (Or.inl hfirst) hend
      refine ⟨hgo, fun m' n' hn hm' => ?_⟩
      rw [hm']
      exact hserved n' hn
    | signalled s n =>
      rw [hfirst] at hend
      cases s with
      | jump j at_ =>
        cases j with
        | «continue» =>
          obtain ⟨hgo, hserved⟩ := hagain n (Or.inr ⟨at_, hfirst⟩) hend
          refine ⟨hgo, fun m' n' hn hm' => ?_⟩
          rw [hm']
          exact hserved n' hn
        | «break» =>
          refine ⟨.refl hend, fun m' n' hn hm' => ?_⟩
          rw [hm']
          exact .same hn
      | transfer kind v at_ =>
        refine ⟨.refl hend, fun m' n' hn hm' => ?_⟩
        rw [hm']
        exact .same hn
    | _ =>
      rw [hfirst] at hend
      refine ⟨.refl hend, fun m' n' hn hm' => ?_⟩
      rw [hm']
      exact .same hn

theorem serves_inChild {parent : FrameId} {body : FrameId → Eval α}
    (h : Serves room base limit At (body m.store.frames.size) (m.below parent)) :
    Serves room base limit At (inChild parent body) m := by
  intro hunlimited
  obtain ⟨hgo, hserved⟩ := h hunlimited
  have hsize : (m.below parent).store.frames.size = m.store.frames.size + 1 := Store.size_newChild ..
  have hchild : ∀ n : Machine, n.store.frames.size = m.store.frames.size →
      inChild parent body n = (body m.store.frames.size (n.below parent)).mapMachine
        fun k => { k with store := k.store.dropFrame m.store.frames.size } := by
    intro n hn
    rw [← hn]
    rfl
  rw [hchild m rfl]
  refine ⟨?_, fun m' hm => ?_⟩
  · rw [Outcome.machine_mapMachine]
    refine ⟨hgo.capacity, hgo.written, ?_⟩
    rw [Store.size_dropFrame]
    exact Nat.le_trans (Nat.le_of_lt (Nat.lt_of_lt_of_eq (Nat.lt_succ_self _) hsize.symm)) hgo.size
  · have hbody := hserved _ (hm.below parent)
    rw [hchild m' (by rw [hm.store])]
    generalize body m.store.frames.size (m.below parent) = first,
      body m.store.frames.size (m'.below parent) = second at hbody
    cases hbody with
    | same hn =>
      cases first with
      | _ => exact .same (hn.onStore (·.dropFrame _))
    | stopped hN hrefused hwritten =>
      have hless : m.store.frames.size ≤ (m.below parent).store.frames.size := by omega
      refine .stopped hN ((hrefused.within hless).onStore rfl rfl fun id hid => ?_) ?_
      · rw [Store.bindings_dropFrame, if_neg (Nat.ne_of_gt hid)]
      · rw [Outcome.machine_mapMachine]
        exact hwritten

theorem serves_asCall {place : Span} {body : Eval Unit}
    (h : Serves room base limit At body { m with depth := m.depth + 1 }) :
    Serves room base limit At (asCall place body) m := by
  intro hunlimited
  obtain ⟨hgo, hserved⟩ := h hunlimited
  unfold asCall
  refine ⟨?_, fun m' hm => ?_⟩
  · cases hend : body { m with depth := m.depth + 1 } with
    | signalled s n =>
      rw [hend] at hgo
      cases s with
      | jump j at_ => exact ⟨hgo.capacity, hgo.written, hgo.size⟩
      | transfer kind v at_ => cases kind <;> exact ⟨hgo.capacity, hgo.written, hgo.size⟩
    | _ =>
      rw [hend] at hgo
      exact ⟨hgo.capacity, hgo.written, hgo.size⟩
  · have hbody := hserved _ (hm.atDepth (· + 1))
    generalize body { m with depth := m.depth + 1 } = first,
      body { m' with depth := m'.depth + 1 } = second at hbody
    cases hbody with
    | same hn =>
      cases first with
      | signalled s n =>
        cases s with
        | jump j at_ => exact .same (hn.atDepth (· - 1))
        | transfer kind v at_ => cases kind <;> exact .same (hn.atDepth (· - 1))
      | _ => exact .same (hn.atDepth (· - 1))
    | stopped hN hrefused hwritten =>
      refine .stopped hN (hrefused.atDepth _) ?_
      cases first with
      | signalled s n =>
        cases s with
        | jump j at_ => exact hwritten
        | transfer kind v at_ => cases kind <;> exact hwritten
      | _ => exact hwritten

theorem serves_callNative {f : Native} {arguments : List Value} {place : Span}
    (hM : At ⟨.native f arguments place, m⟩) :
    Serves room base limit At (callNative f arguments place) m := by
  by_cases hf : f.action = .print
  · exact serves_print hf hM
  · exact (quiet_callNative hf arguments place).serves

/-- With another writer every evaluation comes to the same or is stopped by a `print`. -/
theorem composed_serves (hAt : Moment.Inward limit At) :
    Composed limit At fun x m => Serves room base limit At x m where
  inward := hAt
  exhausted := quiet_exhausted.serves
  signal s := (quiet_signal s).serves
  inspects h := h.quiet.serves
  adds h := (quiet_add h).serves
  assigned _ _ _ _ := (quiet_setLocal ..).serves
  adjusted _ _ _ _ := (quiet_setLocal ..).serves
  declared _ _ _ _ := (quiet_setLocal ..).serves
  passed _ _ _ _ := (quiet_setLocal ..).serves
  caught _ _ _ _ _ _ := (quiet_setLocal ..).serves
  admits _ := (quiet_checkCall ..).serves
  native := serves_callNative
  bind := Serves.bind
  inChild := serves_inChild
  asCall _ _ _ := serves_asCall
  catching := serves_catching
  repeating := serves_repeating

/-! Moments of the run -/

theorem Serves.of_done {x : Eval α} (h : Serves room base limit At x m) {m' n' : Machine} {a : α}
    (hm : m.Served room base m') (hx : x m' = .done a n') :
    ∃ n, x m = .done a n ∧ n.Served room base n' := by
  have hserved := (h hm.unlimited).2 m' hm
  rw [hx] at hserved
  exact hserved.of_done

theorem Serves.of_signalled {x : Eval α} (h : Serves room base limit At x m) {m' n' : Machine}
    {s : Signal} (hm : m.Served room base m') (hx : x m' = .signalled s n') :
    ∃ n, x m = .signalled s n ∧ n.Served room base n' := by
  have hserved := (h hm.unlimited).2 m' hm
  rw [hx] at hserved
  exact hserved.of_signalled

/-- What is said of evaluations that serve holds at all moments. -/
theorem serves_everywhere (room : Capacity) (base : List String) (limit : Nat) :
    Composed limit (fun _ => True) fun x m => Serves room base limit (fun _ => True) x m :=
  composed_serves fun _ _ _ _ => trivial

theorem Passes.served {scope : FrameId} {es : List Expr} {m' n' : Machine}
    (h : Passes limit scope es m' n') :
    ∀ {m}, m.Served room base m' → ∃ n, Passes limit scope es m n ∧ n.Served room base n' := by
  induction h with
  | nil => exact fun hm => ⟨_, .nil, hm⟩
  | cons fuel hfirst _ ih =>
    intro m hm
    have hexpr := ((serves_everywhere room base limit).holding fuel).expr
    obtain ⟨n, hfirst', hn⟩ := (hexpr _ _ m trivial).of_done hm hfirst
    obtain ⟨k, hrest, hk⟩ := ih hn
    exact ⟨k, .cons fuel hfirst' hrest, hk⟩

end Eval

/-- From a moment at which nothing was refused, the run comes to moments of the run whose writer takes
everything. -/
theorem Enters.served {room : Capacity} {base : List String} {limit : Nat} {task : Task}
    {m m' : Machine} {N' : Moment} (h : Enters limit ⟨task, m'⟩ N') (hm : m.Served room base m') :
    ∃ n, Enters limit ⟨task, m⟩ ⟨N'.task, n⟩ ∧ n.Served room base N'.machine := by
  have hrules := Eval.serves_everywhere room base limit
  have hall := hrules.holding
  have hturn : ∀ scope es m, Moment.InTurn limit (fun _ => True) scope es m :=
    fun _ _ _ _ _ _ _ _ _ => trivial
  have hstore := hm.store
  cases h with
  | operand hsubject hoperands hbefore =>
    obtain ⟨n, hbefore', hn⟩ := hbefore.served hm
    exact ⟨n, .operand (hstore ▸ hsubject) hoperands hbefore', hn⟩
  | call fuel hframe harguments hcallee =>
    obtain ⟨n, harguments', hn⟩ := ((hall fuel).exprs _ _ m (hturn _ _ _)).of_done hm harguments
    exact ⟨n, .call fuel (hstore ▸ hframe) harguments' (hn.store ▸ hcallee), hn⟩
  | native fuel hframe harguments hcallee =>
    obtain ⟨n, harguments', hn⟩ := ((hall fuel).exprs _ _ m (hturn _ _ _)).of_done hm harguments
    exact ⟨n, .native fuel (hstore ▸ hframe) harguments' (hn.store ▸ hcallee), hn⟩
  | @activation f _ place _ _ hcheck hbind =>
    have hadmits : Eval.Serves room base limit (fun _ => True) (Eval.checkCall limit f place) m :=
      (Eval.quiet_checkCall ..).serves
    obtain ⟨n, hcheck', -⟩ := hadmits.of_done hm hcheck
    obtain ⟨-, rfl⟩ := Eval.checkCall_eq_done hcheck'
    rw [hstore] at hbind ⊢
    have hset : ∀ name v k, Eval.Serves room base limit (fun _ => True)
        (Eval.setLocal n.store.frames.size name v) k :=
      fun _ _ _ => (Eval.quiet_setLocal ..).serves
    obtain ⟨k, hbind', hk⟩ := (hrules.bindParameters hset _ _ _).of_done (hm.below _) hbind
    exact ⟨_, .activation hcheck' hbind', hk.atDepth (· + 1)⟩
  | part hoperand => exact ⟨m, .part hoperand, hm⟩
  | block =>
    rw [hstore]
    exact ⟨_, .block, hm.below _⟩
  | branch fuel hcondition hchosen =>
    obtain ⟨n, hcondition', hn⟩ := ((hall fuel).expr _ _ m trivial).of_done hm hcondition
    exact ⟨n, .branch fuel hcondition' hchosen, hn⟩
  | pass fuel hcondition htruth =>
    obtain ⟨n, hcondition', hn⟩ := ((hall fuel).expr _ _ m trivial).of_done hm hcondition
    exact ⟨n, .pass fuel hcondition' htruth, hn⟩
  | again fuel hcondition htruth hbody =>
    obtain ⟨n, hcondition', hn⟩ := ((hall fuel).expr _ _ m trivial).of_done hm hcondition
    rcases hbody with hbody | ⟨place, hbody⟩
    · obtain ⟨k, hbody', hk⟩ := ((hall fuel).stmt _ _ n trivial).of_done hn hbody
      exact ⟨k, .again fuel hcondition' htruth (Or.inl hbody'), hk⟩
    · obtain ⟨k, hbody', hk⟩ := ((hall fuel).stmt _ _ n trivial).of_signalled hn hbody
      exact ⟨k, .again fuel hcondition' htruth (Or.inr ⟨place, hbody'⟩), hk⟩
  | attempt =>
    rw [hstore]
    exact ⟨_, .attempt, hm.below _⟩
  | @handler scope body _ _ _ _ _ _ payload _ _ _ fuel hthrown hparam =>
    have hbody : Eval.Serves room base limit (fun _ => True)
        (Eval.inChild scope fun frame => Eval.stmts limit fuel frame body) m :=
      hrules.inChild ((hall fuel).stmts _ body (m.below scope) trivial)
    obtain ⟨n, hthrown', hn⟩ := hbody.of_signalled hm hthrown
    rw [hn.store] at hparam ⊢
    have hset : ∀ name, Eval.Serves room base limit (fun _ => True)
        (Eval.setLocal n.store.frames.size name payload) (n.below scope) :=
      fun _ => (Eval.quiet_setLocal ..).serves
    obtain ⟨k, hparam', hk⟩ := (hrules.declareThrown hset).of_done (hn.below _) hparam
    exact ⟨k, .handler fuel hthrown' hparam', hk⟩
  | first => exact ⟨m, .first, hm⟩
  | rest fuel hfirst =>
    obtain ⟨n, hfirst', hn⟩ := ((hall fuel).stmt _ _ m trivial).of_done hm hfirst
    exact ⟨n, .rest fuel hfirst', hn⟩

theorem Moment.Reaches.served {room : Capacity} {base : List String} {limit : Nat} {task : Task}
    {m m' : Machine} {N' : Moment} (h : Moment.Reaches limit ⟨task, m'⟩ N')
    (hm : m.Served room base m') :
    ∃ n, Moment.Reaches limit ⟨task, m⟩ ⟨N'.task, n⟩ ∧ n.Served room base N'.machine := by
  induction h with
  | refl => exact ⟨m, .refl, hm⟩
  | tail _ hlast ih =>
    obtain ⟨n, hreaches, hn⟩ := ih
    obtain ⟨k, henters, hk⟩ := hlast.served hn
    exact ⟨k, hreaches.tail henters, hk⟩

/-- A writer for so many pieces refuses, for its own reason, the piece after those. -/
theorem Moment.Refused.pieces {base : List String} {limit size count : Nat} {N : Moment}
    {reason reason' : HostFault} {place : Span} {n : Machine} {pieces written : List String}
    (h : N.Refused (.pieces count reason) base limit size reason' place n)
    (hN : (N.task.eval limit 0 N.machine).machine.console.written <:+ written)
    (hwritten : written = pieces.reverse ++ base) :
    reason' = reason ∧ count < pieces.length ∧
      n.console.written = (pieces.take count).reverse ++ base := by
  obtain ⟨taken, hn, htaken⟩ := h.taken
  obtain ⟨piece, hpiece, hafter⟩ := h.refused
  obtain ⟨hlength, hleft⟩ := (Capacity.takeAll_pieces taken).mp htaken
  rw [hleft] at hpiece
  have hcount : count - taken.length = 0 ∧ reason' = reason := by
    cases hroom : count - taken.length with
    | zero =>
      rw [hroom] at hpiece
      exact ⟨rfl, (Except.error.inj hpiece).symm⟩
    | succ room =>
      rw [hroom] at hpiece
      exact absurd hpiece (by simp [Capacity.take])
  obtain ⟨more, hmore⟩ := hafter.trans hN
  rw [hwritten, hn, ← List.cons_append, ← List.append_assoc] at hmore
  have hpieces : pieces = taken ++ piece :: more.reverse := by
    have hreverse := congrArg List.reverse (List.append_cancel_right hmore)
    simpa using hreverse.symm
  have hlength' : taken.length = count := by omega
  refine ⟨hcount.2, ?_, ?_⟩
  · rw [hpieces, List.length_append, List.length_cons]
    omega
  · rw [hn, hpieces, List.take_left' hlength']

/-! Runs -/

namespace Machine

variable {room : Capacity} {base : List String} {m m' : Machine}

theorem served_withCapacity (room : Capacity) (m : Machine) :
    (m.withCapacity .unlimited).Served room m.console.written (m.withCapacity room) :=
  @Served.intro room m.console.written (m.withCapacity .unlimited) [] room rfl rfl rfl

theorem Served.begin (h : m.Served room base m') (layers : Layers) :
    (m.begin layers).2.Served room base (m'.begin layers).2 := by
  cases h with
  | intro hunlimited hwritten htaken => exact .intro hunlimited hwritten htaken

/-- The host gets the same, or the failure of the `print`. -/
theorem conclude_served {limit size : Nat} {At : Moment → Prop} {first second : Outcome Value}
    (h : Outcome.Served room base limit At size first second) :
    ((conclude second).1 = (conclude first).1 ∧
      (conclude first).2.Served room base (conclude second).2) ∨
    ∃ N reason place, At N ∧ N.Refused room base limit size reason place (conclude second).2 ∧
      (N.task.eval limit 0 N.machine).machine.console.written <:+
        (conclude first).2.console.written ∧
      (conclude second).1 = .error ((RuntimeFault.host reason).toError place) := by
  cases h with
  | same hn =>
    refine Or.inl ?_
    cases first with
    | signalled s n =>
      cases s with
      | jump j place => exact ⟨rfl, hn⟩
      | transfer kind v place =>
        cases kind with
        | throw =>
          refine ⟨?_, hn⟩
          exact congrArg (fun σ => Ending.error
            ((RuntimeFault.uncaughtThrow (v.text σ)).toError place)) hn.store
        | _ => exact ⟨rfl, hn⟩
    | _ => exact ⟨rfl, hn⟩
  | @stopped N reason place _ hN hrefused hwritten =>
    rw [machine_conclude first]
    exact Or.inr ⟨N, reason, place, hN, hrefused, hwritten, rfl⟩

/-- What a run does with a writer that has some room, beside the run with a writer that takes
everything. Either all that the run writes is taken and nothing else is different, or the run comes to a
`print` of which a piece is refused and ends there. -/
theorem run_withCapacity (room : Capacity) (limit fuel : Nat) (layers : Layers) (program : Program)
    (m : Machine) :
    let free := (m.withCapacity .unlimited).run limit fuel layers program
    let curbed := (m.withCapacity room).run limit fuel layers program
    m.console.written <:+ free.2.console.written ∧
      ((curbed.1 = free.1 ∧ free.2.Served room m.console.written curbed.2) ∨
      ∃ N reason place, ((m.withCapacity .unlimited).outset layers program).Reaches limit N ∧
        N.Refused room m.console.written limit m.store.frames.size reason place curbed.2 ∧
        (N.task.eval limit 0 N.machine).machine.console.written <:+ free.2.console.written ∧
        curbed.1 = .error ((RuntimeFault.host reason).toError place)) := by
  have hstart := (served_withCapacity room m).begin layers
  have hinward := Moment.inward_reaches limit ((m.withCapacity .unlimited).outset layers program)
  have hrules : Eval.Composed limit _ fun x n => Eval.Serves room m.console.written limit _ x n :=
    Eval.composed_serves hinward
  obtain ⟨hgo, hserved⟩ := hrules.script fuel layers.bindings program.body .null _ .refl
    hstart.unlimited
  have hscript := hserved _ hstart
  rw [run_eq, run_eq]
  dsimp only
  refine ⟨?_, ?_⟩
  · rw [machine_conclude]
    exact hgo.written
  · rcases conclude_served hscript with ⟨hending, hn⟩ |
      ⟨N, reason, place, hN, hrefused, hwritten, hending⟩
    · exact Or.inl ⟨hending, hn.onStore (m.unlink layers)⟩
    · have hsize : m.store.frames.size ≤
          ((m.withCapacity .unlimited).begin layers).2.store.frames.size :=
        Nat.le_trans (Nat.le_succ _) (Nat.le_of_eq (size_begin layers _).symm)
      refine Or.inr ⟨N, reason, place, hN, ?_, hwritten, hending⟩
      refine (hrefused.within hsize).onStore (cells_unlink ..) (nextIdentity_unlink ..) fun id hid => ?_
      rw [bindings_unlink]
      exact if_neg (Nat.ne_of_gt hid)

/-- A writer for so many pieces has taken what was written. -/
theorem Served.pieces {count : Nat} {reason : HostFault} {pieces : List String}
    (h : m.Served (.pieces count reason) base m') (hm : m.console.written = pieces.reverse ++ base) :
    pieces.length ≤ count ∧ m' = m.withCapacity (.pieces (count - pieces.length) reason) := by
  cases h with
  | @intro taken left _ hwritten htaken =>
    have hsame : pieces = taken :=
      List.reverse_injective (List.append_cancel_right (hm.symm.trans hwritten))
    obtain ⟨hlength, rfl⟩ := (Capacity.takeAll_pieces taken).mp htaken
    subst hsame
    exact ⟨hlength, rfl⟩

/-- A writer takes `k` pieces and refuses the next one. A run that writes no more is the same as with a
writer that takes everything. Any other run writes the first `k` pieces and ends, with the reason of the
writer, at the `print` that wrote the piece after them, all else being as it was at that moment; every
moment of it is one of the run whose writer takes everything, with those pieces at most written. -/
theorem run_failing_writer (limit fuel k : Nat) (reason : HostFault) (layers : Layers)
    (program : Program) (m : Machine) :
    let room := Capacity.pieces k reason
    let free := m.withCapacity .unlimited
    let curbed := m.withCapacity room
    let ended := free.run limit fuel layers program
    let stopped := curbed.run limit fuel layers program
    ∃ pieces : List String,
      ended.2.console.written = pieces.reverse ++ m.console.written ∧
      stopped.2.console.written = (pieces.take k).reverse ++ m.console.written ∧
      ended.2.console.output = stopped.2.console.output ++ String.join (pieces.drop k) ∧
      (pieces.length ≤ k →
        stopped = (ended.1, ended.2.withCapacity (.pieces (k - pieces.length) reason))) ∧
      (k < pieces.length → ∃ N place, (free.outset layers program).Reaches limit N ∧
        N.Refused room m.console.written limit m.store.frames.size reason place stopped.2 ∧
        stopped.1 = .error (.located .hostIo reason.message place)) ∧
      ∀ N', (curbed.outset layers program).Reaches limit N' →
        ∃ N, (free.outset layers program).Reaches limit N ∧ N.task = N'.task ∧
          N.machine.Served room m.console.written N'.machine := by
  intro room free curbed ended stopped
  have hmoments : ∀ N', (curbed.outset layers program).Reaches limit N' →
      ∃ N, (free.outset layers program).Reaches limit N ∧ N.task = N'.task ∧
        N.machine.Served room m.console.written N'.machine := by
    intro N' hN'
    obtain ⟨n, hn, hserved⟩ := hN'.served ((served_withCapacity room m).begin layers)
    exact ⟨⟨N'.task, n⟩, hn, rfl, hserved⟩
  obtain ⟨⟨written, hwritten⟩, hend⟩ := run_withCapacity room limit fuel layers program m
  have hpieces : ended.2.console.written = written.reverse.reverse ++ m.console.written := by
    rw [List.reverse_reverse]
    exact hwritten.symm
  generalize written.reverse = pieces at hpieces
  rcases hend with ⟨hending, hserved⟩ | ⟨N, reason', place, hN, hrefused, hlater, hending⟩
  · obtain ⟨hlength, hmachine⟩ := hserved.pieces hpieces
    have hstopped : stopped.2.console.written = (pieces.take k).reverse ++ m.console.written := by
      rw [List.take_of_length_le hlength, ← hpieces]
      exact congrArg (·.console.written) hmachine
    refine ⟨pieces, hpieces, hstopped, ?_, fun _ => Prod.ext hending hmachine,
      fun hmore => absurd hlength (Nat.not_le_of_lt hmore), hmoments⟩
    exact Console.output_of_written hstopped (by rw [List.take_append_drop, hpieces])
  · obtain ⟨rfl, hlength, hstopped⟩ := hrefused.pieces hlater hpieces
    refine ⟨pieces, hpieces, hstopped, ?_, fun hless => absurd hless (Nat.not_le_of_lt hlength),
      fun _ => ⟨N, place, hN, hrefused, hending⟩, hmoments⟩
    exact Console.output_of_written hstopped (by rw [List.take_append_drop, hpieces])

end Machine

end ScriptEngine
