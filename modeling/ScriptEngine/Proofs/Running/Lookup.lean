import Mathlib.Data.Fintype.Card
import ScriptEngine.Proofs.Running.Frames

/-!
How far a name is looked for. The way up to the first frame that has a name passes no frame twice, so
it is no longer than there are frames. What a name means depends only on the names that the frames
have and on their parents.
-/
namespace ScriptEngine.Store

variable {σ σ' : Store} {id frame : FrameId} {name : String}

/-- So many steps up from a frame. -/
def ancestor? (σ : Store) : Nat → FrameId → Option FrameId
  | 0, id => some id
  | n + 1, id => (σ.parent? id).bind (σ.ancestor? n)

theorem ancestor?_add (k n : Nat) (id : FrameId) :
    σ.ancestor? (k + n) id = (σ.ancestor? k id).bind (σ.ancestor? n) := by
  induction k generalizing id with
  | zero => rw [Nat.zero_add, ancestor?, Option.bind_some]
  | succ k ih =>
    rw [Nat.succ_add, ancestor?, ancestor?, Option.bind_assoc]
    exact congrArg (σ.parent? id).bind (funext ih)

theorem isAlive_of_hasLocal (h : σ.hasLocal id name) : σ.isAlive id := by
  obtain ⟨v, hv⟩ := Option.isSome_iff_exists.mp h
  exact isAlive_of_getLocal? hv

/-- So many steps up is the first frame that has the name. -/
structure FindsAt (σ : Store) (name : String) (id : FrameId) (n : Nat) (frame : FrameId) : Prop where
  at_ : σ.ancestor? n id = some frame
  has : σ.hasLocal frame name
  first : ∀ k < n, ∀ other, σ.ancestor? k id = some other → σ.hasLocal other name = false

theorem resolveWithin_eq_some_iff {count : Nat} :
    σ.resolveWithin name count id = some frame ↔ ∃ n < count, σ.FindsAt name id n frame := by
  fun_induction resolveWithin σ name count id with
  | case1 => simp
  | case2 count id hgone =>
    refine ⟨fun h => absurd h (by simp), ?_⟩
    rintro ⟨n, -, h⟩
    have halive : σ.isAlive id := by
      cases n with
      | zero => exact (Option.some.inj h.at_) ▸ isAlive_of_hasLocal h.has
      | succ n =>
        obtain ⟨parent, hparent, -⟩ := Option.bind_eq_some_iff.mp h.at_
        exact isAlive_of_parent? hparent
    rw [isAlive, hgone] at halive
    exact absurd halive (by simp)
  | case3 count id f hf hhas =>
    have hhas : σ.hasLocal id name := by
      rw [hasLocal, bindings, hf]
      exact hhas
    constructor
    · intro h
      obtain rfl := Option.some.inj h
      exact ⟨0, Nat.succ_pos _, rfl, hhas, fun k hk => absurd hk (Nat.not_lt_zero k)⟩
    · rintro ⟨n, -, h⟩
      cases n with
      | zero => exact h.at_
      | succ n => exact absurd (h.first 0 (Nat.succ_pos n) id rfl) (by simp [hhas])
  | case4 count id f hf hhas hparent =>
    refine ⟨fun h => absurd h (by simp), ?_⟩
    rintro ⟨n, -, h⟩
    cases n with
    | zero =>
      obtain rfl := Option.some.inj h.at_
      have := h.has
      rw [hasLocal, bindings, hf] at this
      exact absurd this hhas
    | succ n =>
      obtain ⟨parent, hparent', -⟩ := Option.bind_eq_some_iff.mp h.at_
      rw [Store.parent?, hf] at hparent'
      exact absurd (hparent.symm.trans hparent') (by simp)
  | case5 count id f hf hhas parent hparent ih =>
    have hup : σ.parent? id = some parent := by
      rw [Store.parent?, hf]
      exact hparent
    have hhas : σ.hasLocal id name = false := by
      rw [hasLocal, bindings, hf]
      simpa using hhas
    rw [ih]
    constructor
    · rintro ⟨n, hn, h⟩
      refine ⟨n + 1, Nat.succ_lt_succ hn, ?_, h.has, fun k hk other hother => ?_⟩
      · rw [ancestor?, hup]
        exact h.at_
      · cases k with
        | zero =>
          obtain rfl := Option.some.inj hother
          exact hhas
        | succ k =>
          rw [ancestor?, hup] at hother
          exact h.first k (Nat.lt_of_succ_lt_succ hk) other hother
    · rintro ⟨n, hn, h⟩
      cases n with
      | zero =>
        obtain rfl := Option.some.inj h.at_
        exact absurd h.has (by simp [hhas])
      | succ n =>
        have hat := h.at_
        rw [ancestor?, hup] at hat
        refine ⟨n, Nat.lt_of_succ_lt_succ hn, hat, h.has, fun k hk other hother => ?_⟩
        refine h.first (k + 1) (Nat.succ_lt_succ hk) other ?_
        rw [ancestor?, hup]
        exact hother

/-- No frame is met twice on the way to the first one with the name. -/
theorem FindsAt.lt_size {n : Nat} (h : σ.FindsAt name id n frame) : n < σ.frames.size := by
  have hstep : ∀ k ≤ n, ∃ other, σ.ancestor? k id = some other ∧
      σ.ancestor? (n - k) other = some frame := by
    intro k hk
    have hat := h.at_
    rw [← Nat.add_sub_cancel' hk, ancestor?_add] at hat
    exact Option.bind_eq_some_iff.mp hat
  choose! up hup hrest using hstep
  have halive : ∀ k ≤ n, σ.isAlive (up k) := by
    intro k hk
    cases hleft : n - k with
    | zero =>
      have hat := hrest k hk
      rw [hleft] at hat
      exact (Option.some.inj hat) ▸ isAlive_of_hasLocal h.has
    | succ left =>
      have hat := hrest k hk
      rw [hleft] at hat
      obtain ⟨parent, hparent, -⟩ := Option.bind_eq_some_iff.mp hat
      exact isAlive_of_parent? hparent
  -- a frame that is met again would lead to the name in fewer steps
  have hapart : ∀ j k, j < k → k ≤ n → up j ≠ up k := by
    intro j k hjk hk heq
    have hshort : σ.ancestor? (j + (n - k)) id = some frame := by
      rw [ancestor?_add, hup j (Nat.le_trans (Nat.le_of_lt hjk) hk), Option.bind_some, heq]
      exact hrest k hk
    have hless : j + (n - k) < n := by omega
    exact absurd (h.first _ hless frame hshort) (by simp [h.has])
  let place : Fin (n + 1) → Fin σ.frames.size := fun k =>
    ⟨up k, lt_size_of_isAlive (halive k (Nat.le_of_lt_succ k.isLt))⟩
  have hplace : Function.Injective place := by
    intro j k hjk
    have heq : up j = up k := congrArg Fin.val hjk
    rcases Nat.lt_trichotomy j k with hlt | hsame | hlt
    · exact absurd heq (hapart j k hlt (Nat.le_of_lt_succ k.isLt))
    · exact Fin.ext hsame
    · exact absurd heq.symm (hapart k j hlt (Nat.le_of_lt_succ j.isLt))
  have hcard := Fintype.card_le_of_injective place hplace
  rw [Fintype.card_fin, Fintype.card_fin] at hcard
  exact hcard

/-- It makes no difference how much further one looks. -/
theorem resolveWithin_eq_resolve {count : Nat} (h : σ.frames.size ≤ count) :
    σ.resolveWithin name count id = σ.resolve id name := by
  ext frame
  rw [resolve, resolveWithin_eq_some_iff, resolveWithin_eq_some_iff]
  constructor
  · rintro ⟨n, -, hfinds⟩
    exact ⟨n, hfinds.lt_size, hfinds⟩
  · rintro ⟨n, hn, hfinds⟩
    exact ⟨n, Nat.lt_of_lt_of_le hn h, hfinds⟩

theorem resolve_congr
    (hlinks : ∀ id, (σ'.frame? id).map Frame.links = (σ.frame? id).map Frame.links)
    (hnames : ∀ id, σ'.localNames id = σ.localNames id) (hsize : σ.frames.size ≤ σ'.frames.size)
    (id : FrameId) (name : String) : σ'.resolve id name = σ.resolve id name := by
  have hparent : ∀ id, σ'.parent? id = σ.parent? id := fun id => parent?_congr (hlinks id)
  have hhas : ∀ id, σ'.hasLocal id name = σ.hasLocal id name := by
    intro id
    rw [Bool.eq_iff_iff, hasLocal, hasLocal, Entries.has_iff, Entries.has_iff]
    exact Iff.of_eq (congrArg (name ∈ ·) (hnames id))
  have hancestor : ∀ n id, σ'.ancestor? n id = σ.ancestor? n id := by
    intro n
    induction n with
    | zero => exact fun _ => rfl
    | succ n ih =>
      intro id
      rw [ancestor?, ancestor?, hparent, funext ih]
  have hfinds : ∀ n frame, σ'.FindsAt name id n frame ↔ σ.FindsAt name id n frame := by
    intro n frame
    constructor
    · rintro ⟨hat, hname, hfirst⟩
      simp only [hancestor, hhas] at hat hname hfirst
      exact ⟨hat, hname, hfirst⟩
    · rintro ⟨hat, hname, hfirst⟩
      simp only [← hancestor, ← hhas] at hat hname hfirst
      exact ⟨hat, hname, hfirst⟩
  rw [← resolveWithin_eq_resolve (σ := σ) hsize, resolve]
  ext frame
  rw [resolveWithin_eq_some_iff, resolveWithin_eq_some_iff]
  simp only [hfinds]

end ScriptEngine.Store
