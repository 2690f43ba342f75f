import ScriptEngine.Proofs.Reading.Passage

/-!
Readers on tokens that are known. A reader that is given what it looks for takes it and has nothing
to complain about. The statements leave it open whether the fuel suffices; that it does is known from
the passages.
-/
namespace ScriptEngine

/-- These tokens are ahead, so many levels are open, and there was nothing to complain about. -/
structure Cursor.Before (c : Cursor) (depth : Nat) (ahead : List TokenKind) : Prop where
  kinds : c.kinds = ahead
  depth : c.depth = depth
  clean : c.complaints = []

namespace Cursor.Before

variable {c : Cursor} {n : Nat} {k : TokenKind} {ks : List TokenKind}

theorem kind (h : c.Before n (k :: ks)) : c.kind = k := by
  rw [kind_eq, h.kinds, List.headD_cons]

theorem advance (h : c.Before n (k :: ks)) : c.advance.Before n ks := by
  obtain ⟨rest, previous, complaints, depth⟩ := c
  obtain ⟨hkinds, hdepth, hclean⟩ := h
  cases rest with
  | nil => simp [Cursor.kinds] at hkinds
  | cons t rest =>
    obtain ⟨rfl, rfl⟩ : t.kind = k ∧ rest.map Token.kind = ks := by
      simpa [Cursor.kinds] using hkinds
    exact ⟨rfl, hdepth, hclean⟩

theorem isFull (h : c.Before n ks) : c.isFull = false := by
  unfold Cursor.isFull
  rw [h.clean]
  rfl

end Cursor.Before

namespace Reader

open Cursor

variable {α β : Type} {c : Cursor} {n : Nat} {k : TokenKind} {ks : List TokenKind}

/-- The reader does not fail, and what it gives is so, unless the fuel runs out. -/
def Gives (r : Reader α) (c : Cursor) (Q : α → Cursor → Prop) : Prop :=
  (r c).Meets Q (fun _ => False) True

theorem Gives.mono {r : Reader α} {P Q : α → Cursor → Prop} (h : r.Gives c P)
    (hPQ : ∀ a d, P a d → Q a d) : r.Gives c Q :=
  Reading.Meets.mono h hPQ (fun _ h => h) (fun h => h)

theorem Gives.bind {r : Reader α} {f : α → Reader β} {P : α → Cursor → Prop}
    {Q : β → Cursor → Prop} (h : r.Gives c P) (hf : ∀ a d, P a d → (f a).Gives d Q) :
    (r >>= f).Gives c Q :=
  Reading.Meets.bind h hf (fun _ h => h) (fun h => h)

section Rules

variable {Q : β → Cursor → Prop}

theorem gives_kind {f : TokenKind → Reader β} (hc : c.Before n (k :: ks))
    (hf : (f k).Gives c Q) : (kind >>= f).Gives c Q := by
  rw [← hc.kind] at hf
  exact hf

theorem gives_spanFrom {start : Span} {f : Span → Reader β} (hf : ∀ span, (f span).Gives c Q) :
    (spanFrom start >>= f).Gives c Q :=
  hf _

theorem gives_next {f : Span → Reader β} (hc : c.Before n (k :: ks))
    (hf : ∀ span d, d.Before n ks → (f span).Gives d Q) : (next >>= f).Gives c Q :=
  hf c.here c.advance hc.advance

theorem gives_expect {wanted : TokenKind} {f : Span → Reader β} (hc : c.Before n (wanted :: ks))
    (hf : ∀ span d, d.Before n ks → (f span).Gives d Q) : (expect wanted >>= f).Gives c Q := by
  unfold Gives
  rw [bind_apply, expect, if_pos hc.kind]
  exact hf c.here c.advance hc.advance

theorem gives_name {text : String} {f : Name → Reader β} (hc : c.Before n (.name text :: ks))
    (hf : ∀ span d, d.Before n ks → (f ⟨text, span⟩).Gives d Q) : (name >>= f).Gives c Q := by
  unfold Gives
  rw [bind_apply, name, hc.kind]
  exact hf c.here c.advance hc.advance

theorem gives_accept {wanted : TokenKind} {f : Bool → Reader β} (hc : c.Before n (wanted :: ks))
    (hf : ∀ d, d.Before n ks → (f true).Gives d Q) : (accept wanted >>= f).Gives c Q := by
  unfold Gives
  rw [accept_bind, if_pos hc.kind]
  exact hf c.advance hc.advance

theorem gives_accept_of_ne {wanted : TokenKind} {f : Bool → Reader β} (hc : c.Before n (k :: ks))
    (hne : k ≠ wanted) (hf : (f false).Gives c Q) : (accept wanted >>= f).Gives c Q := by
  unfold Gives
  rw [accept_bind, if_neg (by rwa [hc.kind])]
  exact hf

theorem gives_complainIf {bad : Bool} {fault : SourceFault} {span : Span} {f : Unit → Reader β}
    (hbad : bad = false) (hf : (f ()).Gives c Q) : (complainIf bad fault span >>= f).Gives c Q := by
  subst hbad
  exact hf

end Rules

/-- What is read one level deeper, where the limit allows it, is read at this level. -/
theorem gives_nested {r : Reader α} {p : α → Prop} (hc : c.Before n ks) (hn : n < maxNesting)
    {rest : List TokenKind}
    (hr : ∀ d, d.Before (n + 1) ks → r.Gives d fun a e => p a ∧ e.Before (n + 1) rest) :
    (nested r).Gives c fun a d => p a ∧ d.Before n rest := by
  have hd : ({ c with depth := c.depth + 1 } : Cursor).Before (n + 1) ks :=
    ⟨hc.kinds, by rw [hc.depth], hc.clean⟩
  have hread := hr _ hd
  unfold Gives at hread ⊢
  rw [nested, if_neg (by rw [hc.depth]; omega)]
  cases hreading : r { c with depth := c.depth + 1 } with
  | done a e =>
    rw [hreading] at hread
    obtain ⟨ha, he⟩ := hread
    exact ⟨ha, he.kinds, by show e.depth - 1 = n; rw [he.depth]; rfl, he.clean⟩
  | failed e =>
    rw [hreading] at hread
    exact hread
  | exhausted => trivial

/-! Parts that may be missing -/

theorem gives_after {mark : TokenKind} {r : Reader α} {p : α → Prop} {rest : List TokenKind}
    (hc : c.Before n (mark :: ks))
    (hr : ∀ d, d.Before n ks → r.Gives d fun a e => p a ∧ e.Before n rest) :
    (after mark r).Gives c fun a d => (∃ b, a = some b ∧ p b) ∧ d.Before n rest := by
  unfold after
  apply gives_accept hc
  intro d hd
  rw [if_pos rfl, map_apply]
  apply (hr d hd).bind
  intro a e he
  exact ⟨⟨a, rfl, he.1⟩, he.2⟩

theorem gives_after_of_ne {mark : TokenKind} {r : Reader α} (hc : c.Before n (k :: ks))
    (hne : k ≠ mark) : (after mark r).Gives c fun a d => a = none ∧ d.Before n (k :: ks) := by
  unfold after
  refine gives_accept_of_ne hc hne ?_
  rw [if_neg (by simp)]
  exact ⟨rfl, hc⟩

theorem gives_unlessAhead {stop : TokenKind} {r : Reader α} {p : α → Prop} {rest : List TokenKind}
    (hc : c.Before n (k :: ks)) (hne : k ≠ stop)
    (hr : r.Gives c fun a d => p a ∧ d.Before n rest) :
    (unlessAhead stop r).Gives c fun a d => (∃ b, a = some b ∧ p b) ∧ d.Before n rest := by
  unfold unlessAhead
  refine gives_kind hc ?_
  rw [if_neg hne, map_apply]
  apply hr.bind
  intro a e he
  exact ⟨⟨a, rfl, he.1⟩, he.2⟩

theorem gives_unlessAhead_stop {stop : TokenKind} {r : Reader α} (hc : c.Before n (stop :: ks)) :
    (unlessAhead stop r).Gives c fun a d => a = none ∧ d.Before n (stop :: ks) := by
  unfold unlessAhead
  refine gives_kind hc ?_
  rw [if_pos rfl]
  exact ⟨rfl, hc⟩

end Reader

end ScriptEngine
