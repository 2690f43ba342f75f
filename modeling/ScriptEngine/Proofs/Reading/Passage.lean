import ScriptEngine.Tree.Cursor

/-!
What a reading comes to, and over which tokens it went. A statement about a reader names three
postconditions, one for each way in which it can end; the statements about the steps of a reader are
put together by one rule. Tokens that were passed over can be told from the cursors only as long as
nothing was complained about: recovery passes over tokens that no tree has.
-/
namespace ScriptEngine

namespace Reading

variable {α β : Type}

def Meets (reading : Reading α) (done : α → Cursor → Prop) (failed : Cursor → Prop)
    (exhausted : Prop) : Prop :=
  match reading with
  | .done a c => done a c
  | .failed c => failed c
  | .exhausted => exhausted

variable {P P' : α → Cursor → Prop} {Q : β → Cursor → Prop} {F F' : Cursor → Prop} {E E' : Prop}

theorem Meets.mono {reading : Reading α} (h : reading.Meets P F E) (hP : ∀ a c, P a c → P' a c)
    (hF : ∀ c, F c → F' c) (hE : E → E') : reading.Meets P' F' E' := by
  cases reading with
  | done a c => exact hP a c h
  | failed c => exact hF c h
  | exhausted => exact hE h

theorem Meets.bind {r : Reader α} {f : α → Reader β} {c : Cursor} (h : (r c).Meets P F E)
    (hdone : ∀ a d, P a d → (f a d).Meets Q F' E') (hF : ∀ d, F d → F' d) (hE : E → E') :
    ((r >>= f) c).Meets Q F' E' := by
  rw [Reader.bind_apply]
  cases hr : r c with
  | done a d =>
    rw [hr] at h
    exact hdone a d h
  | failed d =>
    rw [hr] at h
    exact hF d h
  | exhausted =>
    rw [hr] at h
    exact hE h

end Reading

namespace Cursor

def kinds (c : Cursor) : List TokenKind := c.rest.map Token.kind

theorem kind_eq (c : Cursor) : c.kind = c.kinds.headD .endOfFile := by
  obtain ⟨rest, previous, complaints, depth⟩ := c
  cases rest <;> rfl

/-- A cursor before a token other than the end of file has that token ahead. -/
theorem exists_rest {c : Cursor} {k : TokenKind} (hk : c.kind = k) (hne : k ≠ .endOfFile) :
    ∃ t rest, c.rest = t :: rest ∧ t.kind = k := by
  obtain ⟨rest, previous, complaints, depth⟩ := c
  cases rest with
  | nil => exact absurd hk.symm hne
  | cons t rest => exact ⟨t, rest, rfl, hk⟩

theorem complain_ne_nil (c : Cursor) (fault : SourceFault) (span : Span) :
    (c.complain fault span).complaints ≠ [] := by
  unfold complain isFull
  split
  · intro hnil
    simp_all [maxErrors]
  · simp

theorem rest_complain (c : Cursor) (fault : SourceFault) (span : Span) :
    (c.complain fault span).rest = c.rest := by
  unfold complain
  split <;> rfl

theorem kind_complain (c : Cursor) (fault : SourceFault) (span : Span) :
    (c.complain fault span).kind = c.kind := by
  rw [kind, rest_complain, kind]

theorem suffix_complain (c : Cursor) (fault : SourceFault) (span : Span) :
    (c.complain fault span).rest <:+ c.rest := by
  have h := rest_complain c fault span
  simp [h]

/-- Reading went from `c` to `d` over at least so many tokens. When there is nothing to complain
about, these are the tokens it went over. -/
structure Over (c d : Cursor) (least : Nat) (passed : List TokenKind) : Prop where
  suffix : d.rest <:+ c.rest
  shorter : d.rest.length + least ≤ c.rest.length
  inside : .endOfFile ∉ passed
  clean : d.complaints = [] → c.complaints = [] ∧ c.kinds = passed ++ d.kinds

/-- Reading failed at `d` and complained. -/
structure Stuck (c d : Cursor) : Prop where
  suffix : d.rest <:+ c.rest
  blamed : d.complaints ≠ []

theorem Over.refl (c : Cursor) : c.Over c 0 [] :=
  ⟨List.suffix_refl _, by omega, by simp, fun h => ⟨h, rfl⟩⟩

theorem Over.trans {c d e : Cursor} {m n : Nat} {ks ls : List TokenKind} (h : c.Over d m ks)
    (h' : d.Over e n ls) : c.Over e (m + n) (ks ++ ls) := by
  refine ⟨h'.suffix.trans h.suffix, ?_, ?_, ?_⟩
  · have := h.shorter
    have := h'.shorter
    omega
  · rw [List.mem_append, not_or]
    exact ⟨h.inside, h'.inside⟩
  · intro hclean
    obtain ⟨hd, hde⟩ := h'.clean hclean
    obtain ⟨hc, hcd⟩ := h.clean hd
    exact ⟨hc, by rw [hcd, hde, List.append_assoc]⟩

theorem Over.of_eq {c d : Cursor} {m n : Nat} {ks ls : List TokenKind} (h : c.Over d n ks)
    (hm : m ≤ n) (hk : ks = ls) : c.Over d m ls := by
  subst hk
  have := h.shorter
  exact ⟨h.suffix, by omega, h.inside, h.clean⟩

theorem Over.stuck {c d e : Cursor} {n : Nat} {ks : List TokenKind} (h : c.Over d n ks)
    (h' : d.Stuck e) : c.Stuck e :=
  ⟨h'.suffix.trans h.suffix, h'.blamed⟩

/-- After a complaint nothing is said about the tokens. -/
theorem Over.of_blamed {c d : Cursor} {n : Nat} (hsuffix : d.rest <:+ c.rest)
    (hshorter : d.rest.length + n ≤ c.rest.length) (hblamed : d.complaints ≠ []) :
    c.Over d n [] :=
  ⟨hsuffix, hshorter, by simp, fun h => absurd h hblamed⟩

theorem stuck_complain (c : Cursor) (fault : SourceFault) (span : Span) :
    c.Stuck (c.complain fault span) :=
  ⟨suffix_complain c fault span, complain_ne_nil c fault span⟩

theorem over_advance {c : Cursor} {k : TokenKind} (hk : c.kind = k) (hne : k ≠ .endOfFile) :
    c.Over c.advance 1 [k] := by
  obtain ⟨t, rest, hrest, rfl⟩ := exists_rest hk hne
  refine ⟨?_, ?_, ?_, ?_⟩
  · simp [advance, hrest]
  · simp [advance, hrest]
  · simpa using hne.symm
  · intro hclean
    simpa [advance, kinds, hrest] using hclean

end Cursor

namespace Reader

open Cursor

variable {α β : Type} {c d : Cursor} {n m : Nat} {ks : List TokenKind}

/-- The step rule: a reading that has come from `c` to `d` goes on with `r`, then with `f`. -/
theorem meets_step {r : Reader α} {f : α → Reader β} {listing : α → List TokenKind}
    {Q : β → Cursor → Prop} {E E' : Prop} (h : c.Over d n ks)
    (hr : (r d).Meets (fun a e => d.Over e m (listing a)) d.Stuck E')
    (hroom : d.rest.length + n ≤ c.rest.length → E' → E)
    (hnext : ∀ a e, c.Over e (n + m) (ks ++ listing a) → (f a e).Meets Q c.Stuck E) :
    ((r >>= f) d).Meets Q c.Stuck E :=
  hr.bind (fun a e he => hnext a e (h.trans he)) (fun _ he => h.stuck he) (hroom h.shorter)

/-- The step rule for a reader that needs no fuel. -/
theorem meets_token {r : Reader α} {f : α → Reader β} {listing : α → List TokenKind}
    {Q : β → Cursor → Prop} {E : Prop} (h : c.Over d n ks)
    (hr : (r d).Meets (fun a e => d.Over e m (listing a)) d.Stuck False)
    (hnext : ∀ a e, c.Over e (n + m) (ks ++ listing a) → (f a e).Meets Q c.Stuck E) :
    ((r >>= f) d).Meets Q c.Stuck E :=
  meets_step h hr (fun _ => False.elim) hnext

theorem next_passes {k : TokenKind} (hk : c.kind = k) (hne : k ≠ .endOfFile) :
    (next c).Meets (fun _ d => c.Over d 1 [k]) c.Stuck False :=
  over_advance hk hne

theorem expect_passes {wanted : TokenKind} (hne : wanted ≠ .endOfFile) :
    (expect wanted c).Meets (fun _ d => c.Over d 1 [wanted]) c.Stuck False := by
  unfold expect
  split
  · exact over_advance ‹_› hne
  · exact stuck_complain c _ _

theorem name_passes :
    (name c).Meets (fun a d => c.Over d 1 [.name a.text]) c.Stuck False := by
  unfold name
  split
  · rename_i text htext
    exact over_advance htext (by simp)
  · exact stuck_complain c _ _

/-- A name is read from the token that it is. -/
theorem name_meets (c : Cursor) :
    (name c).Meets (fun a d => c.kind = .name a.text ∧ a.span = c.here ∧ d = c.advance)
      (fun d => d = c.complain (.expectedName c.kind) c.here) True := by
  unfold name
  split
  · exact ⟨‹_›, rfl, rfl⟩
  · rfl

theorem fail_stuck {P : α → Cursor → Prop} {E : Prop} (fault : TokenKind → SourceFault)
    (h : c.Over d n ks) : (fail fault d).Meets P c.Stuck E :=
  h.stuck (stuck_complain d _ _)

theorem complain_passes (fault : SourceFault) (span : Span) :
    (complain fault span c).Meets (fun _ d => c.Over d 0 []) c.Stuck False :=
  Over.of_blamed (suffix_complain c fault span) (by rw [rest_complain]; omega)
    (complain_ne_nil c fault span)

/-! Steps that leave the tokens where they are -/

theorem meets_kind {f : TokenKind → Reader β} {Q : β → Cursor → Prop} {F : Cursor → Prop}
    {E : Prop} (h : ∀ k, c.kind = k → (f k c).Meets Q F E) : ((kind >>= f) c).Meets Q F E :=
  h c.kind rfl

theorem kind_bind (f : TokenKind → Reader β) : (kind >>= f) c = f c.kind c := rfl

theorem here_bind (f : Span → Reader β) : (here >>= f) c = f c.here c := rfl

theorem spanFrom_bind (start : Span) (f : Span → Reader β) :
    (spanFrom start >>= f) c = f (start.merge c.previous) c := rfl

theorem accept_bind (wanted : TokenKind) (f : Bool → Reader β) :
    (accept wanted >>= f) c = if c.kind = wanted then f true c.advance else f false c := by
  rw [bind_apply, accept]
  by_cases h : c.kind = wanted
  · simp only [if_pos h]
  · simp only [if_neg h]

theorem complain_bind (fault : SourceFault) (span : Span) (f : Unit → Reader β) :
    (complain fault span >>= f) c = f () (c.complain fault span) := rfl

/-- Reading goes on from the same tokens, with a complaint or without it. -/
theorem meets_complainIf {bad : Bool} {fault : SourceFault} {span : Span} {f : Unit → Reader β}
    {Q : β → Cursor → Prop} {F : Cursor → Prop} {E : Prop}
    (h : ∀ d, d = c ∨ d = c.complain fault span → (f () d).Meets Q F E) :
    ((complainIf bad fault span >>= f) c).Meets Q F E := by
  cases bad with
  | true => exact h _ (Or.inr rfl)
  | false => exact h c (Or.inl rfl)

theorem map_apply (f : α → β) (r : Reader α) : f <$> r = r >>= fun a => Pure.pure (f a) :=
  map_eq_pure_bind f r

/-! Parts that may be missing -/

theorem complainIf_passes (bad : Bool) (fault : SourceFault) (span : Span) :
    (complainIf bad fault span c).Meets (fun _ d => c.Over d 0 []) c.Stuck False := by
  unfold complainIf
  split
  · exact complain_passes fault span
  · exact Over.refl c

theorem after_passes {mark : TokenKind} {r : Reader α} {E : Prop} (listing : α → List TokenKind)
    (hne : mark ≠ .endOfFile) (hr : ∀ d, d.rest.length + 1 ≤ c.rest.length →
      (r d).Meets (fun a e => d.Over e 0 (listing a)) d.Stuck E) :
    (after mark r c).Meets (fun a d => c.Over d 0 (a.elim [] fun a => mark :: listing a)) c.Stuck
      E := by
  unfold after
  rw [accept_bind]
  split
  · rename_i hmark
    have hd := over_advance hmark hne
    rw [if_pos rfl, map_apply]
    apply meets_step hd (hr _ hd.shorter) (fun _ h => h)
    intro a d hd
    exact hd.of_eq (by omega) (by simp)
  · exact Over.refl c

theorem unlessAhead_passes {stop : TokenKind} {r : Reader α} {listing : α → List TokenKind}
    {E : Prop} (hr : (r c).Meets (fun a d => c.Over d 0 (listing a)) c.Stuck E) :
    (unlessAhead stop r c).Meets (fun a d => c.Over d 0 (a.elim [] listing)) c.Stuck E := by
  unfold unlessAhead
  apply meets_kind
  intro k _
  split
  · exact Over.refl c
  · rw [map_apply]
    apply meets_step (Over.refl c) hr (fun _ h => h)
    intro a d hd
    exact hd.of_eq (by omega) (by simp)

/-! Readers that lose nothing -/

/-- Whatever the reader gives is written back as the tokens that it passed over, at least so many.
It runs out of fuel only when it has little: 16 for each token to come are enough, up to the rank of
the reader, which counts the readers that can still be called before the next token is taken. -/
def Lossless (r : Reader α) (c : Cursor) (fuel rank least : Nat) (listing : α → List TokenKind) :
    Prop :=
  (r c).Meets (fun a d => c.Over d least (listing a)) c.Stuck (fuel < 16 * c.rest.length + rank)

/-- One level deeper and back changes nothing about the tokens. -/
theorem lossless_nested {r : Reader α} {fuel rank least : Nat} {listing : α → List TokenKind}
    (hr : ∀ c, r.Lossless c fuel rank least listing) (c : Cursor) :
    (nested r).Lossless c fuel rank least listing := by
  unfold Lossless
  rw [nested]
  split
  · exact stuck_complain c _ _
  · have h := hr { c with depth := c.depth + 1 }
    unfold Lossless at h
    cases hread : r { c with depth := c.depth + 1 } with
    | done a d =>
      rw [hread] at h
      exact ⟨h.suffix, h.shorter, h.inside, h.clean⟩
    | failed d =>
      rw [hread] at h
      exact ⟨h.suffix, h.blamed⟩
    | exhausted =>
      rw [hread] at h
      exact h

end Reader

end ScriptEngine
