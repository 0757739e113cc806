import Mathlib.Data.List.Basic
import Mathlib.Logic.Function.Iterate

/-!
# Loops that read an endless input

Each round of a loop takes one input. It either goes on with a new state, or leaves the loop with a
result. Which inputs are possible may depend on the state, and is a guard `ok`.

Two rules say what becomes of a loop: a loop with a rank that falls in all but finitely many of its
rounds is left, and a result that is not possible under an invariant is never left with.
-/

/-- The body of a loop: it goes on with a state of `σ`, or leaves with a result of `ρ`. -/
abbrev Loop (σ ι ρ : Type*) := σ → ι → σ ⊕ ρ

namespace Loop

variable {σ ι ρ : Type*} (body : Loop σ ι ρ)

/-- The loop after so many rounds: its state, or the result with which it was left. -/
def after (inputs : ℕ → ι) (s : σ) : ℕ → σ ⊕ ρ
  | 0 => .inl s
  | k + 1 =>
    match after inputs s k with
    | .inl t => body t (inputs k)
    | .inr r => .inr r

/-- The loop is left with the result `r`. -/
def Leaves (inputs : ℕ → ι) (s : σ) (r : ρ) : Prop := ∃ k, body.after inputs s k = .inr r

/-- Every round finds a possible input. -/
def Feeds (ok : σ → ι → Prop) (inputs : ℕ → ι) (s : σ) : Prop :=
  ∀ k t, body.after inputs s k = .inl t → ok t (inputs k)

variable {body} {inputs : ℕ → ι} {s : σ} {ok : σ → ι → Prop}

theorem after_succ_of_inl {k : ℕ} {t : σ} (h : body.after inputs s k = .inl t) :
    body.after inputs s (k + 1) = body t (inputs k) := by
  rw [after, h]

theorem after_succ_of_inr {k : ℕ} {r : ρ} (h : body.after inputs s k = .inr r) :
    body.after inputs s (k + 1) = .inr r := by
  rw [after, h]

section Invariant

variable {Inv : σ → Prop} (hstep : ∀ s i t, Inv s → ok s i → body s i = .inl t → Inv t)

include hstep

/-- What is preserved by the rounds that go on holds as long as the loop goes on. -/
theorem invariant (hfeeds : body.Feeds ok inputs s) (hs : Inv s) {k : ℕ} {t : σ}
    (h : body.after inputs s k = .inl t) : Inv t := by
  induction k generalizing t with
  | zero =>
    obtain rfl := Sum.inl.inj h
    exact hs
  | succ k ih =>
    cases hk : body.after inputs s k with
    | inl u =>
      rw [after_succ_of_inl hk] at h
      exact hstep u (inputs k) t (ih hk) (hfeeds k u hk) h
    | inr r =>
      rw [after_succ_of_inr hk] at h
      cases h

/-- A loop is left only with results that its invariant allows. -/
theorem Leaves.post {Q : ρ → Prop} (hpost : ∀ s i r, Inv s → ok s i → body s i = .inr r → Q r)
    (hfeeds : body.Feeds ok inputs s) (hs : Inv s) {r : ρ} (h : body.Leaves inputs s r) : Q r := by
  obtain ⟨k, hk⟩ := h
  induction k with
  | zero => cases hk
  | succ k ih =>
    cases hprev : body.after inputs s k with
    | inl t =>
      rw [after_succ_of_inl hprev] at hk
      exact hpost t (inputs k) r (invariant hstep hfeeds hs hprev) (hfeeds k t hprev) hk
    | inr r' =>
      rw [after_succ_of_inr hprev] at hk
      exact ih (hprev.trans hk)

/-- A loop is left when a rank falls in every round that is not idle, and the idle rounds end. -/
theorem leaves_of_rank {idle : ι → Prop} (rank : σ → ℕ)
    (hrank : ∀ s i t, Inv s → ok s i → body s i = .inl t → ¬ idle i → rank t < rank s)
    (hfeeds : body.Feeds ok inputs s) (hs : Inv s) (hidle : ∃ n, ∀ k, n ≤ k → ¬ idle (inputs k)) :
    ∃ r, body.Leaves inputs s r := by
  obtain ⟨n, hn⟩ := hidle
  -- from round `n` on no round is idle
  have hleaves : ∀ m k t, rank t = m → n ≤ k → body.after inputs s k = .inl t →
      ∃ r, body.Leaves inputs s r := by
    intro m
    induction m using Nat.strongRecOn with
    | ind m ih =>
      intro k t hm hk ht
      have hnext := after_succ_of_inl ht
      cases hround : body t (inputs k) with
      | inr r => exact ⟨r, k + 1, hnext.trans hround⟩
      | inl u =>
        have hlt := hrank t (inputs k) u (invariant hstep hfeeds hs ht) (hfeeds k t ht) hround
          (hn k hk)
        exact ih (rank u) (hm ▸ hlt) (k + 1) u rfl (Nat.le_succ_of_le hk) (hnext.trans hround)
  cases h : body.after inputs s n with
  | inl t => exact hleaves (rank t) n t rfl (Nat.le_refl n) h
  | inr r => exact ⟨r, n, h⟩

end Invariant

/-- The state after a round in which the loop gets the input that `pick` has for its state. -/
def advance (body : Loop σ ι ρ) (pick : σ → ι) (s : σ) : σ :=
  match body s (pick s) with
  | .inl t => t
  | .inr _ => s

/-- Inputs can be picked as the loop goes on. -/
theorem exists_feeds (pick : σ → ι) (hpick : ∀ s, ok s (pick s)) (s : σ) :
    ∃ inputs, body.Feeds ok inputs s ∧ ∀ k, ∃ t, inputs k = pick t := by
  let states : ℕ → σ := fun k => (body.advance pick)^[k] s
  have hstates : ∀ k t, body.after (fun k => pick (states k)) s k = .inl t → t = states k := by
    intro k
    induction k with
    | zero =>
      intro t h
      exact (Sum.inl.inj h).symm
    | succ k ih =>
      intro t h
      cases hk : body.after (fun k => pick (states k)) s k with
      | inl u =>
        rw [after_succ_of_inl hk] at h
        obtain rfl := ih u hk
        have hnext : states (k + 1) = body.advance pick (states k) :=
          Function.iterate_succ_apply' _ k s
        rw [hnext, advance, h]
      | inr r =>
        rw [after_succ_of_inr hk] at h
        cases h
  refine ⟨fun k => pick (states k), fun k t h => ?_, fun k => ⟨states k, rfl⟩⟩
  rw [hstates k t h]
  exact hpick (states k)

end Loop
