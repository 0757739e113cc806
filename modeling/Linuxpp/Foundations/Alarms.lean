import Mathlib.Data.List.Induction
import Mathlib.Logic.Function.Basic

/-!
# Alarms

What a queue of one-shot alarms is for, over arbitrary names `ι` and times `τ`. A trace records how
alarms are set, cancelled and fired, and which are dropped without being fired. An admissible trace
sets a name once, before anything else happens to it, and fires live alarms that are due. In such a
trace no alarm fires twice, early, or after it was cancelled, and an alarm that ended was fired,
cancelled or dropped.
-/

/-- One event in the life of alarms named by `ι`, at times in `τ`. -/
inductive AlarmEvent (ι τ : Type*) where
  /-- Alarm `i` is set for `deadline`. -/
  | set (i : ι) (deadline : τ)
  /-- Alarm `i` is cancelled. -/
  | cancel (i : ι)
  /-- Alarm `i` goes off, the clock having read `now`. -/
  | fire (i : ι) (now : τ)
  /-- Alarm `i` disappears. -/
  | drop (i : ι)
deriving DecidableEq, Repr

namespace AlarmEvent

variable {ι τ : Type*}

/-- The alarm an event is about. -/
def name : AlarmEvent ι τ → ι
  | set i _ | cancel i | fire i _ | drop i => i

/-- The event is a drop. -/
def isDrop : AlarmEvent ι τ → Bool
  | drop _ => true
  | _ => false

/-- The event fires alarm `i`. -/
def fires [DecidableEq ι] (i : ι) : AlarmEvent ι τ → Bool
  | fire j _ => decide (j = i)
  | _ => false

end AlarmEvent

namespace Alarms

open AlarmEvent

variable {ι τ : Type*} [DecidableEq ι]

/-- The effect of an event on the live alarms and their deadlines. -/
def update (live : ι → Option τ) : AlarmEvent ι τ → ι → Option τ
  | .set i deadline => Function.update live i (some deadline)
  | .cancel i | .fire i _ | .drop i => Function.update live i none

/-- The alarms that are live after a trace. -/
def live (tr : List (AlarmEvent ι τ)) : ι → Option τ := tr.foldl update fun _ => none

@[simp] theorem live_nil : live ([] : List (AlarmEvent ι τ)) = fun _ => none := rfl

theorem live_snoc (tr : List (AlarmEvent ι τ)) (ev : AlarmEvent ι τ) :
    live (tr ++ [ev]) = update (live tr) ev := by
  simp [live, List.foldl_append]

/-- An event changes only the alarm it is about. -/
theorem update_of_ne {ev : AlarmEvent ι τ} {i : ι} (h : ev.name ≠ i) (live : ι → Option τ) :
    update live ev i = live i := by
  cases ev <;> exact Function.update_of_ne (Ne.symm h) _ _

variable [LE τ]

/-- The event may follow the trace. -/
def Allowed (tr : List (AlarmEvent ι τ)) : AlarmEvent ι τ → Prop
  | .set i _ => ∀ ev ∈ tr, ev.name ≠ i
  | .fire i now => ∃ deadline, live tr i = some deadline ∧ deadline ≤ now
  | .cancel _ | .drop _ => True

/-- Every event of the trace was allowed where it stands. -/
def Admissible (tr : List (AlarmEvent ι τ)) : Prop :=
  ∀ before ev after, tr = before ++ ev :: after → Allowed before ev

theorem admissible_nil : Admissible ([] : List (AlarmEvent ι τ)) := by
  intro before ev after h
  exact absurd h (by simp)

/-- A trace is admissible if it is so up to its last event and that event was allowed. -/
theorem admissible_snoc {tr : List (AlarmEvent ι τ)} {ev : AlarmEvent ι τ} :
    Admissible (tr ++ [ev]) ↔ Admissible tr ∧ Allowed tr ev := by
  constructor
  · intro h
    refine ⟨fun before e after ht => h before e (after ++ [ev]) ?_, h tr ev [] rfl⟩
    rw [ht, List.append_assoc, List.cons_append]
  · rintro ⟨htr, hev⟩ before e after h
    rcases List.eq_nil_or_concat after with rfl | ⟨after', z, rfl⟩
    · obtain ⟨h1, h2⟩ := List.append_inj' h rfl
      obtain rfl : ev = e := by simpa using h2
      exact h1 ▸ hev
    · have h' : tr ++ [ev] = (before ++ e :: after') ++ [z] := by simpa using h
      obtain ⟨h1, -⟩ := List.append_inj' h' rfl
      exact htr before e after' h1

/-- An induction over an admissible trace, one event after another. -/
@[elab_as_elim]
theorem Admissible.induction {P : ∀ tr : List (AlarmEvent ι τ), Admissible tr → Prop}
    (nil : P [] admissible_nil)
    (snoc : ∀ tr ev (htr : Admissible tr) (hev : Allowed tr ev), P tr htr →
      P (tr ++ [ev]) (admissible_snoc.mpr ⟨htr, hev⟩))
    {tr : List (AlarmEvent ι τ)} (h : Admissible tr) : P tr h := by
  induction tr using List.reverseRecOn with
  | nil => exact nil
  | append_singleton tr ev ih =>
    obtain ⟨htr, hev⟩ := admissible_snoc.mp h
    exact snoc tr ev htr hev (ih htr)

/-- A live alarm was set for its deadline, and nothing else has happened to it. -/
theorem Admissible.of_live {tr : List (AlarmEvent ι τ)} (h : Admissible tr) {i : ι} {d : τ}
    (hlive : live tr i = some d) : ∀ ev ∈ tr, ev.name = i → ev = .set i d := by
  induction h using Admissible.induction with
  | nil => simp
  | snoc tr ev _ hev ih =>
    rw [live_snoc] at hlive
    intro ev' hmem hname
    by_cases hi : ev.name = i
    · cases ev with
      | set j d' =>
        obtain rfl : j = i := hi
        obtain rfl : d' = d := by simpa [update] using hlive
        rcases List.mem_append.mp hmem with hin | hin
        · exact absurd hname (hev ev' hin)
        · simpa using hin
      | cancel j => exact absurd hlive (by obtain rfl : j = i := hi; simp [update])
      | fire j now => exact absurd hlive (by obtain rfl : j = i := hi; simp [update])
      | drop j => exact absurd hlive (by obtain rfl : j = i := hi; simp [update])
    · have hsame : live tr i = some d := by rwa [update_of_ne hi] at hlive
      rcases List.mem_append.mp hmem with hin | hin
      · exact ih hsame ev' hin hname
      · obtain rfl : ev' = ev := by simpa using hin
        exact absurd hname hi

/-- An alarm that was set is live, or it was cancelled, fired or dropped. -/
theorem Admissible.live_or_ended {tr : List (AlarmEvent ι τ)} (h : Admissible tr) {i : ι} {d : τ}
    (hset : .set i d ∈ tr) : live tr i = some d ∨ .cancel i ∈ tr ∨
      (∃ now, .fire i now ∈ tr) ∨ .drop i ∈ tr := by
  induction h using Admissible.induction with
  | nil => exact absurd hset (by simp)
  | snoc tr ev _ hev ih =>
    rw [live_snoc]
    rcases List.mem_append.mp hset with hin | hin
    · by_cases hi : ev.name = i
      · cases ev with
        | set j d' => exact absurd hi.symm (hev _ hin)
        | cancel j => obtain rfl : j = i := hi; exact Or.inr (Or.inl (by simp))
        | fire j now =>
          obtain rfl : j = i := hi
          exact Or.inr (Or.inr (Or.inl ⟨now, by simp⟩))
        | drop j => obtain rfl : j = i := hi; exact Or.inr (Or.inr (Or.inr (by simp)))
      · rcases ih hin with hl | hc | ⟨now, hf⟩ | hd
        · exact Or.inl (by rw [update_of_ne hi, hl])
        · exact Or.inr (Or.inl (List.mem_append_left _ hc))
        · exact Or.inr (Or.inr (Or.inl ⟨now, List.mem_append_left _ hf⟩))
        · exact Or.inr (Or.inr (Or.inr (List.mem_append_left _ hd)))
    · obtain rfl : AlarmEvent.set i d = ev := by simpa using hin
      left
      simp [update]

/-- No alarm fires before its deadline. -/
theorem Admissible.fire_due {tr : List (AlarmEvent ι τ)} (h : Admissible tr) {i : ι} {d now : τ}
    (hset : .set i d ∈ tr) (hfire : .fire i now ∈ tr) : d ≤ now := by
  obtain ⟨before, after, rfl⟩ := List.mem_iff_append.mp hfire
  obtain ⟨d', hlive, hle⟩ := h before _ after rfl
  have hbefore : Admissible before := fun a ev b hab => h a ev (b ++ .fire i now :: after) (by
    rw [hab, List.append_assoc, List.cons_append])
  rcases List.mem_append.mp hset with hin | hin
  · have := hbefore.of_live hlive _ hin rfl
    simp only [AlarmEvent.set.injEq, true_and] at this
    exact this ▸ hle
  · -- a name is set before anything else happens to it
    rcases List.mem_cons.mp hin with hin | hin
    · exact absurd hin (by simp)
    · obtain ⟨mid, rest, rfl⟩ := List.mem_iff_append.mp hin
      have hfresh := h (before ++ .fire i now :: mid) (.set i d) rest (by simp)
      exact absurd rfl (hfresh (.fire i now) (by simp))

/-- Nothing fires an alarm after it was cancelled, fired or dropped. -/
theorem Admissible.not_ended_before_fire {tr before after : List (AlarmEvent ι τ)}
    (h : Admissible tr) {i : ι} {now : τ} (htr : tr = before ++ .fire i now :: after) :
    .cancel i ∉ before ∧ (∀ t, .fire i t ∉ before) ∧ .drop i ∉ before := by
  obtain ⟨d, hlive, -⟩ := h before _ after htr
  have hbefore : Admissible before := fun a ev b hab => h a ev (b ++ .fire i now :: after) (by
    rw [htr, hab, List.append_assoc, List.cons_append])
  have honly := hbefore.of_live hlive
  refine ⟨fun hin => ?_, fun t hin => ?_, fun hin => ?_⟩
  · exact absurd (honly _ hin rfl) (by simp)
  · exact absurd (honly _ hin rfl) (by simp)
  · exact absurd (honly _ hin rfl) (by simp)

/-- No alarm fires twice. -/
theorem Admissible.fire_once {tr : List (AlarmEvent ι τ)} (h : Admissible tr) (i : ι) :
    tr.countP (fires i) ≤ 1 := by
  induction h using Admissible.induction with
  | nil => simp
  | snoc tr ev htr hev ih =>
    rw [List.countP_append, List.countP_singleton]
    by_cases hf : fires i ev = true
    · cases ev with
      | fire j now =>
        obtain rfl : j = i := by simpa [fires] using hf
        have hadm : Admissible (tr ++ [.fire j now]) := admissible_snoc.mpr ⟨htr, hev⟩
        have hnone : tr.countP (fires j) = 0 := by
          rw [List.countP_eq_zero]
          rintro (⟨k, d⟩ | k | ⟨k, t⟩ | k) hin hk
          all_goals simp only [fires, decide_eq_true_eq, Bool.false_eq_true] at hk
          subst hk
          exact (hadm.not_ended_before_fire rfl).2.1 t hin
        rw [hnone, hf]
        simp
      | _ => simp [fires] at hf
    · simpa [hf] using ih

end Alarms
