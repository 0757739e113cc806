import Mathlib.Logic.Function.Basic

/-!
# Threads and a lock

Each thread `t` of a family is at a stage `stage t`, and `Inside` says which stages are those of a
thread that holds the lock. `Lock.Held` relates the stages to the thread that the lock names as its
holder, so that at most one thread is inside, and what the lock protects is left alone by the others.
-/

namespace Lock

variable {ι σ : Type*} {Inside : σ → Prop} {stage : ι → σ} {holder : Option ι} {t u : ι} {st : σ}

/-- The threads inside are the holder of the lock. -/
def Held (Inside : σ → Prop) (stage : ι → σ) (holder : Option ι) : Prop :=
  ∀ t, Inside (stage t) ↔ holder = some t

theorem held_none (h : ∀ t, ¬ Inside (stage t)) : Held Inside stage none :=
  fun t => iff_of_false (h t) nofun

theorem Held.holder_eq (h : Held Inside stage holder) (ht : Inside (stage t)) : holder = some t :=
  (h t).mp ht

/-- **Mutual exclusion.** -/
theorem Held.unique (h : Held Inside stage holder) (ht : Inside (stage t))
    (hu : Inside (stage u)) : t = u :=
  Option.some.inj ((h.holder_eq ht).symm.trans (h.holder_eq hu))

theorem Held.not_inside (h : Held Inside stage none) (t : ι) : ¬ Inside (stage t) := by
  intro ht
  cases h.holder_eq ht

variable [DecidableEq ι]

/-- A thread takes the lock, which is free. -/
theorem Held.enter (h : Held Inside stage none) (hst : Inside st) :
    Held Inside (Function.update stage t st) (some t) := by
  refine (Function.forall_update_iff stage fun u st => Inside st ↔ some t = some u).mpr ⟨?_, ?_⟩
  · exact iff_of_true hst rfl
  · intro u hu
    refine iff_of_false (h.not_inside u) ?_
    intro heq
    exact hu (Option.some.inj heq).symm

/-- A thread goes on without taking or releasing the lock. -/
theorem Held.move (h : Held Inside stage holder) (hst : Inside st ↔ Inside (stage t)) :
    Held Inside (Function.update stage t st) holder := by
  refine (Function.forall_update_iff stage fun u st => Inside st ↔ holder = some u).mpr ⟨?_, ?_⟩
  · exact hst.trans (h t)
  · exact fun u _ => h u

/-- The holder releases the lock. -/
theorem Held.leave (h : Held Inside stage holder) (ht : Inside (stage t)) (hst : ¬ Inside st) :
    Held Inside (Function.update stage t st) none := by
  apply held_none
  refine (Function.forall_update_iff stage fun _ st => ¬ Inside st).mpr ⟨hst, ?_⟩
  intro u hu hinside
  exact hu (h.unique hinside ht)

end Lock
