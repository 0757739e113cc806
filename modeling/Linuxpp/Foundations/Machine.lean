import Mathlib.Data.List.Basic
import Mathlib.Logic.Relation

/-!
# Partial machines and their runs

A machine is a partial step function: `m s l` is the state after the step labelled `l`, and `none`
when that step cannot be taken in `s`. All nondeterminism (schedules, outcomes of calls, the
behaviour of an environment) is in the labels, so a run is a list of labels and can be evaluated.

The rules below carry a fact along a run: from a preserved invariant, from one that is preserved by
the steps that meet a guard, and through a simulation. A machine can be given one step more, by which
it is interrupted.
-/

/-- A machine over the states `σ` and the labels `α`. -/
abbrev Machine (σ α : Type*) := σ → α → Option σ

namespace Machine

variable {σ α β τ : Type*} (m : Machine σ α)

/-- The state reached from `s` by the steps labelled `ls`. -/
def run : σ → List α → Option σ
  | s, [] => some s
  | s, l :: ls => (m s l).bind fun t => run t ls

/-- Every step of the run from `s` labelled `ls` meets the guard `ok`. -/
def Along (ok : σ → α → Prop) : σ → List α → Prop
  | _, [] => True
  | s, l :: ls => ok s l ∧ ∀ t, m s l = some t → Along ok t ls

/-- `P` holds in every state of the run from `s` labelled `ls`, the first and the last included. -/
def Throughout (P : σ → Prop) : σ → List α → Prop
  | s, [] => P s
  | s, l :: ls => P s ∧ ∀ t, m s l = some t → Throughout P t ls

/-- `t` is reached from `s` by some run. -/
def Reachable (s t : σ) : Prop := ∃ ls, m.run s ls = some t

/-- The machine with interruptions, which have the label `none`. -/
def interruptible (interrupt : σ → Option σ) : Machine σ (Option α)
  | s, some l => m s l
  | s, none => interrupt s

variable {m}

@[simp] theorem run_nil (s : σ) : m.run s [] = some s := rfl

theorem run_cons (s : σ) (l : α) (ls : List α) :
    m.run s (l :: ls) = (m s l).bind fun t => m.run t ls := rfl

/-- A run with a first step is that step followed by the rest of the run. -/
theorem run_cons_eq_some {s u : σ} {l : α} {ls : List α} :
    m.run s (l :: ls) = some u ↔ ∃ t, m s l = some t ∧ m.run t ls = some u := by
  rw [run_cons, Option.bind_eq_some_iff]

/-- A run is cut where its list of labels is cut. -/
theorem run_append_eq_some {s u : σ} {ls ls' : List α} :
    m.run s (ls ++ ls') = some u ↔ ∃ t, m.run s ls = some t ∧ m.run t ls' = some u := by
  induction ls generalizing s with
  | nil => simp
  | cons l ls ih =>
    rw [List.cons_append, run_cons_eq_some]
    constructor
    · rintro ⟨t, hl, h⟩
      obtain ⟨v, hv, hu⟩ := ih.mp h
      exact ⟨v, run_cons_eq_some.mpr ⟨t, hl, hv⟩, hu⟩
    · rintro ⟨v, hv, hu⟩
      obtain ⟨t, hl, h⟩ := run_cons_eq_some.mp hv
      exact ⟨t, hl, ih.mpr ⟨v, h, hu⟩⟩

theorem run_singleton (s : σ) (l : α) : m.run s [l] = m s l := by
  cases h : m s l <;> simp [run, h]

theorem Reachable.run {s t u : σ} {ls : List α} (h : m.Reachable s t) (hls : m.run t ls = some u) :
    m.Reachable s u := by
  obtain ⟨ks, hks⟩ := h
  exact ⟨ks ++ ls, run_append_eq_some.mpr ⟨t, hks, hls⟩⟩

/-- **Invariant rule.** What every step preserves holds at the end of every run. -/
theorem run_invariant {Inv : σ → Prop} (hstep : ∀ s l t, Inv s → m s l = some t → Inv t)
    {s u : σ} {ls : List α} (h : m.run s ls = some u) (hs : Inv s) : Inv u := by
  induction ls generalizing s with
  | nil => cases h; exact hs
  | cons l ls ih =>
    obtain ⟨t, hl, h⟩ := run_cons_eq_some.mp h
    exact ih h (hstep s l t hs hl)

theorem Reachable.invariant {Inv : σ → Prop} {s u : σ} (h : m.Reachable s u)
    (hstep : ∀ s l t, Inv s → m s l = some t → Inv t) (hs : Inv s) : Inv u := by
  obtain ⟨ls, hls⟩ := h
  exact run_invariant hstep hls hs

/-- **Guarded invariant rule.** What the guarded steps preserve holds at the end of every run all of
whose steps meet the guard. -/
theorem run_invariant_along {Inv : σ → Prop} {ok : σ → α → Prop}
    (hstep : ∀ s l t, Inv s → ok s l → m s l = some t → Inv t) {s u : σ} {ls : List α}
    (h : m.run s ls = some u) (hok : m.Along ok s ls) (hs : Inv s) : Inv u := by
  induction ls generalizing s with
  | nil => cases h; exact hs
  | cons l ls ih =>
    obtain ⟨t, hl, h⟩ := run_cons_eq_some.mp h
    exact ih h (hok.2 t hl) (hstep s l t hs hok.1 hl)

/-- What every good state has holds throughout a run all of whose steps meet the guard, if the
guarded steps stay good. -/
theorem throughout_of_along {Inv P : σ → Prop} {ok : σ → α → Prop}
    (hstep : ∀ s l t, Inv s → ok s l → m s l = some t → Inv t) (hP : ∀ s, Inv s → P s) {s : σ}
    {ls : List α} (hok : m.Along ok s ls) (hs : Inv s) : m.Throughout P s ls := by
  induction ls generalizing s with
  | nil => exact hP s hs
  | cons l ls ih => exact ⟨hP s hs, fun t ht => ih (hok.2 t ht) (hstep s l t hs hok.1 ht)⟩

/-- **Rank rule.** If from every state that is not `Done` some own step lowers the rank, then from
every state a run of own steps leads to one that is. -/
theorem exists_run_of_rank {Done : σ → Prop} {own : α → Prop} (rank : σ → ℕ)
    (hstep : ∀ s, ¬ Done s → ∃ l t, own l ∧ m s l = some t ∧ rank t < rank s) (s : σ) :
    ∃ ls t, (∀ l ∈ ls, own l) ∧ m.run s ls = some t ∧ Done t := by
  induction hn : rank s using Nat.strongRecOn generalizing s with
  | ind n ih =>
    by_cases hdone : Done s
    · exact ⟨[], s, by simp, rfl, hdone⟩
    · obtain ⟨l, t, hown, hl, hlt⟩ := hstep s hdone
      obtain ⟨ls, u, hls, hrun, hu⟩ := ih (rank t) (hn ▸ hlt) t rfl
      exact ⟨l :: ls, u, List.forall_mem_cons.mpr ⟨hown, hls⟩, run_cons_eq_some.mpr ⟨t, hl, hrun⟩,
        hu⟩

/-- The rank rule for states that meet an invariant. -/
theorem exists_run_of_rank_of_invariant {Inv Done : σ → Prop} {own : α → Prop} (rank : σ → ℕ)
    (hstep : ∀ s, Inv s → ¬ Done s → ∃ l t, own l ∧ m s l = some t ∧ Inv t ∧ rank t < rank s)
    {s : σ} (hs : Inv s) :
    ∃ ls t, (∀ l ∈ ls, own l) ∧ m.run s ls = some t ∧ Inv t ∧ Done t := by
  induction hn : rank s using Nat.strongRecOn generalizing s with
  | ind n ih =>
    by_cases hdone : Done s
    · exact ⟨[], s, by simp, rfl, hs, hdone⟩
    · obtain ⟨l, t, hown, hl, ht, hlt⟩ := hstep s hs hdone
      obtain ⟨ls, u, hls, hrun, hu⟩ := ih (rank t) (hn ▸ hlt) ht rfl
      exact ⟨l :: ls, u, List.forall_mem_cons.mpr ⟨hown, hls⟩, run_cons_eq_some.mpr ⟨t, hl, hrun⟩,
        hu⟩

theorem along_of_forall_mem {ok : σ → α → Prop} {s : σ} {ls : List α}
    (h : ∀ t, ∀ l ∈ ls, ok t l) : m.Along ok s ls := by
  induction ls generalizing s with
  | nil => trivial
  | cons l ls ih =>
    exact ⟨h s l List.mem_cons_self, fun t _ => ih fun u k hk => h u k (List.mem_cons_of_mem _ hk)⟩

/-- The steps of a run that is cut in two meet the guard if those of its parts do. -/
theorem along_append {ok : σ → α → Prop} {s t : σ} {ls ls' : List α} (h : m.Along ok s ls)
    (hrun : m.run s ls = some t) (h' : m.Along ok t ls') : m.Along ok s (ls ++ ls') := by
  induction ls generalizing s with
  | nil =>
    obtain rfl := Option.some.inj hrun
    exact h'
  | cons l ls ih =>
    obtain ⟨u, hl, hrun⟩ := run_cons_eq_some.mp hrun
    refine ⟨h.1, fun v hv => ?_⟩
    obtain rfl := Option.some.inj (hl.symm.trans hv)
    exact ih (h.2 u hl) hrun

theorem along_congr {ok ok' : σ → α → Prop} (h : ∀ s l, ok s l ↔ ok' s l) {s : σ}
    {ls : List α} : m.Along ok s ls ↔ m.Along ok' s ls := by
  have heq : ok = ok' := funext fun s => funext fun l => propext (h s l)
  rw [heq]

theorem Along.and {ok ok' : σ → α → Prop} {s : σ} {ls : List α} (h : m.Along ok s ls)
    (h' : m.Along ok' s ls) : m.Along (fun t l => ok t l ∧ ok' t l) s ls := by
  induction ls generalizing s with
  | nil => trivial
  | cons l ls ih => exact ⟨⟨h.1, h'.1⟩, fun t ht => ih (h.2 t ht) (h'.2 t ht)⟩

/-- **Guarded exactness rule.** Let the guarded steps that are `ok` preserve `Inv`. When a guarded
step out of a good state stays good exactly if it is `ok`, a run of guarded steps is good throughout
exactly if all its steps are `ok`. -/
theorem throughout_iff_along_of_guarded {Inv P : σ → Prop} {g ok : σ → α → Prop}
    (hinv : ∀ s l t, Inv s → g s l → ok s l → m s l = some t → Inv t)
    (hstep : ∀ s l t, Inv s → P s → g s l → m s l = some t → (P t ↔ ok s l)) {s u : σ}
    {ls : List α} (h : m.run s ls = some u) (hg : m.Along g s ls) (hi : Inv s) (hs : P s) :
    m.Throughout P s ls ↔ m.Along ok s ls := by
  induction ls generalizing s with
  | nil => simp [Throughout, Along, hs]
  | cons l ls ih =>
    obtain ⟨t, hl, h⟩ := run_cons_eq_some.mp h
    simp only [Throughout, Along, hl, Option.some.injEq, forall_eq', hs, true_and]
    have htail : ok s l → P t → (m.Throughout P t ls ↔ m.Along ok t ls) := fun hok =>
      ih h (hg.2 t hl) (hinv s l t hi hg.1 hok hl)
    have hhead : m.Throughout P t ls → P t := by
      cases ls with
      | nil => exact id
      | cons l' ls' => exact fun h => h.1
    constructor
    · intro hth
      have ht := hhead hth
      have hok := (hstep s l t hi hs hg.1 hl).mp ht
      exact ⟨hok, (htail hok ht).mp hth⟩
    · rintro ⟨hok, hal⟩
      exact (htail hok ((hstep s l t hi hs hg.1 hl).mpr hok)).mpr hal

/-- **Exactness rule.** Let all steps preserve `Inv`. When a step out of a good state stays good
exactly if it meets the guard, a run is good throughout exactly if all its steps meet the guard. -/
theorem throughout_iff_along_of_invariant {Inv P : σ → Prop} {ok : σ → α → Prop}
    (hinv : ∀ s l t, Inv s → m s l = some t → Inv t)
    (hstep : ∀ s l t, Inv s → P s → m s l = some t → (P t ↔ ok s l)) {s u : σ} {ls : List α}
    (h : m.run s ls = some u) (hi : Inv s) (hs : P s) : m.Throughout P s ls ↔ m.Along ok s ls :=
  have hg : m.Along (fun _ _ => True) s ls := along_of_forall_mem fun _ _ _ => trivial
  throughout_iff_along_of_guarded (fun s l t hi _ _ => hinv s l t hi)
    (fun s l t hi hs _ => hstep s l t hi hs) h hg hi hs

/-- The exactness rule without an invariant. -/
theorem throughout_iff_along {P : σ → Prop} {ok : σ → α → Prop}
    (hstep : ∀ s l t, P s → m s l = some t → (P t ↔ ok s l)) {s u : σ} {ls : List α}
    (h : m.run s ls = some u) (hs : P s) : m.Throughout P s ls ↔ m.Along ok s ls :=
  have htrue : ∀ (s : σ) (l : α) (t : σ), True → m s l = some t → True := fun _ _ _ _ _ => trivial
  throughout_iff_along_of_invariant htrue (fun s l t _ => hstep s l t) h trivial hs

end Machine
