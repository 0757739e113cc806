import Linuxpp.Foundations.Machine

/-!
# Views of a machine

A view maps the states of a machine to those of another one. The machine is simulated through it when
each of its steps is a run of the other machine between the views, of any length. A step need only be
simulated from states that are good and under a guard, and its run then meets a guard of the other
machine. What is known about the runs of the other machine is so known about the views of all states
that are reached.
-/

namespace Machine

variable {σ α τ β : Type*}

/-- Each step of `m` out of a good state that meets the guard `ok` is seen as a run of `m'` whose
steps meet `ok'`. -/
def SimulatedBy (m : Machine σ α) (m' : Machine τ β) (view : σ → τ) (Good : σ → Prop)
    (ok : σ → α → Prop) (ok' : τ → β → Prop) : Prop :=
  ∀ s l t, Good s → ok s l → m s l = some t →
    ∃ ks, m'.run (view s) ks = some (view t) ∧ m'.Along ok' (view s) ks

variable {m : Machine σ α} {m' : Machine τ β} {view : σ → τ} {Good : σ → Prop}
  {ok : σ → α → Prop} {ok' : τ → β → Prop} {s t : σ}

/-- A step that the view does not see. -/
theorem seen_as_none (h : view t = view s) :
    ∃ ks, m'.run (view s) ks = some (view t) ∧ m'.Along ok' (view s) ks :=
  ⟨[], congrArg some h.symm, trivial⟩

/-- A step that is seen as one step. -/
theorem seen_as_one {k : β} (h : m' (view s) k = some (view t)) (hok : ok' (view s) k) :
    ∃ ks, m'.run (view s) ks = some (view t) ∧ m'.Along ok' (view s) ks :=
  ⟨[k], (run_singleton _ _).trans h, hok, fun _ _ => trivial⟩

/-- A step that is seen as two steps. -/
theorem seen_as_two {k k' : β} {u : τ} (h : m' (view s) k = some u) (h' : m' u k' = some (view t))
    (hok : ok' (view s) k) (hok' : ok' u k') :
    ∃ ks, m'.run (view s) ks = some (view t) ∧ m'.Along ok' (view s) ks := by
  refine ⟨[k, k'], run_cons_eq_some.mpr ⟨u, h, (run_singleton _ _).trans h'⟩, hok, ?_⟩
  intro v hv
  obtain rfl := Option.some.inj (h.symm.trans hv)
  exact ⟨hok', fun _ _ => trivial⟩

/-- **Simulation rule.** A run whose steps meet the guard is seen as a run whose steps meet the
guard of the other machine. -/
theorem SimulatedBy.run (h : SimulatedBy m m' view Good ok ok')
    (hgood : ∀ s l t, Good s → ok s l → m s l = some t → Good t) {ls : List α}
    (hrun : m.run s ls = some t) (hok : m.Along ok s ls) (hs : Good s) :
    ∃ ks, m'.run (view s) ks = some (view t) ∧ m'.Along ok' (view s) ks := by
  induction ls generalizing s with
  | nil =>
    obtain rfl := Option.some.inj hrun
    exact ⟨[], rfl, trivial⟩
  | cons l ls ih =>
    obtain ⟨u, hl, hrun⟩ := run_cons_eq_some.mp hrun
    obtain ⟨ks, hks, halong⟩ := h s l u hs hok.1 hl
    obtain ⟨ks', hks', halong'⟩ := ih hrun (hok.2 u hl) (hgood s l u hs hok.1 hl)
    exact ⟨ks ++ ks', run_append_eq_some.mpr ⟨_, hks, hks'⟩, along_append halong hks halong'⟩

/-- A run of an interruptible machine that is not interrupted is a run of the machine. -/
theorem run_of_uninterrupted {interrupt : σ → Option σ} {ok : σ → α → Prop}
    {ks : List (Option α)} (hrun : (m.interruptible interrupt).run s ks = some t)
    (hks : (m.interruptible interrupt).Along (fun u k => ∃ l, k = some l ∧ ok u l) s ks) :
    ∃ ls, m.run s ls = some t ∧ m.Along ok s ls := by
  induction ks generalizing s with
  | nil =>
    obtain rfl := Option.some.inj hrun
    exact ⟨[], rfl, trivial⟩
  | cons k ks ih =>
    obtain ⟨⟨l, rfl, hl⟩, hrest⟩ := hks
    obtain ⟨u, hu, hrun⟩ := run_cons_eq_some.mp hrun
    have hstep : m s l = some u := hu
    obtain ⟨ls, hls, hok⟩ := ih hrun (hrest u hu)
    refine ⟨l :: ls, run_cons_eq_some.mpr ⟨u, hstep, hls⟩, hl, ?_⟩
    intro v hv
    obtain rfl := Option.some.inj (hstep.symm.trans hv)
    exact hok

/-- What a guard implies at each step is a guard too. -/
theorem Along.mono {ks : List α} (h : m.Along ok s ks) {ok'' : σ → α → Prop}
    (himp : ∀ u k, ok u k → ok'' u k) : m.Along ok'' s ks := by
  induction ks generalizing s with
  | nil => trivial
  | cons k ks ih => exact ⟨himp s k h.1, fun u hu => ih (h.2 u hu)⟩

end Machine
