import Linuxpp.Ioloop.Proofs.PeriodicPassProofs

/-!
# Proofs: what the periodic timeouts guarantee

Every reachable state is idle or inside one pass that an idle state began. A pass that has begun can
always be completed by its own steps. A completed pass has called exactly what was due, and it keeps
every entry that was not removed, those that it called with their next deadlines.
-/

namespace Linuxpp.Ioloop

open SortedInsert SortOrder DueWalk

variable {κ : Type}

section Runs

variable {c₀ c c₁ t : PeriodicTimeoutLoop κ} {now₁ now₂ : TimeType}
  {body : List (PeriodicTimeoutStep κ)} {order : List ℕ} {o : SettimeOutcome}

/-- Every reachable state is idle or inside a pass. -/
def IdleOrInPass (c : PeriodicTimeoutLoop κ) : Prop :=
  Idle c ∨ ∃ c₀ now evs, InPeriodicPass c₀ now evs c

theorem Idle.step (h : Idle c) {l : PeriodicTimeoutStep κ} (hl : periodicTimeoutStep c l = some t) :
    IdleOrInPass t := by
  have hpoint := h.point
  cases l with
  | addPeriodicTimeout period callback now o =>
    obtain ⟨-, rfl⟩ := periodicTimeoutStep_addPeriodicTimeout.mp hl
    exact Or.inl (h.addPeriodicTimeout period callback now o _)
  | removeTimeout handle =>
    obtain ⟨-, members, hremove, rfl⟩ := periodicTimeoutStep_removeTimeout.mp hl
    exact Or.inl (h.removeTimeout hremove _)
  | periodicTimeoutHandle =>
    obtain ⟨-, rfl⟩ := periodicTimeoutStep_periodicTimeoutHandle.mp hl
    exact Or.inl { h with made := fun e he => Nat.lt_succ_of_lt (h.made e he) }
  | processPeriodicTimeouts now =>
    obtain ⟨-, rfl⟩ := periodicTimeoutStep_processPeriodicTimeouts.mp hl
    exact Or.inr ⟨c, now, [], h.beginPass now⟩
  | iterate =>
    obtain ⟨p, hp, -⟩ := periodicTimeoutStep_iterate.mp hl
    simp [hpoint] at hp
  | callbackReturns =>
    obtain ⟨p, hp, -⟩ := periodicTimeoutStep_callbackReturns.mp hl
    simp [hpoint] at hp
  | finish now order o =>
    obtain ⟨p, hp, -⟩ := periodicTimeoutStep_finish.mp hl
    simp [hpoint] at hp

theorem IdleOrInPass.step (h : IdleOrInPass c) {l : PeriodicTimeoutStep κ}
    (hl : periodicTimeoutStep c l = some t) : IdleOrInPass t := by
  rcases h with h | ⟨c₀, now, evs, h⟩
  · exact h.step hl
  · by_cases hlast : ∃ now order o, l = .finish now order o
    · obtain ⟨now', order, o, rfl⟩ := hlast
      obtain ⟨p, hp, horder, rfl⟩ := periodicTimeoutStep_finish.mp hl
      exact Or.inl (h.finish hp horder).1
    · push Not at hlast
      obtain ⟨evs', h'⟩ := h.step hl hlast
      exact Or.inr ⟨c₀, now, evs', h'⟩

theorem idleOrInPass_of_reachable (hc : periodicTimeoutStep.Reachable {} c) : IdleOrInPass c :=
  hc.invariant (fun _ _ _ h hl => h.step hl) (Or.inl idle_init)

/-- A pass begins in an idle state, and the loop of the pass leads to its last step. -/
theorem IsPeriodicPass.before_finish (h : IsPeriodicPass c₀ now₁ body now₂ order o c₁)
    (hc₀ : IdleOrInPass c₀) : ∃ evs c p, InPeriodicPass c₀ now₁ evs c ∧ c.point = .done p ∧
      IsSortOrder PeriodicTimeoutCallback.timeout (c.members.rescheduled now₂) order ∧
      { c with members := (c.members.endPass p now₂ order o).2, point := .outside } = c₁ := by
  obtain ⟨c, hbody, hlast⟩ := Machine.run_append_eq_some.mp h.run
  obtain ⟨s, hbegin, hbody⟩ := Machine.run_cons_eq_some.mp hbody
  rw [Machine.run_singleton] at hlast
  obtain ⟨hout, rfl⟩ := periodicTimeoutStep_processPeriodicTimeouts.mp hbegin
  have hidle : Idle c₀ := by
    rcases hc₀ with hidle | ⟨c, now, evs, hin⟩
    · exact hidle
    · have hwalk := hin.walk
      rw [hout] at hwalk
      exact hwalk.elim
  have hstep : ∀ s l t, (∃ evs, InPeriodicPass c₀ now₁ evs s) →
      (∀ now order o, l ≠ .finish now order o) → periodicTimeoutStep s l = some t →
      ∃ evs, InPeriodicPass c₀ now₁ evs t := by
    rintro s l t ⟨evs, hin⟩ hne hl
    exact hin.step hl hne
  have halong : ∀ s, periodicTimeoutStep.Along (fun _ l => ∀ now order o, l ≠ .finish now order o)
      s body :=
    fun s => Machine.along_of_forall_mem fun _ l hl now order o heq => h.one now order o (heq ▸ hl)
  obtain ⟨evs, hin⟩ := Machine.run_invariant_along hstep hbody (halong _) ⟨[], hidle.beginPass now₁⟩
  obtain ⟨p, hp, horder, heq⟩ := periodicTimeoutStep_finish.mp hlast
  exact ⟨evs, c, p, hin, hp, horder, heq⟩

end Runs

/-- The steps that `process_periodic_timeouts` takes by itself while its callbacks return. -/
def PeriodicTimeoutStep.isOwn : PeriodicTimeoutStep κ → Bool
  | .iterate | .callbackReturns | .finish _ _ _ => true
  | _ => false

/-- `c` gets out of the pass it is in when the callbacks return. -/
def PeriodicReturns (c : PeriodicTimeoutLoop κ) : Prop :=
  ∃ ls t, (∀ l ∈ ls, l.isOwn = true) ∧ periodicTimeoutStep.run c ls = some t ∧ t.point = .outside

/-- Wherever the thread is, it gets out of `process_periodic_timeouts` when the callbacks return. -/
theorem periodicReturns (c : PeriodicTimeoutLoop κ) : PeriodicReturns c := by
  refine Machine.exists_run_of_rank
    (fun c => c.point.left c.members.periodicTimeouts.length) ?_ c
  intro c hnot
  cases hp : c.point with
  | outside => exact absurd hp hnot
  | loop p =>
    refine ⟨.iterate, periodicIteration c p, rfl, periodicTimeoutStep_iterate.mpr ⟨p, hp, rfl⟩, ?_⟩
    have hit := periodicIterates c p
    generalize periodicIteration c p = t at hit ⊢
    have hlt : ∀ e, c.members.periodicTimeouts[p.i]? = some e →
        p.i < c.members.periodicTimeouts.length := fun e he => (List.getElem?_eq_some_iff.mp he).1
    cases hit with
    | atEnd => simp only [PassPoint.left]; omega
    | skip e he =>
      have hi := hlt e he
      simp only [PassPoint.left]
      omega
    | call e he =>
      have hi := hlt e he
      simp only [PassPoint.left, List.length_set]
      omega
    | stop => simp only [PassPoint.left]; omega
  | callback p =>
    refine ⟨.callbackReturns, _, rfl, periodicTimeoutStep_callbackReturns.mpr ⟨p, hp, rfl⟩, ?_⟩
    simp only [PassPoint.left]
    omega
  | done p =>
    obtain ⟨order, horder⟩ := exists_isSortOrder PeriodicTimeoutCallback.timeout
      (c.members.rescheduled p.now)
    have hlast := periodicTimeoutStep_finish (o := { now := p.now }).mpr ⟨p, hp, horder, rfl⟩
    exact ⟨_, _, rfl, hlast, Nat.zero_lt_one⟩

/-- **A periodic pass reschedules every timeout once and loses none.** In every reachable state a
pass that has begun can be completed by its own steps. A completed pass has called exactly the due
entries that were not removed before their turn, each once and in order, and leaves exactly the
entries that were not removed, those that it called with their next deadlines, and those that were
added. -/
theorem periodic_timeouts_called_and_rescheduled {c : PeriodicTimeoutLoop κ}
    (hc : periodicTimeoutStep.Reachable {} c) : PeriodicReturns c ∧
    ∀ now₁ body now₂ order o c₁, IsPeriodicPass c now₁ body now₂ order o c₁ →
      CallsExactlyDue PeriodicTimeoutCallback.handle PeriodicTimeoutCallback.timeout
        c.members.periodicTimeouts now₁ (c.eventsUntil c₁) ∧
      (calls (c.eventsUntil c₁)).Nodup ∧ Reschedules c now₂ c₁ := by
  refine ⟨periodicReturns c, ?_⟩
  intro now₁ body now₂ order o c₁ hpass
  obtain ⟨evs, s, p, hin, hp, horder, heq⟩ := hpass.before_finish (idleOrInPass_of_reachable hc)
  have hevents : c.eventsUntil c₁ = evs := hin.eventsUntil_eq (heq ▸ rfl)
  have hwalk := hin.walk
  rw [hp] at hwalk
  have hexact := hwalk.2.1.callsExactlyDue hin.idle.sorted hwalk.2.2
  rw [hevents]
  exact ⟨hexact, hexact.order.nodup hin.idle.distinct.of_map, heq ▸ (hin.finish hp horder).2⟩

/-- The callback of the timeout for every 4 adds one for every 1 and removes the one for every
10. -/
theorem periodic_timeouts_called_and_rescheduled_four_and_ten :
    ∃ c c₁ : PeriodicTimeoutLoop Unit,
      periodicTimeoutStep.run {} [.addPeriodicTimeout 10 () 0 { now := 0 },
        .addPeriodicTimeout 4 () 0 { now := 0 }] = some c ∧
      c₁.members.periodicTimeouts = [{ handle := ⟨2⟩, period := 1, timeout := 6, callback := () },
        { handle := ⟨1⟩, period := 4, timeout := 10, callback := () }] ∧
      Reschedules c 6 c₁ := by
  have hpass := (periodic_timeouts_called_and_rescheduled (κ := Unit)
    ⟨[.addPeriodicTimeout 10 () 0 { now := 0 }, .addPeriodicTimeout 4 () 0 { now := 0 }], rfl⟩).2 5
    [.iterate, .addPeriodicTimeout 1 () 5 { now := 5 }, .removeTimeout ⟨0⟩, .callbackReturns, .iterate,
      .iterate] 6 [0] { now := 6 } _ ⟨rfl, by simp⟩
  exact ⟨_, _, rfl, rfl, hpass.2.2⟩

end Linuxpp.Ioloop
