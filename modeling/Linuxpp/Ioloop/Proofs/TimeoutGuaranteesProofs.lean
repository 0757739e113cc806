import Linuxpp.Ioloop.Proofs.TimeoutPassProofs

/-!
# Proofs: what the one-shot timeouts guarantee

A pass that has begun always comes to its end, it calls exactly what is due, and over a whole run no
timeout is called twice, early or after its removal. A timeout is kept until it is due only as long
as no pass reaches it before that.
-/

namespace Linuxpp.Ioloop

open SortedInsert TimeoutEvent

variable {κ : Type}

/-- The steps that `process_timeouts` takes by itself while its callbacks return. -/
def TimeoutStep.isOwn : TimeoutStep κ → Bool
  | .iterate | .callbackReturns | .finish _ => true
  | _ => false

/-- `c` gets out of the pass it is in when the callbacks return. -/
def Returns (c : TimeoutLoop κ) : Prop :=
  ∃ ls t, (∀ l ∈ ls, l.isOwn = true) ∧ timeoutStep.run c ls = some t ∧ t.point = .outside

/-- Wherever the thread is, it gets out of `process_timeouts` when the callbacks return. -/
theorem returns (c : TimeoutLoop κ) : Returns c := by
  refine Machine.exists_run_of_rank (fun c => c.point.left c.members.timeouts.length) ?_ c
  intro c hnot
  cases hp : c.point with
  | outside => exact absurd hp hnot
  | loop p =>
    refine ⟨.iterate, iteration c p, rfl, timeoutStep_iterate.mpr ⟨p, hp, rfl⟩, ?_⟩
    have hit := iterates c p
    generalize iteration c p = t at hit ⊢
    have hlt : ∀ e, c.members.timeouts[p.i]? = some e → p.i < c.members.timeouts.length :=
      fun e he => (List.getElem?_eq_some_iff.mp he).1
    cases hit with
    | atEnd => simp only [PassPoint.left]; omega
    | skip e he =>
      have hi := hlt e he
      simp only [PassPoint.left]
      omega
    | call e he =>
      have hi := hlt e he
      simp only [PassPoint.left]
      omega
    | stop => simp only [PassPoint.left]; omega
  | callback p =>
    refine ⟨.callbackReturns, _, rfl, timeoutStep_callbackReturns.mpr ⟨p, hp, rfl⟩, ?_⟩
    simp only [PassPoint.left]
    omega
  | done p =>
    have hlast := timeoutStep_finish (o := { now := p.now }).mpr ⟨p, hp, rfl⟩
    exact ⟨_, _, rfl, hlast, Nat.zero_lt_one⟩

/-- **A timeout pass invokes exactly what is due.** In every reachable state `timeouts_` is sorted,
a pass that has begun can be completed by its own steps, and a completed pass has called exactly the
due entries that were not removed before their turn, in order. Over the whole history a callback is
called at most once, not before its deadline, and not after its removal. -/
theorem timeouts_called_exactly_when_due {c : TimeoutLoop κ}
    (hc : timeoutStep.Reachable {} c) :
    SortedBy TimeoutCallback.timeout c.members.timeouts ∧ Returns c ∧
    (∀ now body o c₁, IsPass c now body o c₁ → CallsExactlyDueAt c now c₁) ∧
    (∀ handle, c.history.countP (isCallOf handle) ≤ 1) ∧
    (∀ e now e', .added e ∈ c.history → .called now e' ∈ c.history → e'.handle = e.handle →
      e' = e ∧ e.timeout ≤ now) ∧
    (∀ before now e after, c.history = before ++ .called now e :: after →
      .removed e.handle ∉ before) := by
  have hg := Good.of_reachable hc
  obtain ⟨tr, hf⟩ := follows_of_reachable hc
  refine ⟨hg.sorted, returns c, ?_, hf.called_once, ?_, ?_⟩
  · intro now body o c₁ hpass
    exact hpass.callsExactlyDueAt hg
  · intro e now e' hadded hcalled heq
    exact ⟨hg.genuine e hadded now e' hcalled heq, hf.called_due hadded hcalled heq⟩
  · intro before now e after hhist
    exact hf.not_called_after_removed hhist

/-- Two timeouts are added, for 10 and for 20. -/
def addTenAndTwenty : List (TimeoutStep Unit) :=
  [.addTimeout 10 () { now := 0 }, .addTimeout 20 () { now := 0 }]

/-- The loop of a pass that calls one entry and looks at the next. -/
def callOneLookAtNext : List (TimeoutStep Unit) := [.iterate, .callbackReturns, .iterate]

theorem timeouts_called_exactly_when_due_ten_and_twenty :
    ∃ c₀ c₁ : TimeoutLoop Unit, timeoutStep.run {} addTenAndTwenty = some c₀ ∧
      timeoutStep.run c₀ (.processTimeouts 15 :: callOneLookAtNext ++ [.finish { now := 15 }]) =
        some c₁ ∧
      CallsExactlyDueAt c₀ 15 c₁ :=
  ⟨_, _, rfl, rfl, (timeouts_called_exactly_when_due ⟨addTenAndTwenty, rfl⟩).2.2.1 15
    callOneLookAtNext { now := 15 } _ ⟨rfl, by simp [callOneLookAtNext]⟩⟩

/-- **A timeout is kept until it is due exactly if no pass reaches it before.** A pass leaves in
`timeouts_` what is not due and was not removed if and only if no iteration reaches an entry that is
neither removed nor due. In a run no pass of which does so, every timeout that was added and not
removed has been called or is stored. -/
theorem timeouts_kept_iff_none_reached_early :
    (∀ c₀ : TimeoutLoop κ, timeoutStep.Reachable {} c₀ → ∀ now body o c₁,
      IsPass c₀ now body o c₁ → (KeepsUnexpired c₀ now c₁ ↔
        timeoutStep.Along ReachesRemovedOrDue c₀ (.processTimeouts now :: body))) ∧
    (∀ ls (c : TimeoutLoop κ), timeoutStep.run {} ls = some c →
      timeoutStep.Along ReachesRemovedOrDue {} ls →
      ∀ e, .added e ∈ c.history → .removed e.handle ∉ c.history →
        (∃ now, .called now e ∈ c.history) ∨ e ∈ c.members.timeouts ∨
          e ∈ c.members.pendingTimeoutAdditions) := by
  constructor
  · intro c₀ hc₀ now body o c₁ hpass
    exact hpass.keepsUnexpired_iff (Good.of_reachable hc₀)
  · intro ls c hrun hok e hadded hremoved
    obtain ⟨tr, hf, hnone⟩ := follows_without_drops hrun hok
    rcases hf.called_or_stored (Good.of_reachable ⟨ls, hrun⟩) hnone hadded hremoved with h | h
    · exact Or.inl h
    · exact Or.inr (List.mem_append.mp (awaiting_subset_stored c h))

theorem timeouts_kept_iff_none_reached_early_ten :
    ∃ c₀ c₁ : TimeoutLoop Unit, timeoutStep.run {} [.addTimeout 10 () { now := 0 }] = some c₀ ∧
      timeoutStep.run c₀ (.processTimeouts 10 :: callOneLookAtNext ++ [.finish { now := 10 }]) =
        some c₁ ∧
      KeepsUnexpired c₀ 10 c₁ ∧ .added ⟨⟨0⟩, 10, (), false⟩ ∈ c₀.history ∧
      ⟨⟨0⟩, 10, (), false⟩ ∈ c₀.members.timeouts := by
  refine ⟨_, _, rfl, rfl, ?_, by decide, ?_⟩
  · refine (timeouts_kept_iff_none_reached_early.1 _ ⟨[.addTimeout 10 () { now := 0 }], rfl⟩ 10
      callOneLookAtNext { now := 10 } _ ⟨rfl, by simp [callOneLookAtNext]⟩).mpr ?_
    refine ⟨by simp [ReachesRemovedOrDue], fun t ht => ?_⟩
    obtain rfl := Option.some.inj ht
    refine ⟨?_, fun t ht => ?_⟩
    · rintro - p e hp he
      obtain rfl := PassPoint.loop.inj hp
      obtain rfl := Option.some.inj he
      exact Or.inr (by decide)
    obtain rfl := Option.some.inj ht
    refine ⟨by simp [ReachesRemovedOrDue], fun t ht => ?_⟩
    obtain rfl := Option.some.inj ht
    refine ⟨?_, fun _ _ => trivial⟩
    rintro - p e hp he
    obtain rfl := PassPoint.loop.inj hp
    have hnone : none = some e := he
    exact absurd hnone (by simp)
  · have hkept := timeouts_kept_iff_none_reached_early.2 [.addTimeout 10 () { now := 0 }] _ rfl
      ⟨by simp [ReachesRemovedOrDue], fun _ _ => trivial⟩ ⟨⟨0⟩, 10, (), false⟩ (by decide)
      (by decide)
    rcases hkept with ⟨now, hcalled⟩ | hin | hin
    · exact absurd hcalled (by simp)
    · exact hin
    · exact absurd hin (by decide)

/-- The pass at 10 erases the timeout for 20 together with the one it calls. -/
theorem unexpired_timeout_lost :
    ∃ c₀ c₁ : TimeoutLoop Unit, timeoutStep.run {} addTenAndTwenty = some c₀ ∧
      timeoutStep.run c₀ (.processTimeouts 10 :: callOneLookAtNext ++ [.finish { now := 10 }]) =
        some c₁ ∧
      ¬ KeepsUnexpired c₀ 10 c₁ ∧ c₁.members.timeouts = [] ∧
      c₁.members.pendingTimeoutAdditions = [] ∧
      c₁.history = [.added ⟨⟨0⟩, 10, (), false⟩, .added ⟨⟨1⟩, 20, (), false⟩,
        .called 10 ⟨⟨0⟩, 10, (), false⟩] := by
  refine ⟨_, _, rfl, rfl, fun hkeeps => ?_, rfl, rfl, rfl⟩
  have hmem := (hkeeps.mem ⟨⟨1⟩, 20, (), false⟩).mpr
  revert hmem
  decide

end Linuxpp.Ioloop
