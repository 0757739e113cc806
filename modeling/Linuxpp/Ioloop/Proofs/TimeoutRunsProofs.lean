import Linuxpp.Ioloop.TimeoutPasses
import Linuxpp.Ioloop.Proofs.TimeoutsProofs

/-!
# Proofs: the one-shot timeouts follow a trace of alarms

Every step of the loop extends an admissible trace whose live alarms are the entries still to be
called. Only an iteration that reaches an entry which is neither removed nor due drops an alarm.
-/

namespace Linuxpp.Ioloop

open SortedInsert TimeoutEvent

variable {κ : Type}

theorem awaiting_subset_stored (c : TimeoutLoop κ) : c.awaiting ⊆ c.members.stored := by
  intro e he
  rcases List.mem_append.mp he with he | he
  · exact List.mem_append_right _ he
  · exact List.mem_append_left _ (List.mem_of_mem_drop (List.mem_of_mem_filter he))

theorem mem_awaiting {c : TimeoutLoop κ} {e : TimeoutCallback κ} : e ∈ c.awaiting ↔
    e ∈ c.members.pendingTimeoutAdditions ∨
      e ∈ c.members.timeouts.drop c.point.reached ∧ e.remove = false := by
  simp [TimeoutLoop.awaiting]

/-- A handle names at most one stored entry. -/
theorem Good.eq_of_handle_eq {c : TimeoutLoop κ} (h : Good c) {e e' : TimeoutCallback κ}
    (he : e ∈ c.members.stored) (he' : e' ∈ c.members.stored) (heq : e.handle = e'.handle) :
    e = e' :=
  List.inj_on_of_nodup_map h.distinct he he' heq

/-- `tr` is a trace of alarms for the history of the loop, and its live alarms are the entries that
are still to be called. -/
structure Follows (tr : List (AlarmEvent TimeoutHandle TimeType)) (c : TimeoutLoop κ) : Prop where
  admissible : Alarms.Admissible tr
  visible : tr.filter (fun ev => !ev.isDrop) = c.history.map alarm
  made : ∀ ev ∈ tr, ev.name.id < c.members.nextId
  live : ∀ handle d, Alarms.live tr handle = some d ↔
    ∃ e ∈ c.awaiting, e.handle = handle ∧ e.timeout = d

theorem follows_init : Follows [] ({} : TimeoutLoop κ) where
  admissible := Alarms.admissible_nil
  visible := rfl
  made := by simp
  live := by simp [TimeoutLoop.awaiting]

section Extend

variable {tr : List (AlarmEvent TimeoutHandle TimeType)} {c t : TimeoutLoop κ}

/-- A step after which the same entries are awaiting. -/
theorem Follows.same (h : Follows tr c) (hmem : ∀ e, e ∈ t.awaiting ↔ e ∈ c.awaiting)
    (hhist : t.history = c.history) (hnext : c.members.nextId ≤ t.members.nextId) :
    Follows tr t where
  admissible := h.admissible
  visible := by rw [hhist, h.visible]
  made := fun ev hev => (h.made ev hev).trans_le hnext
  live := by simpa only [hmem] using h.live

/-- A step that adds an entry under a new handle. -/
theorem Follows.set (h : Follows tr c) (hg : Good c) {e₀ : TimeoutCallback κ}
    (hmem : ∀ e, e ∈ t.awaiting ↔ e = e₀ ∨ e ∈ c.awaiting) (hid : e₀.handle.id = c.members.nextId)
    (hhist : t.history = c.history ++ [.added e₀])
    (hnext : t.members.nextId = c.members.nextId + 1) :
    Follows (tr ++ [.set e₀.handle e₀.timeout]) t := by
  have hnew : ∀ e ∈ c.awaiting, e.handle ≠ e₀.handle := by
    intro e he heq
    have hlt := hg.made _ (List.mem_map_of_mem (awaiting_subset_stored c he))
    rw [heq, hid] at hlt
    exact hlt.false
  constructor
  case admissible =>
    refine Alarms.admissible_snoc.mpr ⟨h.admissible, fun ev hev hname => ?_⟩
    have hlt := h.made ev hev
    rw [hname, hid] at hlt
    exact hlt.false
  case visible =>
    rw [List.filter_append, h.visible, hhist, List.map_append]
    rfl
  case made =>
    intro ev hev
    rw [hnext]
    rcases List.mem_append.mp hev with hev | hev
    · exact Nat.lt_succ_of_lt (h.made ev hev)
    · obtain rfl := List.mem_singleton.mp hev
      exact hid.trans_lt (Nat.lt_succ_self _)
  case live =>
    intro handle d
    rw [Alarms.live_snoc, Alarms.update]
    by_cases hh : handle = e₀.handle
    · subst hh
      simp only [Function.update_self, Option.some.injEq, hmem]
      constructor
      · rintro rfl
        exact ⟨e₀, Or.inl rfl, rfl, rfl⟩
      · rintro ⟨e, rfl | he, heq, rfl⟩
        · rfl
        · exact absurd heq (hnew e he)
    · rw [Function.update_of_ne hh, h.live]
      simp only [hmem]
      constructor
      · rintro ⟨e, he, heq⟩
        exact ⟨e, Or.inr he, heq⟩
      · rintro ⟨e, rfl | he, heq⟩
        · exact absurd heq.1.symm hh
        · exact ⟨e, he, heq⟩

/-- A step that ends at most the entry with one handle. -/
theorem Follows.ended (h : Follows tr c) {ev : AlarmEvent TimeoutHandle TimeType}
    (hends : ∀ live : TimeoutHandle → Option TimeType,
      Alarms.update live ev = Function.update live ev.name none)
    (hallowed : Alarms.Allowed tr ev) (hid : ev.name.id < c.members.nextId)
    (hmem : ∀ e, e ∈ t.awaiting ↔ e ∈ c.awaiting ∧ e.handle ≠ ev.name)
    (hhist : t.history.map alarm = c.history.map alarm ++ [ev].filter fun ev => !ev.isDrop)
    (hnext : t.members.nextId = c.members.nextId) : Follows (tr ++ [ev]) t := by
  constructor
  case admissible => exact Alarms.admissible_snoc.mpr ⟨h.admissible, hallowed⟩
  case visible => rw [List.filter_append, h.visible, hhist]
  case made =>
    intro ev' hev
    rw [hnext]
    rcases List.mem_append.mp hev with hev | hev
    · exact h.made ev' hev
    · obtain rfl := List.mem_singleton.mp hev
      exact hid
  case live =>
    intro handle d
    rw [Alarms.live_snoc, hends]
    by_cases hh : handle = ev.name
    · subst hh
      rw [Function.update_self]
      constructor
      · intro hnone
        exact absurd hnone (by simp)
      · rintro ⟨e, he, heq, -⟩
        exact absurd heq ((hmem e).mp he).2
    · rw [Function.update_of_ne hh, h.live]
      constructor
      · rintro ⟨e, he, rfl, hd⟩
        exact ⟨e, (hmem e).mpr ⟨he, hh⟩, rfl, hd⟩
      · rintro ⟨e, he, heq⟩
        exact ⟨e, ((hmem e).mp he).1, heq⟩

end Extend

section Awaiting

variable {c : TimeoutLoop κ}

theorem mem_awaiting_addTimeout (h : Good c) (huser : c.point.userCode = true)
    {timeout : TimeType} {callback : κ} {o : SettimeOutcome} {e : TimeoutCallback κ}
    {history : List (TimeoutEvent κ)} :
    e ∈ ({ c with
      members := (c.members.addTimeout timeout callback o).2
      history := history } : TimeoutLoop κ).awaiting ↔
      e = c.members.newEntry timeout callback ∨ e ∈ c.awaiting := by
  have hpoint := h.point
  obtain ⟨timer, ht⟩ := c.members.addTimeout_members timeout callback o
  rw [mem_awaiting, mem_awaiting, ht]
  rcases PassPoint.userCode_iff.mp huser with hp | ⟨p, hp⟩
  · rw [hp] at hpoint ⊢
    simp only [hpoint.1, hpoint.2.1, PassPoint.reached, List.drop_zero, Bool.false_eq_true,
      if_false, mem_insertLower, List.not_mem_nil, false_or]
    constructor
    · rintro ⟨rfl | he, hflag⟩
      · exact Or.inl rfl
      · exact Or.inr ⟨he, hflag⟩
    · rintro (rfl | ⟨he, hflag⟩)
      · exact ⟨Or.inl rfl, rfl⟩
      · exact ⟨Or.inr he, hflag⟩
  · rw [hp] at hpoint ⊢
    simp only [hpoint.1, if_true, List.mem_append, List.mem_singleton]
    tauto

theorem mem_awaiting_removeTimeout (h : Good c) (huser : c.point.userCode = true)
    {handle : TimeoutHandle} {e : TimeoutCallback κ} {history : List (TimeoutEvent κ)} :
    e ∈ ({ c with
      members := c.members.removeTimeout handle
      history := history } : TimeoutLoop κ).awaiting ↔ e ∈ c.awaiting ∧ e.handle ≠ handle := by
  have hpoint := h.point
  rw [mem_awaiting, mem_awaiting, Timeouts.removeTimeout_members h.distinct]
  rcases PassPoint.userCode_iff.mp huser with hp | ⟨p, hp⟩
  · rw [hp] at hpoint ⊢
    simp only [hpoint.1, PassPoint.reached, List.drop_zero, Bool.false_eq_true, if_false,
      List.mem_filter, decide_eq_true_eq]
    tauto
  · rw [hp] at hpoint ⊢
    simp only [hpoint.1, if_true, PassPoint.reached, List.mem_filter, decide_eq_true_eq,
      ← List.map_drop, List.mem_map]
    constructor
    · rintro (⟨he, hne⟩ | ⟨⟨e', he', rfl⟩, hflag⟩)
      · exact ⟨Or.inl he, hne⟩
      · by_cases hh : e'.handle = handle
        · simp [hh] at hflag
        · simp only [hh, if_false] at hflag ⊢
          exact ⟨Or.inr ⟨he', hflag⟩, hh⟩
    · rintro ⟨he | ⟨he, hflag⟩, hne⟩
      · exact Or.inl ⟨he, hne⟩
      · exact Or.inr ⟨⟨e, he, by rw [if_neg hne]⟩, hflag⟩

theorem drop_eq_cons {α : Type*} {xs : List α} {i : ℕ} {x : α} (h : xs[i]? = some x) :
    xs.drop i = x :: xs.drop (i + 1) := by
  obtain ⟨hlt, rfl⟩ := List.getElem?_eq_some_iff.mp h
  exact List.drop_eq_getElem_cons hlt

/-- No entry behind position `i` has the handle of the entry at position `i`. -/
theorem Good.handle_ne_of_behind (h : Good c) {i : ℕ} {e e' : TimeoutCallback κ}
    (he : c.members.timeouts[i]? = some e)
    (he' : e' ∈ c.members.pendingTimeoutAdditions ∨ e' ∈ c.members.timeouts.drop (i + 1)) :
    e'.handle ≠ e.handle := by
  have hsub : (e :: (c.members.timeouts.drop (i + 1) ++ c.members.pendingTimeoutAdditions)).Sublist
      c.members.stored := by
    rw [← List.cons_append, ← drop_eq_cons he]
    exact (List.drop_sublist _ _).append_right _
  have hnodup := (hsub.map TimeoutCallback.handle).nodup h.distinct
  rw [List.map_cons, List.nodup_cons] at hnodup
  intro heq
  refine hnodup.1 (heq ▸ List.mem_map_of_mem ?_)
  exact List.mem_append.mpr he'.symm

/-- When an iteration goes by an entry, that entry stops awaiting, and no other does. -/
theorem mem_awaiting_pass_by (h : Good c) {p : Pass} (hp : c.point = .loop p)
    {e₀ : TimeoutCallback κ} (he₀ : c.members.timeouts[p.i]? = some e₀) (point : PassPoint)
    (hreached : point.reached = p.i + 1) (history : List (TimeoutEvent κ)) (e : TimeoutCallback κ) :
    e ∈ ({ c with point := point, history := history } : TimeoutLoop κ).awaiting ↔
      e ∈ c.awaiting ∧ e.handle ≠ e₀.handle := by
  have hbehind : e ∈ c.members.pendingTimeoutAdditions ∨ e ∈ c.members.timeouts.drop (p.i + 1) →
      e.handle ≠ e₀.handle := h.handle_ne_of_behind he₀
  rw [mem_awaiting, mem_awaiting, hp, hreached, PassPoint.reached, drop_eq_cons he₀]
  constructor
  · rintro (he | ⟨he, hflag⟩)
    · exact ⟨Or.inl he, hbehind (Or.inl he)⟩
    · exact ⟨Or.inr ⟨List.mem_cons_of_mem _ he, hflag⟩, hbehind (Or.inr he)⟩
  · rintro ⟨he | ⟨he, hflag⟩, hne⟩
    · exact Or.inl he
    · rcases List.mem_cons.mp he with rfl | he
      · exact absurd rfl hne
      · exact Or.inr ⟨he, hflag⟩

theorem mem_awaiting_finish (h : Good c) {p : Pass} (hp : c.point = .done p) {o : SettimeOutcome}
    {e : TimeoutCallback κ} :
    e ∈ ({ c with
      members := (c.members.endPass p o).2, point := .outside } : TimeoutLoop κ).awaiting ↔
      e ∈ c.awaiting := by
  obtain ⟨timer, ht⟩ := c.members.endPass_members p o
  rw [mem_awaiting, mem_awaiting, hp, ht]
  simp only [PassPoint.reached, List.drop_zero, Timeouts.mem_merged, List.not_mem_nil, false_or]
  constructor
  · rintro ⟨he | he, -⟩
    · exact Or.inl he
    · exact Or.inr he
  · rintro (he | he)
    · exact ⟨Or.inl he, h.unflagged e he⟩
    · exact ⟨Or.inr he, he.2⟩

end Awaiting

section Step

variable {tr : List (AlarmEvent TimeoutHandle TimeType)} {c t : TimeoutLoop κ}

/-- An iteration fires the alarm it calls, and drops the alarm at which it stops. -/
theorem Follows.iteration (h : Follows tr c) (hg : Good c) {p : Pass} (hp : c.point = .loop p) :
    ∃ ext, Follows (tr ++ ext) (iteration c p) ∧
      (ReachesRemovedOrDue c .iterate → ∀ ev ∈ ext, ev.isDrop = false) := by
  have hit := iterates c p
  generalize Ioloop.iteration c p = t at hit ⊢
  have hid : ∀ e, c.members.timeouts[p.i]? = some e → e.handle.id < c.members.nextId :=
    fun e he => hg.made _ (List.mem_map_of_mem
      (List.mem_append_left _ (List.mem_of_getElem? he)))
  cases hit with
  | atEnd =>
    refine ⟨[], ?_, by simp⟩
    rw [List.append_nil]
    refine h.same (fun e => ?_) rfl le_rfl
    rw [mem_awaiting, mem_awaiting, hp]
    rfl
  | skip e₀ he hflag =>
    -- a flagged entry was not awaiting
    refine ⟨[], ?_, by simp⟩
    rw [List.append_nil]
    refine h.same (fun e => ?_) rfl le_rfl
    have hpass := mem_awaiting_pass_by hg hp he (.loop { p with i := p.i + 1 }) rfl c.history e
    rw [hpass, and_iff_left_iff_imp]
    rintro hin heq
    obtain rfl := hg.eq_of_handle_eq (awaiting_subset_stored c hin)
      (List.mem_append_left _ (List.mem_of_getElem? he)) heq
    rcases mem_awaiting.mp hin with hin | hin
    · exact absurd (hg.unflagged _ hin) (by simp [hflag])
    · exact absurd hin.2 (by simp [hflag])
  | call e₀ he hflag hdue =>
    refine ⟨[.fire e₀.handle p.now], ?_, by simp [AlarmEvent.isDrop]⟩
    refine h.ended (fun _ => rfl) ⟨e₀.timeout, (h.live _ _).mpr ⟨e₀, ?_, rfl, rfl⟩, hdue⟩
      (hid e₀ he) (fun e => mem_awaiting_pass_by hg hp he _ rfl _ e) ?_ rfl
    · rw [mem_awaiting, hp, PassPoint.reached, drop_eq_cons he]
      exact Or.inr ⟨List.mem_cons_self, hflag⟩
    · rw [List.map_append]
      rfl
  | stop e₀ he hflag hlater =>
    refine ⟨[.drop e₀.handle], ?_, fun hok => ?_⟩
    · exact h.ended (fun _ => rfl) trivial (hid e₀ he)
        (fun e => mem_awaiting_pass_by hg hp he _ rfl _ e) (by simp [AlarmEvent.isDrop]) rfl
    · rcases hok rfl p e₀ hp he with hrem | hle
      · exact absurd hrem (by simp [hflag])
      · exact absurd hle (not_le.mpr hlater)

/-- Every step extends the trace, without a drop if it is not an iteration that reaches an entry
which is neither removed nor due. -/
theorem Follows.step (h : Follows tr c) (hg : Good c) {l : TimeoutStep κ}
    (hl : timeoutStep c l = some t) : ∃ ext, Follows (tr ++ ext) t ∧
      (ReachesRemovedOrDue c l → ∀ ev ∈ ext, ev.isDrop = false) := by
  cases l with
  | addTimeout timeout callback o =>
    obtain ⟨huser, rfl⟩ := timeoutStep_addTimeout.mp hl
    obtain ⟨timer, ht⟩ := c.members.addTimeout_members timeout callback o
    refine ⟨[.set _ _], h.set hg (fun e => mem_awaiting_addTimeout hg huser) rfl rfl ?_, ?_⟩
    · rw [ht]
    · simp [AlarmEvent.isDrop]
  | removeTimeout handle =>
    obtain ⟨⟨huser, hmade⟩, rfl⟩ := timeoutStep_removeTimeout.mp hl
    refine ⟨[.cancel handle], ?_, by simp [AlarmEvent.isDrop]⟩
    refine h.ended (fun _ => rfl) trivial hmade
      (fun e => mem_awaiting_removeTimeout hg huser) ?_ ?_
    · rw [List.map_append]
      rfl
    · rw [Timeouts.removeTimeout_members hg.distinct]
  | timeoutHandle =>
    obtain ⟨-, rfl⟩ := timeoutStep_timeoutHandle.mp hl
    refine ⟨[], ?_, by simp⟩
    rw [List.append_nil]
    exact h.same (fun e => Iff.rfl) rfl (Nat.le_succ _)
  | processTimeouts now =>
    obtain ⟨hp, rfl⟩ := timeoutStep_processTimeouts.mp hl
    refine ⟨[], ?_, by simp⟩
    rw [List.append_nil]
    refine h.same (fun e => ?_) rfl le_rfl
    rw [mem_awaiting, mem_awaiting, hp]
    rfl
  | iterate =>
    obtain ⟨p, hp, rfl⟩ := timeoutStep_iterate.mp hl
    exact h.iteration hg hp
  | callbackReturns =>
    obtain ⟨p, hp, rfl⟩ := timeoutStep_callbackReturns.mp hl
    refine ⟨[], ?_, by simp⟩
    rw [List.append_nil]
    refine h.same (fun e => ?_) rfl le_rfl
    rw [mem_awaiting, mem_awaiting, hp]
    rfl
  | finish o =>
    obtain ⟨p, hp, rfl⟩ := timeoutStep_finish.mp hl
    obtain ⟨timer, ht⟩ := c.members.endPass_members p o
    refine ⟨[], ?_, by simp⟩
    rw [List.append_nil]
    refine h.same (fun e => mem_awaiting_finish hg hp) rfl ?_
    rw [ht]

end Step

/-- Every reachable state follows an admissible trace of alarms. -/
theorem follows_of_reachable {c : TimeoutLoop κ} (hc : timeoutStep.Reachable {} c) :
    ∃ tr, Follows tr c := by
  have hstep : ∀ (s : TimeoutLoop κ) l t, (Good s ∧ ∃ tr, Follows tr s) →
      timeoutStep s l = some t → Good t ∧ ∃ tr, Follows tr t := by
    rintro s l t ⟨hg, tr, h⟩ hl
    obtain ⟨ext, hext, -⟩ := h.step hg hl
    exact ⟨hg.step hl, tr ++ ext, hext⟩
  exact (hc.invariant hstep ⟨good_init, [], follows_init⟩).2

/-- A run no iteration of which reaches an entry that is neither removed nor due follows an
admissible trace without drops. -/
theorem follows_without_drops {c : TimeoutLoop κ} {ls : List (TimeoutStep κ)}
    (hrun : timeoutStep.run {} ls = some c) (hok : timeoutStep.Along ReachesRemovedOrDue {} ls) :
    ∃ tr, Follows tr c ∧ ∀ ev ∈ tr, ev.isDrop = false := by
  have hstep : ∀ (s : TimeoutLoop κ) l t,
      (Good s ∧ ∃ tr, Follows tr s ∧ ∀ ev ∈ tr, ev.isDrop = false) → ReachesRemovedOrDue s l →
      timeoutStep s l = some t → Good t ∧ ∃ tr, Follows tr t ∧ ∀ ev ∈ tr, ev.isDrop = false := by
    rintro s l t ⟨hg, tr, h, hnone⟩ hokl hl
    obtain ⟨ext, hext, hdrop⟩ := h.step hg hl
    refine ⟨hg.step hl, tr ++ ext, hext, fun ev hev => ?_⟩
    rcases List.mem_append.mp hev with hev | hev
    · exact hnone ev hev
    · exact hdrop hokl ev hev
  exact (Machine.run_invariant_along hstep hrun hok ⟨good_init, [], follows_init, by simp⟩).2

section History

variable {tr : List (AlarmEvent TimeoutHandle TimeType)} {c : TimeoutLoop κ}

theorem Follows.alarm_mem (h : Follows tr c) {ev : TimeoutEvent κ} (hev : ev ∈ c.history) :
    ev.alarm ∈ tr := by
  have hin : ev.alarm ∈ tr.filter fun ev => !ev.isDrop := h.visible ▸ List.mem_map_of_mem hev
  exact List.mem_of_mem_filter hin

/-- A callback is called at most once. -/
theorem Follows.called_once (h : Follows tr c) (handle : TimeoutHandle) :
    c.history.countP (isCallOf handle) ≤ 1 := by
  have hfires : ∀ ev : TimeoutEvent κ, isCallOf handle ev = ev.alarm.fires handle := by
    intro ev
    cases ev <;> rfl
  calc c.history.countP (isCallOf handle)
      = (c.history.map alarm).countP (AlarmEvent.fires handle) := by
        rw [List.countP_map]
        exact List.countP_congr fun ev _ => by rw [hfires, Function.comp_apply]
    _ = (tr.filter fun ev => !ev.isDrop).countP (AlarmEvent.fires handle) := by rw [h.visible]
    _ ≤ tr.countP (AlarmEvent.fires handle) := List.filter_sublist.countP_le
    _ ≤ 1 := h.admissible.fire_once handle

/-- No callback is called before the deadline it was added with. -/
theorem Follows.called_due (h : Follows tr c) {e e' : TimeoutCallback κ} {now : TimeType}
    (hadded : .added e ∈ c.history) (hcalled : .called now e' ∈ c.history)
    (heq : e'.handle = e.handle) : e.timeout ≤ now := by
  have hset : AlarmEvent.set e.handle e.timeout ∈ tr := h.alarm_mem hadded
  have hfire : AlarmEvent.fire e'.handle now ∈ tr := h.alarm_mem hcalled
  exact h.admissible.fire_due hset (heq ▸ hfire)

/-- No callback is called after its handle was removed. -/
theorem Follows.not_called_after_removed (h : Follows tr c) {before after : List (TimeoutEvent κ)}
    {now : TimeType} {e : TimeoutCallback κ}
    (hhist : c.history = before ++ .called now e :: after) : .removed e.handle ∉ before := by
  have hvis := h.visible
  rw [hhist, List.map_append, List.map_cons, List.filter_eq_append_iff] at hvis
  obtain ⟨tr₁, tr₂, rfl, hbefore, hrest⟩ := hvis
  obtain ⟨tr₃, tr₄, rfl, hdrops, -, -⟩ := List.filter_eq_cons_iff.mp hrest
  have hsplit : tr₁ ++ (tr₃ ++ (TimeoutEvent.called now e).alarm :: tr₄) =
      (tr₁ ++ tr₃) ++ .fire e.handle now :: tr₄ := by
    rw [List.append_assoc]
    rfl
  have hcancel := (h.admissible.not_ended_before_fire hsplit).1
  intro hin
  refine hcancel (List.mem_append_left _ ?_)
  have hin' : (TimeoutEvent.removed e.handle : TimeoutEvent κ).alarm ∈ before.map alarm :=
    List.mem_map_of_mem hin
  rw [← hbefore] at hin'
  exact List.mem_of_mem_filter hin'

/-- Without drops, an entry that was added and not removed was called or is still awaiting. -/
theorem Follows.called_or_stored (h : Follows tr c) (hg : Good c)
    (hnone : ∀ ev ∈ tr, ev.isDrop = false) {e : TimeoutCallback κ} (hadded : .added e ∈ c.history)
    (hremoved : .removed e.handle ∉ c.history) :
    (∃ now, .called now e ∈ c.history) ∨ e ∈ c.awaiting := by
  have hback : ∀ ev ∈ tr, ∃ ev' ∈ c.history, ev'.alarm = ev := by
    intro ev hev
    have hin : ev ∈ tr.filter fun ev => !ev.isDrop :=
      List.mem_filter.mpr ⟨hev, by simp [hnone ev hev]⟩
    rw [h.visible] at hin
    exact List.mem_map.mp hin
  have hset : AlarmEvent.set e.handle e.timeout ∈ tr := h.alarm_mem hadded
  rcases h.admissible.live_or_ended hset with hlive | hcancel | ⟨now, hfire⟩ | hdrop
  · obtain ⟨e', he', heq, -⟩ := (h.live _ _).mp hlive
    have horigin := hg.origin e hadded e' (awaiting_subset_stored c he') heq
    have hflag : e'.remove = false := by
      rcases mem_awaiting.mp he' with hin | hin
      · exact hg.unflagged e' hin
      · exact hin.2
    right
    rw [← horigin, ← hflag]
    exact he'
  · obtain ⟨ev, hev, hal⟩ := hback _ hcancel
    cases ev with
    | removed handle =>
      obtain rfl : handle = e.handle := by simpa [alarm] using hal
      exact absurd hev hremoved
    | _ => simp [alarm] at hal
  · obtain ⟨ev, hev, hal⟩ := hback _ hfire
    cases ev with
    | called now' e' =>
      obtain ⟨heq, rfl⟩ : e'.handle = e.handle ∧ now' = now := by simpa [alarm] using hal
      obtain rfl := hg.genuine e hadded now' e' hev heq
      exact Or.inl ⟨now', hev⟩
    | _ => simp [alarm] at hal
  · exact absurd (hnone _ hdrop) (by simp [AlarmEvent.isDrop])

end History
end Linuxpp.Ioloop
