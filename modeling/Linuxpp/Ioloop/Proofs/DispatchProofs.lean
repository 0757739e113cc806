import Linuxpp.Ioloop.Dispatch
import Linuxpp.Ioloop.Proofs.HandlerRunsProofs

/-!
# Proofs: what an iteration of `start` dispatches

In a batch nodes are only added, so an event that was reported leads to the node that its descriptor
had when `epoll_wait` was called. After a wait that failed, the buffer holds as many events as there
were registrations, none of which was reported.
-/

namespace Linuxpp.Ioloop

variable {κ : Type} {c s t : HandlerLoop κ} {reports : List (Int × UInt32)} {mayThrow : Prop}

/-- What holds at every point of an iteration that began in `c`. -/
structure InIteration (c : HandlerLoop κ) (reports : List (Int × UInt32)) (mayThrow : Prop)
    (t : HandlerLoop κ) : Prop where
  leading : Leading t
  nodes : t.point ≠ .idle → c.members.handlers ⊆ t.members.handlers
  progress : ∃ done rest later, reports = done ++ rest ∧ t.calls = c.calls ++ later ∧
    List.Forall₂ c.members.CallFor done later ∧
    (t.point.pending = Epoll.reported c.members.epoll rest ∨ mayThrow ∧ t.point.pending = [])

/-- A step that dispatches nothing. -/
theorem InIteration.same (h : InIteration c reports mayThrow s) {l : HandlerStep κ}
    (hstep : handlerStep s l = some t) (hcalls : t.calls = s.calls)
    (hpending : t.point.pending = s.point.pending)
    (hnodes : t.point ≠ .idle → s.point ≠ .idle ∧ s.members.handlers ⊆ t.members.handlers) :
    InIteration c reports mayThrow t where
  leading := h.leading.step hstep
  nodes := fun hp => List.Subset.trans (h.nodes (hnodes hp).1) (hnodes hp).2
  progress := by
    rw [hcalls, hpending]
    exact h.progress

theorem processing_of_not_idle (h : Leading s) (hp : s.point ≠ .idle) :
    s.members.processingHandlers = true := by
  have hflag := h.flag
  cases hpoint : s.point with
  | idle => exact absurd hpoint hp
  | _ =>
    rw [hpoint] at hflag
    exact hflag.2

/-- The dispatch of the next event calls the handler of the next report. -/
theorem InIteration.dispatch (hlead : ∀ report ∈ reports,
      c.members.Leads (Epoll.report c.members.epoll report.1 report.2))
    (h : InIteration c reports mayThrow s) (hstep : handlerStep s .dispatch = some t) :
    InIteration c reports mayThrow t := by
  have hleading := h.leading.step hstep
  obtain ⟨sentry, event, events, n, hp, hderef, rfl⟩ := handlerStep_dispatch.mp hstep
  have hnodes : c.members.handlers ⊆ s.members.handlers := h.nodes (by simp [hp])
  refine ⟨hleading, fun _ => hnodes, ?_⟩
  obtain ⟨done, rest, later, hreports, hcalls, hdone, hpending⟩ := h.progress
  rw [hp] at hpending
  rcases hpending with hpending | ⟨-, hpending⟩
  · cases rest with
    | nil => cases hpending
    | cons report rest =>
      obtain ⟨rfl, hevents⟩ := List.cons.inj hpending
      have hreport : report ∈ reports := by
        rw [hreports]
        exact List.mem_append_right _ List.mem_cons_self
      -- the node of the descriptor when the wait was called is the one that is called
      obtain ⟨n₀, hn₀, hfd, hptr⟩ := hlead report hreport report.1 rfl
      have hderef₀ := h.leading.tables.deref_of_mem (hnodes hn₀) report.2
      have heq : n = n₀ := by
        have hevent : (Epoll.report c.members.epoll report.1 report.2).event =
            ⟨report.2, some n₀.address⟩ := congrArg (EpollEvent.mk report.2) hptr
        rw [hevent, hderef₀] at hderef
        exact (Option.some.inj hderef).symm
      subst heq
      refine ⟨done ++ [report], rest, later ++ [⟨Epoll.report c.members.epoll report.1 report.2,
        n.fd, n.events, n.callback⟩], ?_, ?_, ?_, Or.inl hevents⟩
      · rw [hreports, List.append_assoc]
        rfl
      · rw [hcalls, List.append_assoc]
      · exact List.rel_append hdone (List.Forall₂.cons ⟨n, hn₀, hfd, rfl⟩ List.Forall₂.nil)
  · cases hpending

theorem InIteration.step (hlead : ∀ report ∈ reports,
      c.members.Leads (Epoll.report c.members.epoll report.1 report.2))
    (h : InIteration c reports mayThrow s) {l : HandlerStep κ} (hwait : ∀ o, l ≠ .epollWait o)
    (hthrow : l = .handlerThrows → mayThrow) (hstep : handlerStep s l = some t) :
    InIteration c reports mayThrow t := by
  have hleading := h.leading.step hstep
  cases l with
  | addHandler fd events callback address failure =>
    obtain ⟨-, rfl⟩ := handlerStep_addHandler.mp hstep
    exact h.same hstep rfl rfl fun hp => ⟨hp, Handlers.subset_addHandler _ _ _ _ _ _⟩
  | removeHandler fd =>
    obtain ⟨-, rfl⟩ := handlerStep_removeHandler.mp hstep
    refine h.same hstep rfl rfl fun hp => ⟨hp, ?_⟩
    show s.members.handlers ⊆ (s.members.removeHandler fd).2.handlers
    rw [Handlers.removeHandler_handlers_of_processing (processing_of_not_idle h.leading hp)]
    exact List.Subset.refl _
  | openFd fd =>
    obtain ⟨-, rfl⟩ := handlerStep_openFd.mp hstep
    exact h.same hstep rfl rfl fun hp => ⟨hp, List.Subset.refl _⟩
  | closeFd fd =>
    obtain ⟨-, rfl⟩ := handlerStep_closeFd.mp hstep
    exact h.same hstep rfl rfl fun hp => ⟨hp, List.Subset.refl _⟩
  | epollWait o => exact absurd rfl (hwait o)
  | dispatch => exact InIteration.dispatch hlead h hstep
  | handlerReturns =>
    obtain ⟨sentry, events, hp, rfl⟩ := handlerStep_handlerReturns.mp hstep
    exact h.same hstep rfl (by rw [hp]; rfl) fun _ => ⟨by simp [hp], List.Subset.refl _⟩
  | handlerThrows =>
    obtain ⟨sentry, events, hp, rfl⟩ := handlerStep_handlerThrows.mp hstep
    obtain ⟨done, rest, later, hreports, hcalls, hdone, -⟩ := h.progress
    exact ⟨hleading, fun hidle => absurd rfl hidle, done, rest, later, hreports, hcalls, hdone,
      Or.inr ⟨hthrow rfl, rfl⟩⟩
  | prune =>
    obtain ⟨sentry, hp, rfl⟩ := handlerStep_prune.mp hstep
    exact h.same hstep rfl (by rw [hp]; rfl) fun hidle => absurd rfl hidle

/-- The iteration begins with the reported events, unless the wait leaves something stale. -/
theorem InIteration.wait (h : Leading c) {o : WaitOutcome}
    (hstep : handlerStep c (.epollWait o) = some t)
    (ho : o.LeavesNothingStale c.members.epoll) : InIteration c o.reports mayThrow t := by
  have hleading := h.step hstep
  obtain ⟨hp, -, rfl⟩ := handlerStep_epollWait.mp hstep
  cases o with
  | ready reports =>
    exact ⟨hleading, fun _ => List.Subset.refl _, [], reports, [], rfl, (List.append_nil _).symm,
      List.Forall₂.nil, Or.inl rfl⟩
  | fails errno =>
    have hnone : ∀ batch, (batchOf c.members (.fails errno)).2 = some batch → batch = [] := by
      intro batch hbatch
      rcases ho with rfl | hsize
      · cases hbatch
      · have hempty : resizeEvents c.members.epollEvents c.members.epoll.sizeEvents = [] :=
          List.length_eq_zero_iff.mp ((resizeEvents_length _ _).trans hsize)
        by_cases he : errno = .EINTR
        · simp [batchOf, he] at hbatch
        · simpa [batchOf, he, hempty] using hbatch.symm
    refine ⟨hleading, ?_, [], [], [], rfl, ?_, List.Forall₂.nil, Or.inl ?_⟩
    · cases (batchOf c.members (.fails errno)).2 <;> exact fun _ => List.Subset.refl _
    · cases (batchOf c.members (.fails errno)).2 <;> exact (List.append_nil _).symm
    · cases hb : (batchOf c.members (.fails errno)).2 with
      | none =>
        dsimp only
        rw [hp]
        rfl
      | some batch => exact hnone batch hb

/-- An event that the kernel reported leads to the handler of its descriptor. -/
theorem deref_of_reported (h : Leading t) {e : BatchEvent} (he : e ∈ t.point.pending) {fd : Int}
    (habout : e.about = some fd) :
    ∃ n, t.members.deref e.event = some n ∧ e.about = some n.fd := by
  obtain ⟨n, hn, hfd, hptr⟩ := h.pending e he fd habout
  obtain ⟨⟨events, ptr⟩, about⟩ := e
  obtain rfl : ptr = some n.address := hptr
  exact ⟨n, h.tables.deref_of_mem hn events, by rw [hfd, ← habout]⟩

theorem InIteration.run (h : InIteration c reports mayThrow s)
    (hlead : ∀ report ∈ reports,
      c.members.Leads (Epoll.report c.members.epoll report.1 report.2))
    {ls : List (HandlerStep κ)} (hwait : ∀ o, .epollWait o ∉ ls)
    (hthrow : .handlerThrows ∈ ls → mayThrow) (hrun : handlerStep.run s ls = some t) :
    InIteration c reports mayThrow t := by
  have hguard : handlerStep.Along
      (fun _ l => (∀ o, l ≠ .epollWait o) ∧ (l = .handlerThrows → mayThrow)) s ls := by
    apply Machine.along_of_forall_mem
    intro _ l hl
    exact ⟨fun o heq => hwait o (heq ▸ hl), fun heq => hthrow (heq ▸ hl)⟩
  exact Machine.run_invariant_along
    (fun _ _ _ h hl hstep => InIteration.step hlead h hl.1 hl.2 hstep) hrun hguard h

/-- **Dispatch.** An iteration dispatches exactly the events that its `epoll_wait` reported, exactly
when that call reports events or is interrupted, or there is no room in the buffer. -/
theorem iteration_dispatches_reported_iff (hc : handlerStep.Reachable {} c) {o : WaitOutcome}
    (hstep : handlerStep c (.epollWait o) = some s) :
    DispatchesReported c o ↔ o.LeavesNothingStale c.members.epoll := by
  have hleading := Leading.of_reachable hc
  constructor
  · intro h
    cases o with
    | ready reports => trivial
    | fails errno =>
      by_contra hstale
      obtain ⟨hne, hsize⟩ := not_or.mp hstale
      obtain ⟨done, rest, later, hreports, -, -, hpending, -⟩ :=
        h [] s (by simp) (by rw [Machine.run_singleton, hstep])
      have hrest : rest = [] := (List.append_eq_nil_iff.mp hreports.symm).2
      have hnil : s.point.pending = [] := by
        rw [hpending List.not_mem_nil, hrest]
        rfl
      obtain ⟨-, -, rfl⟩ := handlerStep_epollWait.mp hstep
      simp only [batchOf, if_neg hne, BatchPoint.pending, List.map_eq_nil_iff] at hnil
      have hlength := resizeEvents_length c.members.epollEvents c.members.epoll.sizeEvents
      rw [hnil] at hlength
      exact hsize hlength.symm
  · intro ho ls t hwait hrun
    obtain ⟨s', hs', hrun⟩ := Machine.run_cons_eq_some.mp hrun
    obtain rfl : s = s' := Option.some.inj (hstep.symm.trans hs')
    have hlead : ∀ report ∈ o.reports,
        c.members.Leads (Epoll.report c.members.epoll report.1 report.2) := by
      intro report hreport
      obtain ⟨-, hpossible, -⟩ := handlerStep_epollWait.mp hstep
      cases o with
      | ready reports => exact hleading.tables.leads_report (hpossible.1 report hreport) report.2
      | fails errno => cases hreport
    have hbegin : InIteration c o.reports (.handlerThrows ∈ ls) s :=
      InIteration.wait hleading hstep ho
    have hiter := hbegin.run hlead hwait id hrun
    obtain ⟨done, rest, later, hreports, hcalls, hdone, hpending⟩ := hiter.progress
    refine ⟨done, rest, later, hreports, hcalls, hdone, ?_, ?_⟩
    · intro hnot
      exact hpending.resolve_right fun h => hnot h.1
    · intro e he
      rcases hpending with hpending | ⟨-, hpending⟩
      · have hreported := he
        rw [hpending] at hreported
        obtain ⟨report, -, rfl⟩ := List.mem_map.mp hreported
        exact deref_of_reported hiter.leading he rfl
      · rw [hpending] at he
        cases he

/-- A descriptor has a handler, and one batch of events for it is over. -/
def oneBatch : List (HandlerStep ℕ) :=
  [.openFd 5, .addHandler 5 eventRead 50 100 none, .epollWait (.ready [(5, EPOLLIN)]), .dispatch,
    .handlerReturns, .prune]

theorem iteration_dispatches_reported_iff_oneBatch : ∃ c, handlerStep.run {} oneBatch = some c ∧
    DispatchesReported c (.ready [(5, EPOLLIN)]) := by
  obtain ⟨c, s, hc, hs⟩ : ∃ c s, handlerStep.run {} oneBatch = some c ∧
      handlerStep c (.epollWait (.ready [(5, EPOLLIN)])) = some s := ⟨_, _, rfl, rfl⟩
  exact ⟨c, hc, (iteration_dispatches_reported_iff ⟨_, hc⟩ hs).mpr trivial⟩

/-- The next wait fails, and the handler is called for the event of the batch before. Where there
was no batch before, the event that comes next holds the null pointer. -/
theorem failed_wait_dispatches_stale_events :
    (∃ c t, handlerStep.run {} oneBatch = some c ∧
      handlerStep.run c [.epollWait (.fails .EBADF), .dispatch] = some t ∧
      t.calls.drop c.calls.length = [⟨⟨⟨EPOLLIN, some 100⟩, none⟩, 5, eventRead, (50 : ℕ)⟩]) ∧
    ∃ t : HandlerLoop ℕ, handlerStep.run {} [.openFd 5, .addHandler 5 eventRead 50 100 none,
        .epollWait (.fails .EBADF)] = some t ∧
      t.point = .dispatching false [⟨⟨0, none⟩, none⟩] :=
  ⟨⟨_, _, rfl, rfl, rfl⟩, _, rfl, rfl⟩

section Masks

/-- A bit of a mask is clear or set. -/
theorem and_bit_cases (m b : UInt32) (i : ℕ) (hb : b.toBitVec = BitVec.twoPow 32 i) :
    m &&& b = 0 ∨ m &&& b = b := by
  have hand : (m &&& b).toBitVec = m.toBitVec &&& BitVec.twoPow 32 i := by
    rw [UInt32.toBitVec_and, hb]
  rw [BitVec.and_twoPow] at hand
  split_ifs at hand
  · exact Or.inr (UInt32.toBitVec_inj.mp (hand.trans hb.symm))
  · exact Or.inl (UInt32.toBitVec_inj.mp hand)

theorem and_or_left (m a b : UInt32) : m &&& (a ||| b) = m &&& a ||| m &&& b :=
  UInt32.toBitVec_inj.mp BitVec.and_or_distrib_left

/-- A combination of the bits of `event_enum` is the inverse image of what is reported exactly if
`epoll_events` makes of it what is reported of the bits that it knows. -/
theorem eq_ioloopEvents_iff {events : UInt32} (h : events &&& eventEnum = events)
    (reported : UInt32) :
    events = ioloopEvents reported ↔ epollEvents events = reported &&& epollEnum := by
  have hevents : events = events &&& eventRead ||| events &&& eventWrite |||
      events &&& eventError := by
    rw [← and_or_left, ← and_or_left]
    exact h.symm
  have hreported : reported &&& epollEnum = reported &&& EPOLLIN ||| reported &&& EPOLLOUT |||
      reported &&& EPOLLERR := by
    rw [← and_or_left, ← and_or_left]
    rfl
  rw [hreported]
  nth_rewrite 1 [hevents]
  unfold epollEvents ioloopEvents
  -- three bits of each mask
  rcases and_bit_cases events eventRead 0 rfl with hread | hread <;>
  rcases and_bit_cases events eventWrite 1 rfl with hwrite | hwrite <;>
  rcases and_bit_cases events eventError 2 rfl with herror | herror <;>
  rcases and_bit_cases reported EPOLLIN 0 rfl with hin | hin <;>
  rcases and_bit_cases reported EPOLLOUT 2 rfl with hout | hout <;>
  rcases and_bit_cases reported EPOLLERR 3 rfl with herr | herr <;>
  rw [hread, hwrite, herror, hin, hout, herr] <;> decide

end Masks

/-- Handlers are called by `dispatch` only. -/
theorem calls_of_ne_dispatch {l : HandlerStep κ} (hl : l ≠ .dispatch)
    (hstep : handlerStep c l = some t) : t.calls = c.calls := by
  cases l with
  | addHandler fd events callback address failure =>
    obtain ⟨-, rfl⟩ := handlerStep_addHandler.mp hstep
    rfl
  | removeHandler fd =>
    obtain ⟨-, rfl⟩ := handlerStep_removeHandler.mp hstep
    rfl
  | openFd fd =>
    obtain ⟨-, rfl⟩ := handlerStep_openFd.mp hstep
    rfl
  | closeFd fd =>
    obtain ⟨-, rfl⟩ := handlerStep_closeFd.mp hstep
    rfl
  | epollWait o =>
    obtain ⟨-, -, rfl⟩ := handlerStep_epollWait.mp hstep
    cases (batchOf c.members o).2 <;> rfl
  | dispatch => exact absurd rfl hl
  | handlerReturns =>
    obtain ⟨-, -, -, rfl⟩ := handlerStep_handlerReturns.mp hstep
    rfl
  | handlerThrows =>
    obtain ⟨-, -, -, rfl⟩ := handlerStep_handlerThrows.mp hstep
    rfl
  | prune =>
    obtain ⟨-, -, rfl⟩ := handlerStep_prune.mp hstep
    rfl

/-- The handlers are registered for combinations of the bits of `event_enum`. -/
def EventEnumOnly (s : Handlers κ) : Prop := ∀ n ∈ s.handlers, n.events &&& eventEnum = n.events

theorem EventEnumOnly.mono {m m' : Handlers κ} (h : EventEnumOnly m)
    (hsub : m'.handlers ⊆ m.handlers) : EventEnumOnly m' := fun n hn => h n (hsub hn)

namespace Handlers

variable {m : Handlers κ}

theorem subset_keptByRemovals (nodes : List (HandlerNode κ)) :
    KeptByRemovals fun m : Handlers κ => m.handlers ⊆ nodes :=
  ⟨fun _ _ h _ hn => h (mem_erase.mp hn).1, fun _ _ h => h⟩

theorem removeHandler_subset (m : Handlers κ) (fd : Int) :
    (m.removeHandler fd).2.handlers ⊆ m.handlers :=
  (subset_keptByRemovals _).removeHandler (List.Subset.refl _) fd

theorem prune_subset (m : Handlers κ) : m.prune.2.handlers ⊆ m.handlers :=
  (subset_keptByRemovals _).prune (List.Subset.refl _)

end Handlers

theorem EventEnumOnly.step {l : HandlerStep κ} (h : EventEnumOnly c.members)
    (hl : RegistersEventEnum c l) (hstep : handlerStep c l = some t) :
    EventEnumOnly t.members := by
  have hmembers := membersStep_of_step hstep
  generalize t.members = m at hmembers ⊢
  cases hmembers with
  | addHandler fd events callback address failure hfresh =>
    rcases Handlers.addHandler_cases c.members fd events callback address failure with
      heq | ⟨-, -, -, heq⟩
    · rwa [heq]
    · rw [heq]
      intro n hn
      rcases List.mem_append.mp hn with hn | hn
      · exact h n hn
      · obtain rfl := List.mem_singleton.mp hn
        exact hl
  | removeHandler fd => exact h.mono (c.members.removeHandler_subset fd)
  | prune sentry => exact h.mono (Handlers.prune_subset _)
  | _ => exact h

/-- The call that a dispatch adds is told what was reported exactly if all of what its handler is
registered for was. -/
theorem toldReported_step_iff {l : HandlerStep κ} (h : Leading c) (henum : EventEnumOnly c.members)
    (htold : ToldReported c) (hstep : handlerStep c l = some t) :
    ToldReported t ↔ ReportsRegistered c l := by
  by_cases hl : l = .dispatch
  · subst hl
    obtain ⟨sentry, event, events, n, hp, hderef, rfl⟩ := handlerStep_dispatch.mp hstep
    have hn : n ∈ c.members.handlers := by
      obtain ⟨p, -, hfind⟩ := Option.bind_eq_some_iff.mp hderef
      exact List.mem_of_find?_eq_some hfind
    have hmask := eq_ioloopEvents_iff (henum n hn) event.event.events
    constructor
    · intro ht _ sentry' event' events' n' fd hp' habout hderef'
      rw [hp] at hp'
      obtain ⟨-, hevents⟩ := BatchPoint.dispatching.inj hp'
      obtain ⟨rfl, -⟩ := List.cons.inj hevents
      obtain rfl : n = n' := Option.some.inj (hderef.symm.trans hderef')
      exact hmask.mp (ht _ (List.mem_append_right _ List.mem_cons_self) fd habout).2
    · intro hreports call hcall fd habout
      rcases List.mem_append.mp hcall with hcall | hcall
      · exact htold call hcall fd habout
      · obtain rfl := List.mem_singleton.mp hcall
        refine ⟨(h.step hstep).called _ (List.mem_append_right _ List.mem_cons_self) fd habout, ?_⟩
        exact hmask.mpr (hreports rfl sentry event events n fd hp habout hderef)
  · have hcalls := calls_of_ne_dispatch hl hstep
    refine iff_of_true ?_ fun heq => absurd heq hl
    unfold ToldReported
    rwa [hcalls]

/-- **What a handler is told.** In a run in which handlers are registered for combinations of the
bits of `event_enum`, every handler that is called for a reported event is told what was reported,
exactly when each dispatched event reports all that its handler is registered for. -/
theorem toldReported_iff_reportsRegistered {ls : List (HandlerStep κ)}
    (hrun : handlerStep.run {} ls = some t)
    (henum : handlerStep.Along RegistersEventEnum {} ls) :
    handlerStep.Throughout ToldReported {} ls ↔ handlerStep.Along ReportsRegistered {} ls := by
  have hinv : ∀ (s : HandlerLoop κ) l u, Leading s ∧ EventEnumOnly s.members →
      RegistersEventEnum s l → ReportsRegistered s l → handlerStep s l = some u →
      Leading u ∧ EventEnumOnly u.members :=
    fun _ _ _ h hl _ hstep => ⟨h.1.step hstep, h.2.step hl hstep⟩
  have hstep : ∀ (s : HandlerLoop κ) l u, Leading s ∧ EventEnumOnly s.members → ToldReported s →
      RegistersEventEnum s l → handlerStep s l = some u →
      (ToldReported u ↔ ReportsRegistered s l) :=
    fun _ _ _ h htold _ hstep => toldReported_step_iff h.1 h.2 htold hstep
  exact Machine.throughout_iff_along_of_guarded hinv hstep hrun henum
    ⟨leading_init, by simp [EventEnumOnly]⟩ (by simp [ToldReported])

/-- A handler is registered for two events. -/
def registeredForBoth : List (HandlerStep ℕ) :=
  [.openFd 5, .addHandler 5 (eventRead ||| eventWrite) 50 100 none]

/-- Both are reported. -/
def reportingBoth : List (HandlerStep ℕ) :=
  registeredForBoth ++ [.epollWait (.ready [(5, EPOLLIN ||| EPOLLOUT)]), .dispatch]

theorem toldReported_iff_reportsRegistered_both : ∃ t, handlerStep.run {} reportingBoth = some t ∧
    t.calls.length = 1 ∧ handlerStep.Throughout ToldReported {} reportingBoth := by
  obtain ⟨t, hrun, hcalls⟩ : ∃ t, handlerStep.run {} reportingBoth = some t ∧
      t.calls.length = 1 := ⟨_, rfl, rfl⟩
  have henum : handlerStep.Along RegistersEventEnum {} reportingBoth := by
    apply Machine.along_of_forall_mem
    simp only [reportingBoth, registeredForBoth, List.cons_append, List.nil_append,
      List.forall_mem_cons, RegistersEventEnum]
    exact fun _ => ⟨trivial, by decide, trivial, trivial, by simp⟩
  have hreports : handlerStep.Along ReportsRegistered {} reportingBoth := by
    refine ⟨nofun, fun s hs => ⟨nofun, fun s' hs' => ⟨nofun, fun u hu => ⟨?_, fun _ _ => trivial⟩⟩⟩⟩
    obtain rfl := Option.some.inj hs
    obtain rfl := Option.some.inj hs'
    obtain rfl := Option.some.inj hu
    intro _ sentry event events n fd hp _ hderef
    obtain ⟨-, hevents⟩ := BatchPoint.dispatching.inj hp
    obtain ⟨rfl, -⟩ := List.cons.inj hevents
    obtain rfl := Option.some.inj hderef
    decide
  exact ⟨t, hrun, hcalls, (toldReported_iff_reportsRegistered hrun henum).mpr hreports⟩

/-- Only one of them is reported, and the handler is told both. -/
theorem handler_told_what_did_not_occur :
    ∃ t, handlerStep.run {} (registeredForBoth ++
        [.epollWait (.ready [(5, EPOLLIN)]), .dispatch]) = some t ∧
      t.calls = [⟨⟨⟨EPOLLIN, some 100⟩, some 5⟩, 5, eventRead ||| eventWrite, (50 : ℕ)⟩] ∧
      ioloopEvents EPOLLIN = eventRead ∧ ¬ ToldReported t := by
  refine ⟨_, rfl, rfl, rfl, fun h => ?_⟩
  have htold := (h _ List.mem_cons_self 5 rfl).2
  exact absurd htold (by decide)

end Linuxpp.Ioloop
