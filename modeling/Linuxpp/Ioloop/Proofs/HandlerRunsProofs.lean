import Linuxpp.Ioloop.Proofs.HandlersProofs

/-!
# Proofs: runs of the handler loop

An event of the batch is about a node that was in `handlers_` when the batch began, and in a batch
nodes are only added. What user code can do to break this is to close a descriptor that still has a
handler.
-/

namespace Linuxpp.Ioloop

variable {κ : Type} {c t : HandlerLoop κ} {fd : Int}

/-- The value of `processing_handlers_` at a point of the loop, and the value that its sentry
restores. -/
def BatchPoint.Flag (flag : Bool) : BatchPoint → Prop
  | .idle => flag = false
  | .dispatching sentry _ | .calling sentry _ => sentry = false ∧ flag = true

/-- A reported event of the batch leads to the node of its descriptor. -/
def Handlers.Leads (s : Handlers κ) (e : BatchEvent) : Prop :=
  ∀ fd, e.about = some fd → ∃ n ∈ s.handlers, n.fd = fd ∧ e.event.ptr = some n.address

/-- The invariant of the runs in which descriptors stay open while they have a handler. -/
structure HandlerInv (c : HandlerLoop κ) : Prop where
  tables : c.members.InStep
  pending : ∀ e ∈ c.point.pending, c.members.Leads e
  flag : c.point.Flag c.members.processingHandlers
  called : ∀ call ∈ c.calls, ∀ fd, call.event.about = some fd → call.fd = fd

theorem handlerInv_init : HandlerInv ({} : HandlerLoop κ) where
  tables := ⟨List.nodup_nil, List.nodup_nil, rfl, rfl, by simp⟩
  pending := by simp [BatchPoint.pending]
  flag := rfl
  called := by simp

namespace Handlers

variable {s s' : Handlers κ}

theorem Leads.mono {e : BatchEvent} (h : s.Leads e) (hsub : s.handlers ⊆ s'.handlers) :
    s'.Leads e := by
  intro fd hfd
  obtain ⟨n, hn, hnfd, hptr⟩ := h fd hfd
  exact ⟨n, hsub hn, hnfd, hptr⟩

theorem subset_addHandler (s : Handlers κ) (fd : Int) (events : UInt32) (callback : κ)
    (address : ℕ) (failure : Option Errno) :
    s.handlers ⊆ (s.addHandler fd events callback address failure).2.handlers := by
  rcases addHandler_cases s fd events callback address failure with heq | ⟨-, -, -, heq⟩
  · rw [heq]
    exact List.Subset.refl _
  · rw [heq]
    exact List.subset_append_left _ _

theorem addHandler_processing (s : Handlers κ) (fd : Int) (events : UInt32) (callback : κ)
    (address : ℕ) (failure : Option Errno) :
    (s.addHandler fd events callback address failure).2.processingHandlers =
      s.processingHandlers := by
  rcases addHandler_cases s fd events callback address failure with
    heq | ⟨-, -, -, heq⟩ <;> rw [heq]

theorem processing_keptByRemovals (b : Bool) :
    KeptByRemovals fun s : Handlers κ => s.processingHandlers = b :=
  ⟨fun _ _ h => h, fun _ _ h => h⟩

theorem removeHandler_processing (s : Handlers κ) (fd : Int) :
    (s.removeHandler fd).2.processingHandlers = s.processingHandlers :=
  (processing_keptByRemovals _).removeHandler rfl fd

theorem prune_processing (s : Handlers κ) :
    s.prune.2.processingHandlers = s.processingHandlers :=
  (processing_keptByRemovals _).prune rfl

/-- In a batch a removal leaves the nodes where they are. -/
theorem removeHandler_handlers_of_processing (hp : s.processingHandlers = true) (fd : Int) :
    (s.removeHandler fd).2.handlers = s.handlers := by
  cases hh : s.handled fd with
  | false => rw [removeHandler_of_not_handled hh]
  | true => rw [removeHandler_of_processing hh hp]

/-- An event that leads to the node of its descriptor leads to no other. -/
theorem Backed.fd_of_deref (h : s.Backed) {e : BatchEvent} (hleads : s.Leads e)
    {n : HandlerNode κ} (hderef : s.deref e.event = some n) {fd : Int}
    (habout : e.about = some fd) : n.fd = fd := by
  obtain ⟨n', hn', hfd, hptr⟩ := hleads fd habout
  obtain ⟨⟨events, ptr⟩, about⟩ := e
  obtain rfl : ptr = some n'.address := hptr
  have hderef' := (h.deref_of_mem hn' events).symm.trans hderef
  rw [← Option.some.inj hderef', hfd]

/-- The events of a batch that the kernel has just reported. -/
theorem Backed.leads_report (h : s.Backed) {fd : Int} (hreg : s.epoll.registered fd = true)
    (events : UInt32) : s.Leads (Epoll.report s.epoll fd events) := by
  intro fd' hfd'
  obtain rfl : fd = fd' := Option.some.inj hfd'
  obtain ⟨r, hr⟩ : ∃ r, s.epoll.interest.find? (fun r => r.fd = fd) = some r := by
    rw [← Option.isSome_iff_exists, List.find?_isSome]
    exact List.any_eq_true.mp hreg
  obtain ⟨n, hn, rfl⟩ := h.node r (List.mem_of_find?_eq_some hr)
  have hfd := List.find?_some hr
  refine ⟨n, hn, of_decide_eq_true hfd, ?_⟩
  show (s.epoll.interest.find? _).map Registration.ptr = some n.address
  rw [hr]
  rfl

end Handlers

/-- `processing_handlers_` is set exactly while the loop is in a batch, whatever user code does. -/
theorem flag_step {l : HandlerStep κ} (h : c.point.Flag c.members.processingHandlers)
    (hstep : handlerStep c l = some t) : t.point.Flag t.members.processingHandlers := by
  cases l with
  | addHandler fd events callback address failure =>
    obtain ⟨-, rfl⟩ := handlerStep_addHandler.mp hstep
    dsimp only
    rwa [Handlers.addHandler_processing]
  | removeHandler fd =>
    obtain ⟨-, rfl⟩ := handlerStep_removeHandler.mp hstep
    dsimp only
    rwa [Handlers.removeHandler_processing]
  | openFd fd =>
    obtain ⟨-, rfl⟩ := handlerStep_openFd.mp hstep
    exact h
  | closeFd fd =>
    obtain ⟨-, rfl⟩ := handlerStep_closeFd.mp hstep
    exact h
  | epollWait o =>
    obtain ⟨hp, -, rfl⟩ := handlerStep_epollWait.mp hstep
    rw [hp] at h
    cases (batchOf c.members o).2 with
    | none =>
      dsimp only
      rwa [hp]
    | some batch => exact ⟨h, rfl⟩
  | dispatch =>
    obtain ⟨sentry, event, events, n, hp, -, rfl⟩ := handlerStep_dispatch.mp hstep
    rwa [hp] at h
  | handlerReturns =>
    obtain ⟨sentry, events, hp, rfl⟩ := handlerStep_handlerReturns.mp hstep
    rwa [hp] at h
  | handlerThrows =>
    obtain ⟨sentry, events, hp, rfl⟩ := handlerStep_handlerThrows.mp hstep
    rw [hp] at h
    exact h.1
  | prune =>
    obtain ⟨sentry, hp, rfl⟩ := handlerStep_prune.mp hstep
    rw [hp] at h
    show Handlers.processingHandlers _ = false
    rw [Handlers.prune_processing]
    exact h.1

/-- In a batch, user code runs with `processing_handlers_` set. -/
theorem processing_of_pending (h : c.point.Flag c.members.processingHandlers) {e : BatchEvent}
    (he : e ∈ c.point.pending) : c.members.processingHandlers = true := by
  cases hpoint : c.point with
  | idle => simp [hpoint, BatchPoint.pending] at he
  | _ =>
    rw [hpoint] at h
    exact h.2

/-- What holds in every run, also where descriptors are closed that have a handler. -/
structure Leading (c : HandlerLoop κ) : Prop where
  tables : c.members.Backed
  pending : ∀ e ∈ c.point.pending, c.members.Leads e
  flag : c.point.Flag c.members.processingHandlers
  called : ∀ call ∈ c.calls, ∀ fd, call.event.about = some fd → call.fd = fd

theorem leading_init : Leading ({} : HandlerLoop κ) where
  tables := ⟨List.nodup_nil, List.nodup_nil, by simp, by simp⟩
  pending := by simp [BatchPoint.pending]
  flag := rfl
  called := by simp

theorem Leading.wait (h : Leading c) {o : WaitOutcome}
    (hstep : handlerStep c (.epollWait o) = some t) : Leading t := by
  have hflag := flag_step h.flag hstep
  obtain ⟨hp, ho, rfl⟩ := handlerStep_epollWait.mp hstep
  cases hb : (batchOf c.members o).2 with
  | none => exact ⟨h.tables.congr rfl rfl, h.pending, h.flag, h.called⟩
  | some batch =>
    rw [hb] at hflag
    refine ⟨h.tables.congr rfl rfl, ?_, hflag, h.called⟩
    intro e he
    cases o with
    | ready reports =>
      obtain rfl := Option.some.inj hb
      obtain ⟨report, hreport, rfl⟩ := List.mem_map.mp he
      exact h.tables.leads_report (ho.1 report hreport) report.2
    | fails errno =>
      obtain ⟨-, rfl⟩ : errno ≠ .EINTR ∧ _ = batch := by simpa [batchOf] using hb
      obtain ⟨event, -, rfl⟩ := List.mem_map.mp he
      intro fd hfd
      cases hfd

theorem Leading.removeHandler (h : Leading c)
    (hstep : handlerStep c (.removeHandler fd) = some t) : Leading t := by
  have hflag := flag_step h.flag hstep
  obtain ⟨-, rfl⟩ := handlerStep_removeHandler.mp hstep
  refine ⟨h.tables.removeHandler fd, ?_, hflag, h.called⟩
  intro e he
  apply (h.pending e he).mono
  show c.members.handlers ⊆ (c.members.removeHandler fd).2.handlers
  rw [Handlers.removeHandler_handlers_of_processing (processing_of_pending h.flag he)]
  exact List.Subset.refl _

theorem Leading.dispatch (h : Leading c) (hstep : handlerStep c .dispatch = some t) :
    Leading t := by
  have hflag := flag_step h.flag hstep
  obtain ⟨sentry, event, events, n, hp, hderef, rfl⟩ := handlerStep_dispatch.mp hstep
  have hpending := h.pending
  rw [hp] at hpending
  refine ⟨h.tables, fun e he => hpending e (List.mem_cons_of_mem event he), hflag, ?_⟩
  intro call hcall fd habout
  rcases List.mem_append.mp hcall with hcall | hcall
  · exact h.called call hcall fd habout
  · obtain rfl := List.mem_singleton.mp hcall
    exact h.tables.fd_of_deref (hpending event List.mem_cons_self) hderef habout

theorem Leading.step {l : HandlerStep κ} (h : Leading c) (hstep : handlerStep c l = some t) :
    Leading t := by
  have hflag := flag_step h.flag hstep
  cases l with
  | addHandler fd events callback address failure =>
    obtain ⟨⟨-, hfresh⟩, rfl⟩ := handlerStep_addHandler.mp hstep
    refine ⟨h.tables.addHandler hfresh, ?_, hflag, h.called⟩
    intro e he
    exact (h.pending e he).mono (Handlers.subset_addHandler _ _ _ _ _ _)
  | removeHandler fd => exact h.removeHandler hstep
  | openFd fd =>
    obtain ⟨-, rfl⟩ := handlerStep_openFd.mp hstep
    exact ⟨h.tables.openFd fd, h.pending, hflag, h.called⟩
  | closeFd fd =>
    obtain ⟨-, rfl⟩ := handlerStep_closeFd.mp hstep
    exact ⟨h.tables.closeFd fd, h.pending, hflag, h.called⟩
  | epollWait o => exact h.wait hstep
  | dispatch => exact h.dispatch hstep
  | handlerReturns =>
    obtain ⟨sentry, events, hp, rfl⟩ := handlerStep_handlerReturns.mp hstep
    have hpending := h.pending
    rw [hp] at hpending
    exact ⟨h.tables, hpending, hflag, h.called⟩
  | handlerThrows =>
    obtain ⟨sentry, events, hp, rfl⟩ := handlerStep_handlerThrows.mp hstep
    exact ⟨h.tables.congr rfl rfl, by simp [BatchPoint.pending], hflag, h.called⟩
  | prune =>
    obtain ⟨sentry, hp, rfl⟩ := handlerStep_prune.mp hstep
    have htables : ({ c.members with processingHandlers := sentry } : Handlers κ).Backed :=
      h.tables.congr rfl rfl
    exact ⟨htables.prune, by simp [BatchPoint.pending], hflag, h.called⟩

theorem Leading.of_reachable (hc : handlerStep.Reachable {} c) : Leading c :=
  hc.invariant (fun _ _ _ h => h.step) leading_init

/-- What a step does to the members: one of their operations, or nothing that the two tables or the
removals depend on. -/
inductive MembersStep (m : Handlers κ) : HandlerStep κ → Handlers κ → Prop
  | addHandler (fd : Int) (events : UInt32) (callback : κ) (address : ℕ) (failure : Option Errno)
      (hfresh : ∀ n ∈ m.handlers, n.address ≠ address) :
      MembersStep m (.addHandler fd events callback address failure)
        (m.addHandler fd events callback address failure).2
  | removeHandler (fd : Int) : MembersStep m (.removeHandler fd) (m.removeHandler fd).2
  | openFd (fd : Int) : MembersStep m (.openFd fd) { m with epoll := m.epoll.openFd fd }
  | closeFd (fd : Int) : MembersStep m (.closeFd fd) { m with epoll := m.epoll.closeFd fd }
  | prune (sentry : Bool) :
      MembersStep m .prune ({ m with processingHandlers := sentry } : Handlers κ).prune.2
  | kept (l : HandlerStep κ) (events : List EpollEvent) (processing : Bool) :
      MembersStep m l { m with epollEvents := events, processingHandlers := processing }

theorem membersStep_of_step {l : HandlerStep κ} (hstep : handlerStep c l = some t) :
    MembersStep c.members l t.members := by
  cases l with
  | addHandler fd events callback address failure =>
    obtain ⟨⟨-, hfresh⟩, rfl⟩ := handlerStep_addHandler.mp hstep
    exact .addHandler fd events callback address failure hfresh
  | removeHandler fd =>
    obtain ⟨-, rfl⟩ := handlerStep_removeHandler.mp hstep
    exact .removeHandler fd
  | openFd fd =>
    obtain ⟨-, rfl⟩ := handlerStep_openFd.mp hstep
    exact .openFd fd
  | closeFd fd =>
    obtain ⟨-, rfl⟩ := handlerStep_closeFd.mp hstep
    exact .closeFd fd
  | epollWait o =>
    obtain ⟨-, -, rfl⟩ := handlerStep_epollWait.mp hstep
    cases (batchOf c.members o).2 with
    | none => exact .kept _ (batchOf c.members o).1 c.members.processingHandlers
    | some batch => exact .kept _ (batchOf c.members o).1 true
  | dispatch =>
    obtain ⟨-, -, -, -, -, -, rfl⟩ := handlerStep_dispatch.mp hstep
    exact .kept _ c.members.epollEvents c.members.processingHandlers
  | handlerReturns =>
    obtain ⟨-, -, -, rfl⟩ := handlerStep_handlerReturns.mp hstep
    exact .kept _ c.members.epollEvents c.members.processingHandlers
  | handlerThrows =>
    obtain ⟨sentry, -, -, rfl⟩ := handlerStep_handlerThrows.mp hstep
    exact .kept _ c.members.epollEvents sentry
  | prune =>
    obtain ⟨sentry, -, rfl⟩ := handlerStep_prune.mp hstep
    exact .prune sentry

/-- The tables stay in step where user code closes no descriptor that has a handler. -/
theorem inStep_step {l : HandlerStep κ} (h : c.members.InStep) (hl : StaysOpen c l)
    (hstep : handlerStep c l = some t) : t.members.InStep := by
  have hmembers := membersStep_of_step hstep
  generalize t.members = m at hmembers ⊢
  cases hmembers with
  | addHandler fd events callback address failure hfresh => exact h.addHandler hfresh
  | removeHandler fd => exact h.removeHandler fd
  | openFd fd =>
    exact ⟨h.addresses, h.fds, h.interest, h.size,
      fun n hn => List.mem_append_left _ (h.opened n hn)⟩
  | closeFd fd => exact h.closeFd hl
  | prune sentry =>
    have htables : ({ c.members with processingHandlers := sentry } : Handlers κ).InStep :=
      h.congr rfl rfl
    exact htables.prune
  | kept l events processing => exact h.congr rfl rfl

theorem HandlerInv.step {l : HandlerStep κ} (h : HandlerInv c) (hl : StaysOpen c l)
    (hstep : handlerStep c l = some t) : HandlerInv t := by
  have hleading : Leading c := ⟨h.tables.backed, h.pending, h.flag, h.called⟩
  have hleading' := hleading.step hstep
  exact ⟨inStep_step h.tables hl hstep, hleading'.pending, hleading'.flag, hleading'.called⟩

theorem HandlerInv.of_run {ls : List (HandlerStep κ)} (hrun : handlerStep.run {} ls = some c)
    (hopen : handlerStep.Along StaysOpen {} ls) : HandlerInv c := by
  have hstep : ∀ (s : HandlerLoop κ) l t, HandlerInv s → StaysOpen s l →
      handlerStep s l = some t → HandlerInv t := fun _ _ _ h hl => h.step hl
  exact Machine.run_invariant_along hstep hrun hopen handlerInv_init

/-- The events of the batch were reported by the wait of the batch. -/
def PendingReported (c : HandlerLoop κ) : Prop := ∀ e ∈ c.point.pending, ∃ fd, e.about = some fd

theorem PendingReported.step {l : HandlerStep κ} (h : PendingReported c) (hl : WaitReports c l)
    (hstep : handlerStep c l = some t) : PendingReported t := by
  intro e he
  cases l with
  | addHandler fd events callback address failure =>
    obtain ⟨-, rfl⟩ := handlerStep_addHandler.mp hstep
    exact h e he
  | removeHandler fd =>
    obtain ⟨-, rfl⟩ := handlerStep_removeHandler.mp hstep
    exact h e he
  | openFd fd =>
    obtain ⟨-, rfl⟩ := handlerStep_openFd.mp hstep
    exact h e he
  | closeFd fd =>
    obtain ⟨-, rfl⟩ := handlerStep_closeFd.mp hstep
    exact h e he
  | epollWait o =>
    obtain ⟨hp, -, rfl⟩ := handlerStep_epollWait.mp hstep
    cases o with
    | ready reports =>
      obtain ⟨report, -, rfl⟩ := List.mem_map.mp he
      exact ⟨report.1, rfl⟩
    | fails errno =>
      obtain rfl : errno = .EINTR := hl
      exact h e he
  | dispatch =>
    obtain ⟨sentry, event, events, n, hp, -, rfl⟩ := handlerStep_dispatch.mp hstep
    apply h
    rw [hp]
    exact List.mem_cons_of_mem event he
  | handlerReturns =>
    obtain ⟨sentry, events, hp, rfl⟩ := handlerStep_handlerReturns.mp hstep
    apply h
    rw [hp]
    exact he
  | handlerThrows =>
    obtain ⟨sentry, events, hp, rfl⟩ := handlerStep_handlerThrows.mp hstep
    cases he
  | prune =>
    obtain ⟨sentry, hp, rfl⟩ := handlerStep_prune.mp hstep
    cases he

/-- The two tables and the counter stay in step, a reported event of the batch leads to the entry of
the descriptor it is about, and so did all that were dispatched. -/
theorem handlers_never_drift_from_interest {ls : List (HandlerStep κ)}
    (hrun : handlerStep.run {} ls = some c) (hopen : handlerStep.Along StaysOpen {} ls) :
    (∀ fd, c.members.epoll.registered fd = c.members.handled fd) ∧
    (∀ r ∈ c.members.epoll.interest, ∃ n ∈ c.members.handlers,
      n.fd = r.fd ∧ n.address = r.ptr ∧ epollEvents n.events = r.events) ∧
    (c.members.handlers.map HandlerNode.fd).Nodup ∧
    (c.members.epoll.interest.map Registration.fd).Nodup ∧
    c.members.epoll.sizeEvents = c.members.epoll.interest.length ∧
    (∀ e ∈ c.point.pending, ∀ fd, e.about = some fd →
      ∃ n, c.members.deref e.event = some n ∧ n ∈ c.members.handlers ∧ n.fd = fd) ∧
    (∀ call ∈ c.calls, ∀ fd, call.event.about = some fd → call.fd = fd) ∧
    (handlerStep.Along WaitReports {} ls → ∀ e ∈ c.point.pending, ∃ fd, e.about = some fd) ∧
    (resizeEvents c.members.epollEvents c.members.epoll.sizeEvents).length =
      c.members.epoll.interest.length := by
  have h := HandlerInv.of_run hrun hopen
  refine ⟨fun _ => h.tables.registered_eq, ?_, h.tables.fds, ?_, h.tables.size, ?_, h.called, ?_,
    ?_⟩
  · intro r hr
    rw [h.tables.interest] at hr
    obtain ⟨n, hn, rfl⟩ := List.mem_map.mp hr
    exact ⟨n, hn, rfl, rfl, rfl⟩
  · rw [h.tables.interest_fds]
    exact h.tables.fds
  · intro e he fd hfd
    obtain ⟨n, hn, hnfd, hptr⟩ := h.pending e he fd hfd
    obtain ⟨⟨events, ptr⟩, about⟩ := e
    obtain rfl : ptr = some n.address := hptr
    exact ⟨n, h.tables.backed.deref_of_mem hn events, hn, hnfd⟩
  · intro hreports
    have hstep : ∀ (s : HandlerLoop κ) l t, PendingReported s → WaitReports s l →
        handlerStep s l = some t → PendingReported t := fun _ _ _ h hl => h.step hl
    have hinit : PendingReported ({} : HandlerLoop κ) := by
      simp [PendingReported, BatchPoint.pending]
    exact Machine.run_invariant_along hstep hrun hreports hinit
  · rw [← h.tables.size]
    exact resizeEvents_length _ _

/-- Two descriptors with a handler. The first handler that the batch calls removes both of them, one
twice; the call is over and the next event is still to be dispatched. -/
def removingBoth : List (HandlerStep ℕ) :=
  [.openFd 5, .openFd 6, .addHandler 5 eventRead 50 100 none, .addHandler 6 eventRead 60 101 none,
    .epollWait (.ready [(6, EPOLLIN), (5, EPOLLIN)]), .dispatch, .removeHandler 5,
    .removeHandler 6, .removeHandler 5, .handlerReturns]

theorem handlers_never_drift_from_interest_removingBoth :
    ∃ c, handlerStep.run {} removingBoth = some c ∧
      c.members.epoll.sizeEvents = c.members.epoll.interest.length ∧
      c.members.removedHandlers = [5, 6, 5] ∧ c.point.pending.length = 1 := by
  have hopen : handlerStep.Along StaysOpen {} removingBoth :=
    Machine.along_of_forall_mem (by simp [removingBoth, StaysOpen])
  cases hrun : handlerStep.run {} removingBoth with
  | none => exact absurd hrun (by decide)
  | some c =>
    have h := handlers_never_drift_from_interest hrun hopen
    refine ⟨c, rfl, h.2.2.2.2.1, ?_⟩
    obtain rfl : _ = c := Option.some.inj hrun
    decide


section Closing

variable {s : Handlers κ}

namespace Handlers

theorem handled_forget_of_not_handled {fd' : Int} (h : s.handled fd = false) :
    (s.forget fd').handled fd = false := by
  rw [not_handled_iff] at h ⊢
  intro hmem
  exact h ((List.filter_sublist.map HandlerNode.fd).subset hmem)

theorem not_registered_forget {fd' : Int} (h : s.epoll.registered fd = false) :
    (s.forget fd').epoll.registered fd = false := by
  show (s.epoll.del fd').2.registered fd = false
  by_cases hopen : fd' ∈ s.epoll.openFds
  · cases hreg : s.epoll.registered fd' with
    | true =>
      rw [del_of_registered hopen hreg]
      unfold Epoll.registered at h ⊢
      rw [List.any_eq_false] at h ⊢
      intro r hr
      exact h r (List.mem_filter.mp hr).1
    | false =>
      rw [del_of_not_registered hopen hreg]
      exact h
  · rw [del_of_not_mem hopen]
    exact h

/-- The loop gets through exactly when every descriptor of the list is open. -/
theorem pruneLoop_ok_iff {fds : List Int} :
    (s.pruneLoop fds).1 = .ok () ↔ ∀ fd ∈ fds, fd ∈ s.epoll.openFds := by
  induction fds generalizing s with
  | nil => simp [pruneLoop]
  | cons fd fds ih =>
    rw [pruneLoop_cons, List.forall_mem_cons]
    by_cases hopen : fd ∈ s.epoll.openFds
    · rw [if_pos hopen, ih, forget_openFds]
      simp [hopen]
    · rw [if_neg hopen]
      simp [hopen]

/-- When the loop gets through, nothing is left of the handlers of the list. -/
theorem pruneLoop_forgets {fds : List Int} (hopen : ∀ fd ∈ fds, fd ∈ s.epoll.openFds) :
    ∀ fd ∈ fds, (s.pruneLoop fds).2.handled fd = false ∧
      (s.pruneLoop fds).2.epoll.registered fd = false := by
  induction fds generalizing s with
  | nil => simp
  | cons fd fds ih =>
    rw [List.forall_mem_cons] at hopen
    rw [pruneLoop_cons, if_pos hopen.1, List.forall_mem_cons]
    constructor
    · have hP : ∀ (s : Handlers κ) fd', s.handled fd = false ∧ s.epoll.registered fd = false →
          (s.forget fd').handled fd = false ∧ (s.forget fd').epoll.registered fd = false :=
        fun _ _ h => ⟨handled_forget_of_not_handled h.1, not_registered_forget h.2⟩
      exact pruneLoop_preserves hP fds ⟨not_handled_erase, del_not_registered hopen.1⟩
    · apply ih
      rw [forget_openFds]
      exact hopen.2

theorem prune_ok_iff : s.prune.1 = .ok () ↔ ∀ fd ∈ s.removedHandlers, fd ∈ s.epoll.openFds := by
  rw [prune_eq]
  exact pruneLoop_ok_iff

theorem prune_forgets (hopen : ∀ fd ∈ s.removedHandlers, fd ∈ s.epoll.openFds) :
    ∀ fd ∈ s.removedHandlers,
      s.prune.2.handled fd = false ∧ s.prune.2.epoll.registered fd = false := by
  have hok := pruneLoop_ok_iff.mpr hopen
  rw [prune_eq, hok]
  exact pruneLoop_forgets hopen

theorem addHandler_removedHandlers (s : Handlers κ) (fd : Int) (events : UInt32) (callback : κ)
    (address : ℕ) (failure : Option Errno) :
    (s.addHandler fd events callback address failure).2.removedHandlers = s.removedHandlers := by
  rcases addHandler_cases s fd events callback address failure with
    heq | ⟨-, -, -, heq⟩ <;> rw [heq]

end Handlers

/-- Removals that were put off are forgotten only behind a batch. -/
theorem handlerStep_removedHandlers {l : HandlerStep κ} (hremove : ∀ fd, l ≠ .removeHandler fd)
    (hprune : l ≠ .prune) (h : handlerStep c l = some t) :
    t.members.removedHandlers = c.members.removedHandlers := by
  have hmembers := membersStep_of_step h
  generalize t.members = m at hmembers ⊢
  cases hmembers with
  | addHandler => exact Handlers.addHandler_removedHandlers _ _ _ _ _ _
  | removeHandler fd => exact absurd rfl (hremove fd)
  | prune => exact absurd rfl hprune
  | _ => rfl

theorem removeHandler_harmless_iff (c : HandlerLoop κ) (fd : Int) :
    RemovalHarmless c (.removeHandler fd) ↔ RemovedWhileOpen c (.removeHandler fd) := by
  simp only [RemovalHarmless, RemovedWhileOpen]
  cases hh : c.members.handled fd with
  | false =>
    rw [Handlers.removeHandler_of_not_handled hh]
    simp [hh]
  | true =>
    cases hp : c.members.processingHandlers with
    | true =>
      rw [Handlers.removeHandler_of_processing hh hp]
      simp
    | false =>
      have herased : (c.members.forget fd).handled fd = false := Handlers.not_handled_erase
      rw [Handlers.removeHandler_of_handled hh hp]
      by_cases hopen : fd ∈ c.members.epoll.openFds <;> simp [hopen, herased]

/-- A step of a removal is harmless exactly when what it deregisters is open. -/
theorem removalHarmless_iff (c : HandlerLoop κ) (l : HandlerStep κ) :
    RemovalHarmless c l ↔ RemovedWhileOpen c l := by
  cases l with
  | removeHandler fd => exact removeHandler_harmless_iff c fd
  | prune =>
    show _ ∧ _ ↔ ∀ fd ∈ _, _
    rw [Handlers.prune_ok_iff]
    exact ⟨fun h => h.1, fun h => ⟨h, Handlers.prune_forgets h⟩⟩
  | _ => exact iff_of_true (fun t ht => handlerStep_removedHandlers (by simp) (by simp) ht) trivial

end Closing

/-- The removals of a run are harmless throughout exactly when no handler is deregistered after its
descriptor was closed and before its number was used again. -/
theorem removals_harmless_iff_while_open (ls : List (HandlerStep κ)) :
    handlerStep.Along RemovalHarmless {} ls ↔ handlerStep.Along RemovedWhileOpen {} ls := by
  rw [Machine.along_congr removalHarmless_iff]

/-- A handler removes two handlers and closes the descriptor of the first of them. -/
def closingInBatch : List (HandlerStep ℕ) :=
  [.openFd 5, .openFd 6, .addHandler 5 eventRead 50 100 none, .addHandler 6 eventRead 60 101 none,
    .epollWait (.ready [(5, EPOLLIN)]), .dispatch, .removeHandler 5, .closeFd 5, .removeHandler 6,
    .handlerReturns]

/-- `start` throws, and the other removal is not carried out. Closing the descriptor before its
handler is removed makes `remove_handler` throw. -/
theorem close_makes_removals_throw :
    (∃ c, handlerStep.run {} closingInBatch = some c ∧
      c.members.prune.1 = .error (.pruneFailed .EBADF) ∧ c.members.removedHandlers = [5, 6] ∧
      c.members.prune.2.handled 5 = true ∧ c.members.prune.2.handled 6 = true) ∧
    ∃ c, handlerStep.run {}
        [.openFd 5, .addHandler 5 eventRead 50 100 none, .closeFd 5] = some c ∧
      (c.members.removeHandler 5).1 = .error (.removeFailed .EBADF) := by
  refine ⟨⟨_, rfl, ?_⟩, ⟨_, rfl, ?_⟩⟩ <;> decide

end Linuxpp.Ioloop
