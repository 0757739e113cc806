import Linuxpp.Ioloop.Proofs.HandlerRunsProofs

/-!
# Proofs: handlers that were removed

A removal in a batch leaves the handler in `handlers_` until the batch is over. It is not called in
the meantime when the batch has no further event for it, nor a batch that begins before the removal
is carried out.
-/

namespace Linuxpp.Ioloop

variable {κ : Type} {c t : HandlerLoop κ} {fd : Int}

namespace Handlers

variable {s s' : Handlers κ}

/-- The handler was erased, or its removal is put off. -/
def Removed (s : Handlers κ) (fd : Int) : Prop :=
  s.handled fd = true → fd ∈ s.removedHandlers

theorem LeadTo.handled {events : List BatchEvent} (h : s.LeadTo events fd) :
    s.handled fd = true := by
  obtain ⟨e, -, n, hderef, rfl⟩ := h
  obtain ⟨p, -, hfind⟩ := Option.bind_eq_some_iff.mp hderef
  exact handled_iff.mpr ⟨n, List.mem_of_find?_eq_some hfind, rfl⟩

theorem LeadTo.congr {events : List BatchEvent} (h : s.LeadTo events fd)
    (heq : s.handlers = s'.handlers) : s'.LeadTo events fd := by
  unfold LeadTo deref at h ⊢
  rwa [← heq]

/-- Nothing leads to a handler that is registered for another descriptor. -/
theorem LeadTo.of_addHandler {events : List BatchEvent} {fd' : Int} {mask : UInt32} {callback : κ}
    {address : ℕ} {failure : Option Errno}
    (h : (s.addHandler fd' mask callback address failure).2.LeadTo events fd)
    (hanew : fd' = fd → (s.addHandler fd' mask callback address failure).1 ≠ .ok ()) :
    s.LeadTo events fd := by
  rcases addHandler_cases s fd' mask callback address failure with heq | ⟨-, -, hok, heq⟩
  · rwa [heq] at h
  · rw [heq] at h
    obtain ⟨e, he, n, hderef, hn⟩ := h
    obtain ⟨p, hp, hfind⟩ := Option.bind_eq_some_iff.mp hderef
    rw [List.find?_append, Option.or_eq_some_iff] at hfind
    rcases hfind with hfind | ⟨-, hfind⟩
    · exact ⟨e, he, n, Option.bind_eq_some_iff.mpr ⟨p, hp, hfind⟩, hn⟩
    · obtain rfl := List.mem_singleton.mp (List.mem_of_find?_eq_some hfind)
      exact absurd hok (hanew hn)

theorem Removed.addHandler (h : s.Removed fd) {fd' : Int} {mask : UInt32} {callback : κ}
    {address : ℕ} {failure : Option Errno}
    (hanew : fd' = fd → (s.addHandler fd' mask callback address failure).1 ≠ .ok ()) :
    (s.addHandler fd' mask callback address failure).2.Removed fd := by
  unfold Removed
  rw [addHandler_removedHandlers]
  intro hhandled
  apply h
  rcases addHandler_cases s fd' mask callback address failure with heq | ⟨-, -, hok, heq⟩
  · rwa [heq] at hhandled
  · rw [heq, handled_iff] at hhandled
    obtain ⟨n, hn, hnfd⟩ := hhandled
    rcases List.mem_append.mp hn with hn | hn
    · exact handled_iff.mpr ⟨n, hn, hnfd⟩
    · obtain rfl := List.mem_singleton.mp hn
      exact absurd hok (hanew hnfd)

theorem handled_of_forget {fd' : Int} (h : (s.forget fd').handled fd = true) :
    s.handled fd = true := by
  by_contra hnot
  rw [handled_forget_of_not_handled (Bool.eq_false_iff.mpr hnot)] at h
  cases h

/-- A removal of any handler keeps those that were removed before. -/
theorem Removed.removeHandler (h : s.Removed fd) (fd' : Int) :
    (s.removeHandler fd').2.Removed fd := by
  cases hh : s.handled fd' with
  | false =>
    rw [removeHandler_of_not_handled hh]
    exact h
  | true =>
    cases hp : s.processingHandlers with
    | false =>
      rw [removeHandler_of_handled hh hp]
      exact fun hhandled => h (handled_of_forget hhandled)
    | true =>
      rw [removeHandler_of_processing hh hp]
      exact fun hhandled => List.mem_append_left _ (h hhandled)

/-- What a removal leaves behind, also when it throws. -/
theorem removed_removeHandler (s : Handlers κ) (fd : Int) : (s.removeHandler fd).2.Removed fd := by
  cases hh : s.handled fd with
  | false =>
    rw [removeHandler_of_not_handled hh]
    intro hhandled
    rw [hh] at hhandled
    cases hhandled
  | true =>
    cases hp : s.processingHandlers with
    | false =>
      rw [removeHandler_of_handled hh hp]
      intro hhandled
      have herased : (s.forget fd).handled fd = false := not_handled_erase
      rw [herased] at hhandled
      cases hhandled
    | true =>
      rw [removeHandler_of_processing hh hp]
      exact fun _ => List.mem_append_right _ List.mem_cons_self

/-- The prune carries out every removal that was put off, or throws and keeps them. -/
theorem Removed.prune (h : s.Removed fd) : s.prune.2.Removed fd := by
  have hloop : ((s.pruneLoop s.removedHandlers).2.handled fd = true → s.handled fd = true) ∧
      (s.pruneLoop s.removedHandlers).2.removedHandlers = s.removedHandlers :=
    pruneLoop_preserves
      (P := fun s' => (s'.handled fd = true → s.handled fd = true) ∧
        s'.removedHandlers = s.removedHandlers)
      (fun _ _ hs => ⟨fun hhandled => hs.1 (handled_of_forget hhandled), hs.2⟩) _ ⟨id, rfl⟩
  have heq := prune_eq s
  cases hresult : (s.pruneLoop s.removedHandlers).1 with
  | ok _ =>
    have hforgets := pruneLoop_forgets (pruneLoop_ok_iff.mp hresult)
    rw [heq, hresult]
    intro hhandled
    have hforgotten := (hforgets fd (h (hloop.1 hhandled))).1
    exact absurd hhandled (by simpa [handled] using hforgotten)
  | error e =>
    rw [heq, hresult]
    intro hhandled
    show fd ∈ (s.pruneLoop s.removedHandlers).2.removedHandlers
    rw [hloop.2]
    exact h (hloop.1 hhandled)

end Handlers

/-- The removal of a handler lasts until one is registered anew. -/
theorem removed_step {fd : Int} {l : HandlerStep κ} (h : c.members.Removed fd)
    (hanew : NotAnew fd c l) (hstep : handlerStep c l = some t) : t.members.Removed fd := by
  have hmembers := membersStep_of_step hstep
  generalize t.members = m at hmembers ⊢
  cases hmembers with
  | addHandler fd' events callback address failure hfresh => exact h.addHandler hanew
  | removeHandler fd' => exact h.removeHandler fd'
  | prune sentry =>
    have hremoved : ({ c.members with processingHandlers := sentry } : Handlers κ).Removed fd := h
    exact hremoved.prune
  | _ => exact h

/-- What holds from the removal of a handler on: it was erased or its removal is put off, no event
of the batch leads to it, and the calls since then were made for others. -/
structure Gone (fd : Int) (before : List (HandlerCall κ)) (c : HandlerLoop κ) : Prop where
  removed : c.members.Removed fd
  pending : ¬ c.members.LeadTo c.point.pending fd
  flag : c.point.Flag c.members.processingHandlers
  calls : ∃ later, c.calls = before ++ later ∧ ∀ call ∈ later, call.fd ≠ fd

variable {before : List (HandlerCall κ)}

/-- The wait of the next batch. -/
theorem Gone.wait (h : Gone fd before c) {o : WaitOutcome}
    (hl : RemovedNotReported c (.epollWait o)) (hstep : handlerStep c (.epollWait o) = some t) :
    Gone fd before t := by
  have hflag := flag_step h.flag hstep
  obtain ⟨hp, ho, rfl⟩ := handlerStep_epollWait.mp hstep
  cases hb : (batchOf c.members o).2 with
  | none => exact ⟨h.removed, fun hlead => h.pending (hlead.congr rfl), h.flag, h.calls⟩
  | some batch =>
    rw [hb] at hflag
    refine ⟨h.removed, fun hlead => ?_, hflag, h.calls⟩
    have hlead' : c.members.LeadTo batch fd := hlead.congr rfl
    exact hl batch hb fd (h.removed hlead'.handled) hlead'

theorem Gone.dispatch (h : Gone fd before c) (hstep : handlerStep c .dispatch = some t) :
    Gone fd before t := by
  have hflag := flag_step h.flag hstep
  obtain ⟨sentry, event, events, n, hp, hderef, rfl⟩ := handlerStep_dispatch.mp hstep
  have hpending := h.pending
  rw [hp] at hpending
  have hn : n.fd ≠ fd := fun hn => hpending ⟨event, List.mem_cons_self, n, hderef, hn⟩
  obtain ⟨later, hcalls, hlater⟩ := h.calls
  refine ⟨h.removed, ?_, hflag, later ++ [⟨event, n.fd, n.events, n.callback⟩], ?_, ?_⟩
  · rintro ⟨e, he, hlead⟩
    exact hpending ⟨e, List.mem_cons_of_mem event he, hlead⟩
  · rw [hcalls, List.append_assoc]
  · intro call hcall
    rcases List.mem_append.mp hcall with hcall | hcall
    · exact hlater call hcall
    · obtain rfl := List.mem_singleton.mp hcall
      exact hn

/-- A removal, of this handler or of another one, leads no pending event elsewhere. -/
theorem pending_removeHandler {fd' : Int} (hflag : c.point.Flag c.members.processingHandlers)
    (hpending : ¬ c.members.LeadTo c.point.pending fd) :
    ¬ (c.members.removeHandler fd').2.LeadTo c.point.pending fd := by
  rintro ⟨e, he, hlead⟩
  have hp := processing_of_pending hflag he
  exact hpending (Handlers.LeadTo.congr ⟨e, he, hlead⟩
    (Handlers.removeHandler_handlers_of_processing hp fd'))

theorem Gone.step {l : HandlerStep κ} (h : Gone fd before c) (hl : RemovedNotReported c l)
    (hanew : NotAnew fd c l) (hstep : handlerStep c l = some t) : Gone fd before t := by
  have hflag := flag_step h.flag hstep
  have hremoved := removed_step h.removed hanew hstep
  cases l with
  | addHandler fd' events callback address failure =>
    obtain ⟨-, rfl⟩ := handlerStep_addHandler.mp hstep
    exact ⟨hremoved, fun hlead => h.pending (hlead.of_addHandler hanew), hflag,
      h.calls⟩
  | removeHandler fd' =>
    obtain ⟨-, rfl⟩ := handlerStep_removeHandler.mp hstep
    exact ⟨hremoved, pending_removeHandler h.flag h.pending, hflag, h.calls⟩
  | openFd fd' =>
    obtain ⟨-, rfl⟩ := handlerStep_openFd.mp hstep
    exact ⟨hremoved, fun hlead => h.pending (hlead.congr rfl), hflag, h.calls⟩
  | closeFd fd' =>
    obtain ⟨-, rfl⟩ := handlerStep_closeFd.mp hstep
    exact ⟨hremoved, fun hlead => h.pending (hlead.congr rfl), hflag, h.calls⟩
  | epollWait o => exact h.wait hl hstep
  | dispatch => exact h.dispatch hstep
  | handlerReturns =>
    obtain ⟨sentry, events, hp, rfl⟩ := handlerStep_handlerReturns.mp hstep
    have hpending := h.pending
    rw [hp] at hpending
    exact ⟨hremoved, hpending, hflag, h.calls⟩
  | handlerThrows =>
    obtain ⟨sentry, events, hp, rfl⟩ := handlerStep_handlerThrows.mp hstep
    exact ⟨hremoved, fun ⟨e, he, _⟩ => List.not_mem_nil he, hflag, h.calls⟩
  | prune =>
    obtain ⟨sentry, hp, rfl⟩ := handlerStep_prune.mp hstep
    exact ⟨hremoved, fun ⟨e, he, _⟩ => List.not_mem_nil he, hflag, h.calls⟩

/-- **Removed handlers.** After `remove_handler(fd)` no handler is called for `fd` until one is
registered anew, when no event leads to a handler whose removal is put off. -/
theorem removed_handler_not_called (hreach : handlerStep.Reachable {} c) {ls : List (HandlerStep κ)}
    (hrun : handlerStep.run c (.removeHandler fd :: ls) = some t)
    (hnot : handlerStep.Along RemovedNotReported c (.removeHandler fd :: ls))
    (hanew : handlerStep.Along (NotAnew fd) c (.removeHandler fd :: ls)) :
    ∃ later, t.calls = c.calls ++ later ∧ ∀ call ∈ later, call.fd ≠ fd := by
  have hflagStep : ∀ (s : HandlerLoop κ) l u, s.point.Flag s.members.processingHandlers →
      handlerStep s l = some u → u.point.Flag u.members.processingHandlers :=
    fun _ _ _ h => flag_step h
  have hflag : c.point.Flag c.members.processingHandlers := hreach.invariant hflagStep rfl
  obtain ⟨c', hstep, hrun⟩ := Machine.run_cons_eq_some.mp hrun
  obtain ⟨hl, hnot⟩ := hnot
  have hgone : Gone fd c.calls c' := by
    have hflag' := flag_step hflag hstep
    obtain ⟨-, rfl⟩ := handlerStep_removeHandler.mp hstep
    exact ⟨Handlers.removed_removeHandler _ fd, pending_removeHandler hflag hl, hflag', [],
      (List.append_nil _).symm, by simp⟩
  have hsteps : ∀ (s : HandlerLoop κ) l u, Gone fd c.calls s →
      RemovedNotReported s l ∧ NotAnew fd s l → handlerStep s l = some u → Gone fd c.calls u :=
    fun _ _ _ h hl => h.step hl.1 hl.2
  exact (Machine.run_invariant_along hsteps hrun ((hnot c' hstep).and (hanew.2 c' hstep))
    hgone).calls

/-- Two handlers, the second of which is called last in the first batch. -/
def callingLast : List (HandlerStep ℕ) :=
  [.openFd 5, .openFd 6, .addHandler 5 eventRead 50 100 none, .addHandler 6 eventRead 60 101 none,
    .epollWait (.ready [(5, EPOLLIN), (6, EPOLLIN)]), .dispatch, .handlerReturns, .dispatch]

/-- The first handler is removed, and the second one is called in the next batch. -/
def removingFirst : List (HandlerStep ℕ) :=
  [.removeHandler 5, .handlerReturns, .prune, .epollWait (.ready [(6, EPOLLIN)]), .dispatch]

theorem removed_handler_not_called_removingFirst : ∃ c t,
    handlerStep.run {} callingLast = some c ∧ handlerStep.run c removingFirst = some t ∧
    (∃ later, t.calls = c.calls ++ later ∧ ∀ call ∈ later, call.fd ≠ 5) ∧
    c.calls.map HandlerCall.fd = [5, 6] ∧ t.calls.map HandlerCall.fd = [5, 6, 6] := by
  obtain ⟨c, hc⟩ : ∃ c, handlerStep.run {} callingLast = some c := ⟨_, rfl⟩
  have hanew : handlerStep.Along (NotAnew 5) c removingFirst :=
    Machine.along_of_forall_mem (by simp [removingFirst, NotAnew])
  have hcalls : c.calls.map HandlerCall.fd = [5, 6] := by
    obtain rfl := Option.some.inj hc
    rfl
  have hnot : handlerStep.Along RemovedNotReported c removingFirst := by
    obtain rfl := Option.some.inj hc
    refine ⟨fun ⟨e, he, _⟩ => List.not_mem_nil he, fun s hs => ⟨trivial, fun s' hs' => ?_⟩⟩
    obtain rfl := Option.some.inj hs
    obtain rfl := Option.some.inj hs'
    refine ⟨trivial, fun s hs => ⟨?_, fun s' _ => ⟨trivial, fun _ _ => trivial⟩⟩⟩
    obtain rfl := Option.some.inj hs
    -- the removal has been carried out
    intro batch _ fd hfd
    exact absurd hfd List.not_mem_nil
  obtain ⟨t, ht, hfds⟩ : ∃ t, handlerStep.run c removingFirst = some t ∧
      t.calls.map HandlerCall.fd = [5, 6, 6] := by
    obtain rfl := Option.some.inj hc
    exact ⟨_, rfl, rfl⟩
  exact ⟨c, t, hc, ht, removed_handler_not_called ⟨_, hc⟩ ht hnot hanew, hcalls, hfds⟩

/-- The first handler of a batch removes the second one, for which the batch has an event. -/
theorem removed_handler_called_in_batch : ∃ c t,
    handlerStep.run {} [.openFd 5, .openFd 6, .addHandler 5 eventRead 50 100 none,
      .addHandler 6 eventRead 60 101 none, .epollWait (.ready [(5, EPOLLIN), (6, EPOLLIN)]),
      .dispatch] = some c ∧
    (c.members.removeHandler 6).1 = .ok () ∧
    handlerStep.run c [.removeHandler 6, .handlerReturns, .dispatch] = some t ∧
    handlerStep.Along (NotAnew 6) c [.removeHandler 6, .handlerReturns, .dispatch] ∧
    t.calls.drop c.calls.length = [⟨⟨⟨EPOLLIN, some 101⟩, some 6⟩, 6, eventRead, (60 : ℕ)⟩] :=
  ⟨_, _, rfl, rfl, rfl, Machine.along_of_forall_mem (by simp [NotAnew]), rfl⟩

end Linuxpp.Ioloop
