import Linuxpp.Ioloop.Proofs.HandlersProofs
import Linuxpp.Ioloop.Proofs.PeriodicTimeoutsProofs
import Linuxpp.Ioloop.Proofs.TimeoutsProofs
import Linuxpp.Ioloop.Registrations

/-!
# Proofs: registration operations that throw

`add_handler` takes its node back when `EPOLL_CTL_ADD` fails. The other operations have changed
their table before they call the kernel, so there a failing call and an unchanged table exclude each
other.
-/

namespace Linuxpp

/-- What a call returns whose last step is a call of `timerfd_settime`. -/
def SettimeOutcome.answer {ρ : Type} (o : SettimeOutcome) (r : ρ) : Except Errno ρ :=
  match o.errno with
  | some errno => .error errno
  | none => .ok r

namespace SettimeOutcome

variable {ρ : Type} {o : SettimeOutcome}

theorem answer_eq_error_iff {r : ρ} {errno : Errno} :
    o.answer r = .error errno ↔ o.errno = some errno := by
  unfold answer
  cases ho : o.errno <;> simp

theorem answer_eq_ok_iff {r r' : ρ} : o.answer r = .ok r' ↔ o.errno = none ∧ r = r' := by
  unfold answer
  cases ho : o.errno <;> simp

theorem answer_throws_iff {r : ρ} : (∃ errno, o.answer r = .error errno) ↔ o.errno ≠ none := by
  simp only [answer_eq_error_iff, Option.ne_none_iff_exists']

/-- A call that arms the timer under a condition throws when it holds and the arming fails. -/
theorem answer_if_throws_iff {p q : Prop} [Decidable p] [Decidable q] {r r' : ρ} :
    (∃ errno, (if p ∧ q then o.answer r else .ok r') = .error errno) ↔
      ¬ (p → q → o.errno = none) := by
  by_cases hp : p
  · by_cases hq : q
    · rw [if_pos ⟨hp, hq⟩, answer_throws_iff]
      simp [hp, hq]
    · simp [hp, hq]
  · simp [hp]

theorem answer_of_ok (ho : o.errno = none) (r : ρ) : o.answer r = .ok r := by
  unfold answer
  rw [ho]

@[simp] theorem map_answer {ρ' : Type} (f : ρ → ρ') (r : ρ) :
    (o.answer r).map f = o.answer (f r) := by
  unfold answer
  cases o.errno <;> rfl

end SettimeOutcome

theorem MonotonicTimerfd.setOneshot_result (t : MonotonicTimerfd) (timeout : TimeType)
    (o : SettimeOutcome) : (t.setOneshot timeout o).1 = o.answer () := by
  unfold setOneshot setOneshotDelay SettimeOutcome.answer
  cases o.errno <;> split_ifs <;> rfl

namespace Ioloop

open SortedInsert

variable {κ : Type}

namespace Timeouts

/-- `add_timeout` arms the timer for an entry that becomes the front of `timeouts_`, and throws if
that fails. Otherwise it returns the handle of the entry that it stored. -/
theorem addTimeout_result (s : Timeouts κ) (timeout : TimeType) (callback : κ)
    (o : SettimeOutcome) : (s.addTimeout timeout callback o).1 =
      if s.processingTimeouts = false ∧ ∀ front ∈ s.timeouts.head?, timeout < front.timeout then
        o.answer (s.newEntry timeout callback).handle
      else .ok (s.newEntry timeout callback).handle := by
  cases hp : s.processingTimeouts with
  | true => simp [addTimeout, hp]
  | false =>
    cases ht : s.timeouts with
    | nil => simp [addTimeout, armThenReturn, hp, ht, MonotonicTimerfd.setOneshot_result]
    | cons front rest =>
      by_cases hlt : timeout < front.timeout
      · simp [addTimeout, insertTimeout, armThenReturn, hp, ht, hlt,
          MonotonicTimerfd.setOneshot_result]
      · simp [addTimeout, insertTimeout, hp, ht, hlt]

end Timeouts

namespace PeriodicTimeouts

theorem armFrontThenReturn_result {ρ : Type} {s : PeriodicTimeouts κ} (o : SettimeOutcome) (r : ρ)
    (hs : s.periodicTimeouts ≠ []) : (s.armFrontThenReturn o r).1 = o.answer r := by
  unfold armFrontThenReturn
  cases ht : s.periodicTimeouts with
  | nil => exact absurd ht hs
  | cons front rest => simp [MonotonicTimerfd.setOneshot_result]

/-- `add_periodic_timeout` likewise, but for the handle that it returns to an empty vector. -/
theorem addPeriodicTimeout_result (s : PeriodicTimeouts κ) (period : Int) (callback : κ)
    (now : TimeType) (o : SettimeOutcome) : (s.addPeriodicTimeout period callback now o).1 =
      let handle := if s.processingPeriodicTimeouts = false ∧ s.periodicTimeouts = [] then
          s.pendingPeriodicTimeoutAdditions.head?.map PeriodicTimeoutCallback.handle
        else some (s.newEntry period callback now).handle
      if s.processingPeriodicTimeouts = false ∧
          ∀ front ∈ s.periodicTimeouts.head?, now + period < front.timeout then
        o.answer handle
      else .ok handle := by
  cases hp : s.processingPeriodicTimeouts with
  | true => simp [addPeriodicTimeout, hp]
  | false =>
    cases ht : s.periodicTimeouts with
    | nil => simp [addPeriodicTimeout, armFrontThenReturn_result, hp, ht]
    | cons front rest =>
      have hkey : (s.newEntry period callback now).timeout = now + period := rfl
      have hfront : ((insertLower PeriodicTimeoutCallback.timeout (front :: rest)
          (s.newEntry period callback now)).head?.any fun e => e.timeout < front.timeout) =
            decide ((s.newEntry period callback now).timeout < front.timeout) :=
        head?_any_lt_insertLower_cons front (s.newEntry period callback now) rest
      simp only [addPeriodicTimeout, insertPeriodicTimeout, hp, ht, hfront, hkey]
      by_cases hlt : now + period < front.timeout
      · have hstored : insertLower PeriodicTimeoutCallback.timeout (front :: rest)
            (s.newEntry period callback now) ≠ [] := by
          rw [insertLower_cons_of_le hlt.le]
          exact List.cons_ne_nil _ _
        simp [hlt, armFrontThenReturn_result, hstored]
      · simp [hlt]

end PeriodicTimeouts

namespace Handlers

variable {s : Handlers κ} {fd : Int} {failure : Option Errno}

/-- Without a failure of the kernel's own this is `remove_handler`. -/
theorem removeHandlerOr_none (s : Handlers κ) (fd : Int) :
    s.removeHandlerOr fd none = s.removeHandler fd := rfl

/-- `EPOLL_CTL_DEL` fails for a reason of the kernel's own, or for a descriptor that is not open or
not registered. -/
theorem delOr_error_iff {e : Epoll} {errno : Errno} :
    (e.delOr fd failure).1 = .error errno ↔
      failure = some errno ∨
      failure = none ∧ fd ∉ e.openFds ∧ errno = .EBADF ∨
      failure = none ∧ fd ∈ e.openFds ∧ e.registered fd = false ∧ errno = .ENOENT := by
  unfold Epoll.delOr
  cases failure with
  | some errno' => simp
  | none =>
    by_cases hopen : fd ∈ e.openFds
    · cases hreg : e.registered fd with
      | true =>
        rw [del_of_registered hopen hreg]
        simp [hopen]
      | false =>
        rw [del_of_not_registered hopen hreg]
        simp [hopen, @eq_comm _ errno]
    · rw [del_of_not_mem hopen]
      simp [hopen, @eq_comm _ errno]

/-- Outside a batch a handler that is found is erased, whatever `EPOLL_CTL_DEL` does. -/
theorem removeHandlerOr_of_handled (hh : s.handled fd = true)
    (hp : s.processingHandlers = false) : s.removeHandlerOr fd failure =
      (match (s.epoll.delOr fd failure).1 with
        | .ok () => .ok ()
        | .error errno => if errno ≠ .ENOENT then .error (.removeFailed errno) else .ok (),
      { s.erase fd with epoll := (s.epoll.delOr fd failure).2 }) := by
  have hs : (s.erase fd).epoll = s.epoll := rfl
  unfold removeHandlerOr
  rw [if_neg (not_not_intro hh), if_neg (by simp [hp])]
  dsimp only
  rw [hs]
  rcases s.epoll.delOr fd failure with ⟨⟨⟩ | errno, e⟩
  · dsimp only
    split_ifs <;> rfl
  · rfl

theorem removeHandlerOr_of_not_handled (hh : s.handled fd = false) :
    s.removeHandlerOr fd failure = (.ok (), s) := by
  unfold removeHandlerOr
  rw [if_pos (by simp [hh])]

theorem removeHandlerOr_of_processing (hh : s.handled fd = true)
    (hp : s.processingHandlers = true) : s.removeHandlerOr fd failure =
      (.ok (), { s with removedHandlers := s.removedHandlers ++ [fd] }) := by
  unfold removeHandlerOr
  rw [if_neg (not_not_intro hh), if_pos hp]

end Handlers

section AllOrNothing

variable {m : IoloopMembers κ}

theorem mapError_throws_iff {ε ε' ρ : Type} {result : Except ε ρ} (f : ε → ε') :
    (∃ e, result.mapError f = .error e) ↔ ∃ e, result = .error e := by
  cases result <;> simp [Except.mapError]

theorem map_throws_iff {ε ρ ρ' : Type} {result : Except ε ρ} (f : ρ → ρ') :
    (∃ e, result.map f = .error e) ↔ ∃ e, result = .error e := by
  cases result <;> simp [Except.map]

/-- A call that changes a table where it throws is all or nothing exactly when it does not throw. -/
theorem allOrNothing_iff_of_changes {call : Registering κ} {ok : Prop}
    (hthrows : (∃ e, (m.perform call).1 = .error e) ↔ ¬ ok)
    (hchanges : ¬ ok → (m.perform call).2.registered ≠ m.registered) :
    AllOrNothing m call ↔ ok := by
  constructor
  · intro h
    by_contra hok
    obtain ⟨e, he⟩ := hthrows.mpr hok
    exact hchanges hok (h e he)
  · intro hok e he
    exact absurd hok (hthrows.mp ⟨e, he⟩)

theorem addCallback_allOrNothing_iff (callback : κ) (failure : Option Errno) :
    AllOrNothing m (.addCallback callback failure) ↔
      (Registering.addCallback callback failure).KernelAgrees m := by
  apply allOrNothing_iff_of_changes
  · cases failure with
    | none =>
      by_cases hc : m.callbacksEventfd < maxEventfdCounter <;>
        simp [IoloopMembers.perform, IoloopMembers.addCallback, eventfdWrite, hc,
          Registering.KernelAgrees]
    | some errno =>
      by_cases he : errno = .EAGAIN <;>
        simp [IoloopMembers.perform, IoloopMembers.addCallback, eventfdWrite, he,
          Registering.KernelAgrees]
  · intro _ hsame
    have hpushed : (m.addCallback callback failure).2.newCallbacks =
        m.newCallbacks ++ [callback] := by
      unfold IoloopMembers.addCallback
      rcases eventfdWrite m.callbacksEventfd failure with ⟨⟨⟩ | errno, counter⟩
      · dsimp only
        split_ifs <;> rfl
      · rfl
    have hsame' : (m.addCallback callback failure).2.newCallbacks = m.newCallbacks :=
      congrArg Registered.newCallbacks hsame
    rw [hpushed] at hsame'
    simp at hsame'

/-- `add_handler` takes the node back. -/
theorem addHandler_allOrNothing (fd : Int) (events : UInt32) (callback : κ) (address : ℕ)
    (failure : Option Errno) : AllOrNothing m (.addHandler fd events callback address failure) := by
  intro e he
  rcases Handlers.addHandler_cases m.handlers fd events callback address failure with
    heq | ⟨-, -, hok, -⟩
  · show IoloopMembers.registered { m with handlers := (m.handlers.addHandler _ _ _ _ _).2 } = _
    rw [heq]
  · have he' : (m.handlers.addHandler fd events callback address failure).1.mapError
        RegistrationError.handler = .error e := he
    rw [hok] at he'
    cases he'

theorem removeHandler_allOrNothing_iff (fd : Int) (failure : Option Errno) :
    AllOrNothing m (.removeHandler fd failure) ↔
      (Registering.removeHandler fd failure : Registering κ).KernelAgrees m := by
  have hresult : (m.perform (.removeHandler fd failure)).1 =
      (m.handlers.removeHandlerOr fd failure).1.mapError .handler := rfl
  cases hh : m.handlers.handled fd with
  | false =>
    refine iff_of_true (fun e he => ?_) fun hhandled => ?_
    · rw [hresult, Handlers.removeHandlerOr_of_not_handled hh] at he
      cases he
    · rw [hh] at hhandled
      cases hhandled
  | true =>
    cases hp : m.handlers.processingHandlers with
    | true =>
      refine iff_of_true (fun e he => ?_) fun _ hproc => ?_
      · rw [hresult, Handlers.removeHandlerOr_of_processing hh hp] at he
        cases he
      · rw [hp] at hproc
        cases hproc
    | false =>
      apply allOrNothing_iff_of_changes
      · rw [hresult, mapError_throws_iff, Handlers.removeHandlerOr_of_handled hh hp]
        have hthrows : (∃ e, (match (m.handlers.epoll.delOr fd failure).1 with
              | .ok () => Except.ok ()
              | .error errno =>
                if errno ≠ Errno.ENOENT then .error (HandlerError.removeFailed errno)
                else .ok ()) = .error e) ↔
            ∃ errno, (m.handlers.epoll.delOr fd failure).1 = .error errno ∧ errno ≠ .ENOENT := by
          rcases (m.handlers.epoll.delOr fd failure).1 with errno | ⟨⟩
          · by_cases he : errno = .ENOENT <;> simp [he]
          · simp
        rw [hthrows]
        simp only [Handlers.delOr_error_iff, Registering.KernelAgrees, hh, hp]
        cases failure with
        | some errno => simp
        | none =>
          by_cases hopen : fd ∈ m.handlers.epoll.openFds
          · simp [hopen]
          · simp [hopen, Errno.EBADF, Errno.ENOENT]
      · intro _ hsame
        have hsame' : (m.handlers.removeHandlerOr fd failure).2.handlers = m.handlers.handlers :=
          congrArg Registered.handlers hsame
        rw [Handlers.removeHandlerOr_of_handled hh hp] at hsame'
        have herased : (m.handlers.erase fd).handled fd = false := Handlers.not_handled_erase
        unfold Handlers.handled at herased hh
        rw [show (m.handlers.erase fd).handlers = m.handlers.handlers from hsame', hh] at herased
        cases herased

theorem addTimeout_allOrNothing_iff (timeout : TimeType) (callback : κ) (o : SettimeOutcome) :
    AllOrNothing m (.addTimeout timeout callback o) ↔
      (Registering.addTimeout timeout callback o).KernelAgrees m := by
  have hresult : (m.perform (.addTimeout timeout callback o)).1 =
      ((m.timeouts.addTimeout timeout callback o).1.map fun _ => ()).mapError .settimeFailed := rfl
  apply allOrNothing_iff_of_changes
  · rw [hresult, mapError_throws_iff, map_throws_iff, Timeouts.addTimeout_result]
    exact SettimeOutcome.answer_if_throws_iff
  · intro hnot hsame
    have hp : m.timeouts.processingTimeouts = false := by
      by_contra hp
      exact hnot fun hproc => absurd hproc hp
    have hsame' : (m.timeouts.addTimeout timeout callback o).2.timeouts = m.timeouts.timeouts :=
      congrArg Registered.timeouts hsame
    obtain ⟨timer, hmembers⟩ := m.timeouts.addTimeout_members timeout callback o
    simp only [hmembers, hp, Bool.false_eq_true, if_false] at hsame'
    exact absurd hsame' (insertLower_ne_self _ _)

theorem addPeriodicTimeout_allOrNothing_iff (period : Int) (callback : κ) (now : TimeType)
    (o : SettimeOutcome) : AllOrNothing m (.addPeriodicTimeout period callback now o) ↔
      (Registering.addPeriodicTimeout period callback now o).KernelAgrees m := by
  have hresult : (m.perform (.addPeriodicTimeout period callback now o)).1 =
      ((m.periodicTimeouts.addPeriodicTimeout period callback now o).1.map fun _ => ()).mapError
        .settimeFailed := rfl
  apply allOrNothing_iff_of_changes
  · rw [hresult, mapError_throws_iff, map_throws_iff, PeriodicTimeouts.addPeriodicTimeout_result]
    exact SettimeOutcome.answer_if_throws_iff
  · intro hnot hsame
    have hp : m.periodicTimeouts.processingPeriodicTimeouts = false := by
      by_contra hp
      exact hnot fun hproc => absurd hproc hp
    have hsame' : (m.periodicTimeouts.addPeriodicTimeout period callback now o).2.periodicTimeouts =
        m.periodicTimeouts.periodicTimeouts := congrArg Registered.periodicTimeouts hsame
    obtain ⟨timer, hmembers⟩ :=
      m.periodicTimeouts.addPeriodicTimeout_members period callback now o
    simp only [hmembers, hp, Bool.false_eq_true, if_false] at hsame'
    exact absurd hsame' (insertLower_ne_self _ _)

/-- **Registration operations.** A call that throws leaves all that is registered as it was, exactly
when it is one of `add_handler`, or the kernel is not called, or that succeeds or fails with the
error that the operation ignores. -/
theorem allOrNothing_iff_kernelAgrees (m : IoloopMembers κ) (call : Registering κ) :
    AllOrNothing m call ↔ call.KernelAgrees m := by
  cases call with
  | addCallback callback failure => exact addCallback_allOrNothing_iff callback failure
  | addHandler fd events callback address failure =>
    exact iff_of_true (addHandler_allOrNothing fd events callback address failure) trivial
  | removeHandler fd failure => exact removeHandler_allOrNothing_iff fd failure
  | addTimeout timeout callback o => exact addTimeout_allOrNothing_iff timeout callback o
  | addPeriodicTimeout period callback now o =>
    exact addPeriodicTimeout_allOrNothing_iff period callback now o

end AllOrNothing

/-- `remove_handler` throws for a descriptor that was closed before, also if the number belongs to a
regular file by then, and its handler is gone. A callback and timeouts stay when the eventfd cannot
be written and the timers cannot be armed. -/
theorem failed_registrations_stay :
    (∃ c : HandlerLoop ℕ,
      handlerStep.run {} [.openFd 5, .addHandler 5 eventRead 50 100 none, .closeFd 5] = some c ∧
      let m : IoloopMembers ℕ := { handlers := c.members }
      (m.perform (.removeHandler 5 none)).1 = .error (.handler (.removeFailed .EBADF)) ∧
      m.registered.handlers = [⟨100, 5, eventRead, 50⟩] ∧
      (m.perform (.removeHandler 5 none)).2.registered.handlers = []) ∧
    (∃ c : HandlerLoop ℕ,
      handlerStep.run {} [.openFd 5, .addHandler 5 eventRead 50 100 none, .closeFd 5, .openFd 5] =
        some c ∧
      let m : IoloopMembers ℕ := { handlers := c.members }
      (m.perform (.removeHandler 5 (some .EPERM))).1 =
        .error (.handler (.removeFailed .EPERM)) ∧
      m.registered.handlers = [⟨100, 5, eventRead, 50⟩] ∧
      (m.perform (.removeHandler 5 (some .EPERM))).2.registered.handlers = []) ∧
    let m : IoloopMembers ℕ := {}
    (m.perform (.addCallback 7 (some .EBADF))).1 = .error (.writeFailed .EBADF) ∧
    (m.perform (.addCallback 7 (some .EBADF))).2.registered.newCallbacks = [7] ∧
    (m.perform (.addTimeout 10 7 { now := 0, errno := some .EBADF })).1 =
      .error (.settimeFailed .EBADF) ∧
    (m.perform (.addTimeout 10 7 { now := 0, errno := some .EBADF })).2.registered.timeouts =
      [⟨⟨0⟩, 10, 7, false⟩] ∧
    (m.perform (.addPeriodicTimeout 10 7 0 { now := 0, errno := some .EBADF })).1 =
      .error (.settimeFailed .EBADF) ∧
    (m.perform (.addPeriodicTimeout 10 7 0
        { now := 0, errno := some .EBADF })).2.registered.periodicTimeouts =
      [⟨⟨0⟩, 10, 10, 7, false, false⟩] := by
  refine ⟨⟨_, rfl, ?_⟩, ⟨_, rfl, ?_⟩, ?_⟩ <;> decide

end Ioloop
end Linuxpp
