import Linuxpp.Ioloop.HandlerLifetimes
import Linuxpp.Ioloop.Proofs.DispatchProofs
import Linuxpp.Ioloop.Proofs.RemovedHandlersProofs

/-!
# Proofs: how long a handler stays registered

`removed_handlers_` holds numbers of descriptors. A number that is in it when a handler is
registered for it belongs to an earlier removal, and the next prune that gets through erases the new
handler instead of the old one.
-/

namespace Linuxpp.Ioloop

variable {κ : Type} {c s t : HandlerLoop κ} {n : HandlerNode κ} {mayClose : Prop}

/-- The node is in both tables, and no removal of its descriptor is put off. -/
structure Kept (n : HandlerNode κ) (mayClose : Prop) (c : HandlerLoop κ) : Prop where
  leading : Leading c
  node : n ∈ c.members.handlers
  interest : mayClose ∨ n.registration ∈ c.members.epoll.interest
  notRemoved : n.fd ∉ c.members.removedHandlers

namespace Handlers

variable {m : Handlers κ} {fd : Int}

/-- The removal of one handler keeps the others. -/
theorem mem_forget (hn : n ∈ m.handlers) (hfd : n.fd ≠ fd) : n ∈ (m.forget fd).handlers :=
  mem_erase.mpr ⟨hn, hfd⟩

theorem mem_interest_forget {r : Registration} (hr : r ∈ m.epoll.interest) (hfd : r.fd ≠ fd) :
    r ∈ (m.forget fd).epoll.interest := by
  show r ∈ (m.epoll.del fd).2.interest
  by_cases hopen : fd ∈ m.epoll.openFds
  · cases hreg : m.epoll.registered fd with
    | true =>
      rw [del_of_registered hopen hreg]
      exact List.mem_filter.mpr ⟨hr, by simpa using hfd⟩
    | false => rwa [del_of_not_registered hopen hreg]
  · rwa [del_of_not_mem hopen]

/-- The loop over removed handlers keeps those that it does not remove. -/
theorem pruneLoop_keeps {fds : List Int} (hn : n ∈ m.handlers) (hfd : n.fd ∉ fds) :
    n ∈ (m.pruneLoop fds).2.handlers ∧
    (n.registration ∈ m.epoll.interest →
      n.registration ∈ (m.pruneLoop fds).2.epoll.interest) := by
  induction fds generalizing m with
  | nil => exact ⟨hn, id⟩
  | cons fd fds ih =>
    rw [List.mem_cons, not_or] at hfd
    rw [pruneLoop_cons]
    split_ifs with hopen
    · obtain ⟨hnode, hinterest⟩ := ih (mem_forget hn hfd.1) hfd.2
      exact ⟨hnode, fun hr => hinterest (mem_interest_forget hr hfd.1)⟩
    · exact ⟨hn, id⟩

theorem prune_keeps (hn : n ∈ m.handlers) (hfd : n.fd ∉ m.removedHandlers) :
    n ∈ m.prune.2.handlers ∧
    (n.registration ∈ m.epoll.interest → n.registration ∈ m.prune.2.epoll.interest) ∧
    n.fd ∉ m.prune.2.removedHandlers := by
  have hkeeps := pruneLoop_keeps hn hfd
  have hremoved : (m.pruneLoop m.removedHandlers).2.removedHandlers = m.removedHandlers :=
    pruneLoop_preserves (P := fun m' => m'.removedHandlers = m.removedHandlers)
      (fun _ _ hs => hs) _ rfl
  rw [prune_eq]
  cases (m.pruneLoop m.removedHandlers).1 with
  | ok _ => exact ⟨hkeeps.1, hkeeps.2, List.not_mem_nil⟩
  | error _ => exact ⟨hkeeps.1, hkeeps.2, by rwa [hremoved]⟩

/-- A removal of another handler. -/
theorem removeHandler_keeps (hn : n ∈ m.handlers) (hfd : n.fd ≠ fd) :
    n ∈ (m.removeHandler fd).2.handlers ∧
    (n.registration ∈ m.epoll.interest →
      n.registration ∈ (m.removeHandler fd).2.epoll.interest) ∧
    (n.fd ∉ m.removedHandlers → n.fd ∉ (m.removeHandler fd).2.removedHandlers) := by
  cases hh : m.handled fd with
  | false =>
    rw [removeHandler_of_not_handled hh]
    exact ⟨hn, id, id⟩
  | true =>
    cases hp : m.processingHandlers with
    | false =>
      rw [removeHandler_of_handled hh hp]
      exact ⟨mem_forget hn hfd, fun hr => mem_interest_forget hr hfd, id⟩
    | true =>
      rw [removeHandler_of_processing hh hp]
      exact ⟨hn, id, fun h => by simp [h, hfd]⟩

theorem addHandler_interest_subset (m : Handlers κ) (fd : Int) (events : UInt32) (callback : κ)
    (address : ℕ) (failure : Option Errno) : m.epoll.interest ⊆
      (m.addHandler fd events callback address failure).2.epoll.interest := by
  rcases addHandler_cases m fd events callback address failure with heq | ⟨-, -, -, heq⟩
  · rw [heq]
    exact List.Subset.refl _
  · rw [heq]
    exact List.subset_append_left _ _

/-- A registration that succeeds appends the node and its registration. -/
theorem addHandler_of_ok {failure : Option Errno}
    (hok : (m.addHandler n.fd n.events n.callback n.address failure).1 = .ok ()) :
    n ∈ (m.addHandler n.fd n.events n.callback n.address failure).2.handlers ∧
    n.registration ∈
      (m.addHandler n.fd n.events n.callback n.address failure).2.epoll.interest := by
  unfold addHandler at hok ⊢
  cases hh : m.handled n.fd with
  | true =>
    rw [hh, if_pos rfl] at hok
    cases hok
  | false =>
    rw [hh, if_neg Bool.false_ne_true] at hok
    rw [if_neg Bool.false_ne_true]
    dsimp only at hok ⊢
    rcases add_cases m.epoll n.fd (Ioloop.epollEvents n.events) n.address failure with
      ⟨errno, hadd⟩ | ⟨-, hadd⟩
    · rw [hadd] at hok
      cases hok
    · rw [hadd]
      exact ⟨List.mem_append_right _ List.mem_cons_self,
        List.mem_append_right _ List.mem_cons_self⟩

/-- A registration succeeds for an open descriptor without a handler, when the kernel lets it
pass. -/
theorem Backed.addHandler_ok (h : m.Backed) (hh : m.handled fd = false)
    (hopen : fd ∈ m.epoll.openFds) (events : UInt32) (callback : κ) (address : ℕ) :
    (m.addHandler fd events callback address none).1 = .ok () := by
  have hreg : m.epoll.registered fd = false := by
    rw [← Bool.not_eq_true]
    intro hreg
    obtain ⟨r, hr, hfd⟩ := List.any_eq_true.mp hreg
    obtain ⟨n', hn', rfl⟩ := h.node r hr
    exact not_handled_iff.mp hh (of_decide_eq_true hfd ▸ List.mem_map_of_mem hn')
  unfold Handlers.addHandler Epoll.add Epoll.ctlAdd
  rw [hh, if_neg Bool.false_ne_true]
  simp only [hopen, not_true_eq_false, if_false, hreg, Bool.false_eq_true]

end Handlers

theorem Kept.step {l : HandlerStep κ} (h : Kept n mayClose c) (hremove : l ≠ .removeHandler n.fd)
    (hclose : l = .closeFd n.fd → mayClose) (hstep : handlerStep c l = some t) :
    Kept n mayClose t := by
  have hmembers := membersStep_of_step hstep
  suffices hkept : n ∈ t.members.handlers ∧
      (mayClose ∨ n.registration ∈ t.members.epoll.interest) ∧
      n.fd ∉ t.members.removedHandlers from
    ⟨h.leading.step hstep, hkept.1, hkept.2.1, hkept.2.2⟩
  generalize t.members = m at hmembers ⊢
  cases hmembers with
  | addHandler fd events callback address failure hfresh =>
    refine ⟨Handlers.subset_addHandler _ _ _ _ _ _ h.node,
      h.interest.imp_right fun hr => Handlers.addHandler_interest_subset _ _ _ _ _ _ hr, ?_⟩
    rw [Handlers.addHandler_removedHandlers]
    exact h.notRemoved
  | removeHandler fd =>
    have hfd : n.fd ≠ fd := fun heq => hremove (congrArg HandlerStep.removeHandler heq.symm)
    obtain ⟨hnode, hinterest, hremoved⟩ := Handlers.removeHandler_keeps h.node hfd
    exact ⟨hnode, h.interest.imp_right hinterest, hremoved h.notRemoved⟩
  | openFd fd => exact ⟨h.node, h.interest, h.notRemoved⟩
  | closeFd fd =>
    refine ⟨h.node, ?_, h.notRemoved⟩
    by_cases hfd : n.fd = fd
    · exact Or.inl (hclose (congrArg HandlerStep.closeFd hfd.symm))
    · exact h.interest.imp_right fun hr => List.mem_filter.mpr ⟨hr, decide_eq_true hfd⟩
  | prune sentry =>
    obtain ⟨hnode, hinterest, hremoved⟩ := Handlers.prune_keeps
      (m := { c.members with processingHandlers := sentry }) h.node h.notRemoved
    exact ⟨hnode, h.interest.imp_right hinterest, hremoved⟩
  | kept l events processing => exact ⟨h.node, h.interest, h.notRemoved⟩

theorem Kept.run (h : Kept n mayClose c) {ls : List (HandlerStep κ)}
    (hremove : .removeHandler n.fd ∉ ls) (hclose : .closeFd n.fd ∈ ls → mayClose)
    (hrun : handlerStep.run c ls = some t) : Kept n mayClose t := by
  have hguard : handlerStep.Along
      (fun _ l => l ≠ .removeHandler n.fd ∧ (l = .closeFd n.fd → mayClose)) c ls := by
    apply Machine.along_of_forall_mem
    intro _ l hl
    exact ⟨fun heq => hremove (heq ▸ hl), fun heq => hclose (heq ▸ hl)⟩
  exact Machine.run_invariant_along (fun _ _ _ h hl hstep => Kept.step h hl.1 hl.2 hstep) hrun
    hguard h

/-- An event that is reported for the descriptor leads to the node. -/
theorem Kept.deref (h : Kept n mayClose c) {e : BatchEvent} (he : e ∈ c.point.pending)
    (habout : e.about = some n.fd) : c.members.deref e.event = some n := by
  obtain ⟨n', hn', hfd, hptr⟩ := h.leading.pending e he n.fd habout
  have heq : n' = n := List.inj_on_of_nodup_map h.leading.tables.fds hn' h.node hfd
  subst heq
  obtain ⟨⟨events, ptr⟩, about⟩ := e
  obtain rfl : ptr = some n'.address := hptr
  exact h.leading.tables.deref_of_mem h.node events

/-- The calls since `before` that were made for reported events of the descriptor. -/
def ServedSince (n : HandlerNode κ) (before : List (HandlerCall κ)) (c : HandlerLoop κ) : Prop :=
  ∃ later, c.calls = before ++ later ∧ ∀ call ∈ later, call.event.about = some n.fd →
    call = ⟨call.event, n.fd, n.events, n.callback⟩

theorem ServedSince.step {before : List (HandlerCall κ)} {l : HandlerStep κ}
    (h : Kept n mayClose c) (hs : ServedSince n before c) (hstep : handlerStep c l = some t) :
    ServedSince n before t := by
  by_cases hl : l = .dispatch
  · subst hl
    obtain ⟨sentry, event, events, n', hp, hderef, rfl⟩ := handlerStep_dispatch.mp hstep
    obtain ⟨later, hcalls, hlater⟩ := hs
    refine ⟨later ++ [⟨event, n'.fd, n'.events, n'.callback⟩], ?_, ?_⟩
    · rw [hcalls, List.append_assoc]
    · intro call hcall habout
      rcases List.mem_append.mp hcall with hcall | hcall
      · exact hlater call hcall habout
      · obtain rfl := List.mem_singleton.mp hcall
        have hmem : event ∈ c.point.pending := by
          rw [hp]
          exact List.mem_cons_self
        obtain rfl : n' = n := Option.some.inj (hderef.symm.trans (h.deref hmem habout))
        rfl
  · unfold ServedSince
    rw [calls_of_ne_dispatch hl hstep]
    exact hs

theorem Kept.staysRegistered (h : Kept n False c) : StaysRegistered c n := by
  intro ls t hremove hrun
  have hclosed : Kept n (.closeFd n.fd ∈ ls) c :=
    ⟨h.leading, h.node, Or.inr (h.interest.resolve_left id), h.notRemoved⟩
  have hkept := hclosed.run hremove id hrun
  exact ⟨hkept.node, fun hclose => hkept.interest.resolve_left hclose⟩

theorem Kept.servesReported (h : Kept n False c) : ServesReported c n := by
  intro ls t hremove hrun
  have hopen : Kept n True c := ⟨h.leading, h.node, Or.inl trivial, h.notRemoved⟩
  have hboth : Kept n True t ∧ ServedSince n c.calls t := by
    have hguard : handlerStep.Along (fun _ l => l ≠ .removeHandler n.fd) c ls := by
      apply Machine.along_of_forall_mem
      exact fun _ l hl heq => hremove (heq ▸ hl)
    have hsteps : ∀ (s : HandlerLoop κ) l u, Kept n True s ∧ ServedSince n c.calls s →
        l ≠ .removeHandler n.fd → handlerStep s l = some u →
        Kept n True u ∧ ServedSince n c.calls u :=
      fun _ _ _ h hl hstep => ⟨h.1.step hl (fun _ => trivial) hstep, h.2.step h.1 hstep⟩
    exact Machine.run_invariant_along hsteps hrun hguard
      ⟨hopen, [], (List.append_nil _).symm, by simp⟩
  exact ⟨fun e he habout => hboth.1.deref he habout, hboth.2⟩

/-- A handler that is registered while no removal of its descriptor is put off is kept. -/
theorem kept_of_added {failure : Option Errno} (h : Leading c)
    (hstep : handlerStep c (.addHandler n.fd n.events n.callback n.address failure) = some t)
    (hok : (c.members.addHandler n.fd n.events n.callback n.address failure).1 = .ok ())
    (hremoved : n.fd ∉ c.members.removedHandlers) : Kept n False t := by
  have hleading := h.step hstep
  have hadded := Handlers.addHandler_of_ok hok
  obtain ⟨-, rfl⟩ := handlerStep_addHandler.mp hstep
  refine ⟨hleading, hadded.1, Or.inr hadded.2, ?_⟩
  show n.fd ∉ (c.members.addHandler n.fd n.events n.callback n.address failure).2.removedHandlers
  rwa [Handlers.addHandler_removedHandlers]

/-- User code that runs outside of a batch can open files under any numbers. -/
theorem exists_opening_run (hp : c.point = .idle) (fds : List Int) :
    ∃ ls t, (∀ l ∈ ls, ∃ fd, l = .openFd fd) ∧ handlerStep.run c ls = some t ∧ t.point = .idle ∧
      t.members.removedHandlers = c.members.removedHandlers ∧
      c.members.epoll.openFds ⊆ t.members.epoll.openFds ∧
      ∀ fd ∈ fds, fd ∈ t.members.epoll.openFds := by
  induction fds generalizing c with
  | nil => exact ⟨[], c, by simp, rfl, hp, rfl, List.Subset.refl _, by simp⟩
  | cons fd fds ih =>
    by_cases hopen : fd ∈ c.members.epoll.openFds
    · obtain ⟨ls, t, hls, hrun, hpt, hremoved, hsub, hall⟩ := ih hp
      exact ⟨ls, t, hls, hrun, hpt, hremoved, hsub,
        List.forall_mem_cons.mpr ⟨hsub hopen, hall⟩⟩
    · have hstep : handlerStep c (.openFd fd) = some { c with members := { c.members with
          epoll := c.members.epoll.openFd fd } } :=
        handlerStep_openFd.mpr ⟨⟨by rw [hp]; rfl, hopen⟩, rfl⟩
      obtain ⟨ls, t, hls, hrun, hpt, hremoved, hsub, hall⟩ :=
        ih (c := { c with members := { c.members with epoll := c.members.epoll.openFd fd } }) hp
      refine ⟨.openFd fd :: ls, t, List.forall_mem_cons.mpr ⟨⟨fd, rfl⟩, hls⟩,
        Machine.run_cons_eq_some.mpr ⟨_, hstep, hrun⟩, hpt, hremoved, fun fd' hfd' => ?_, ?_⟩
      · exact hsub (List.mem_append_left _ hfd')
      · exact List.forall_mem_cons.mpr
          ⟨hsub (List.mem_append_right _ List.mem_cons_self), hall⟩

/-- A batch without events is only its prune. -/
theorem empty_batch (hp : c.point = .idle) :
    ∃ t, handlerStep.run c [.epollWait (.ready []), .prune] = some t ∧
      t.members = ({ c.members with epollEvents := [] } : Handlers κ).prune.2 := by
  have hwait : handlerStep c (.epollWait (.ready [])) = some { c with
      members := { c.members with epollEvents := [], processingHandlers := true }
      point := .dispatching c.members.processingHandlers [] } :=
    handlerStep_epollWait.mpr ⟨hp, by simp [WaitOutcome.Possible], rfl⟩
  refine ⟨{ c with
    members := ({ c.members with epollEvents := [] } : Handlers κ).prune.2, point := .idle },
    Machine.run_cons_eq_some.mpr ⟨_, hwait, ?_⟩, rfl⟩
  rw [Machine.run_singleton]
  exact handlerStep_prune.mpr ⟨_, rfl, rfl⟩

/-- From any point of user code a run without removals leads to a prune that gets through. -/
theorem exists_pruning_run (huser : c.point.userCode = true) :
    ∃ ls t, (∀ fd, .removeHandler fd ∉ ls) ∧ handlerStep.run c ls = some t ∧
      ∀ fd ∈ c.members.removedHandlers, t.members.handled fd = false := by
  -- a handler that throws ends the batch
  obtain ⟨ls₀, s, hls₀, hrun₀, hs, hremoved₀⟩ : ∃ ls s, (∀ fd, .removeHandler fd ∉ ls) ∧
      handlerStep.run c ls = some s ∧ s.point = .idle ∧
      s.members.removedHandlers = c.members.removedHandlers := by
    cases hp : c.point with
    | idle => exact ⟨[], c, by simp, rfl, hp, rfl⟩
    | dispatching sentry events =>
      rw [hp] at huser
      cases huser
    | calling sentry events =>
      have hthrow : handlerStep c .handlerThrows = some { c with
          members := { c.members with processingHandlers := sentry }, point := .idle } :=
        handlerStep_handlerThrows.mpr ⟨sentry, events, hp, rfl⟩
      exact ⟨[.handlerThrows], _, by simp, (Machine.run_singleton _ _).trans hthrow, rfl, rfl⟩
  obtain ⟨ls₁, u, hls₁, hrun₁, hu, hremoved₁, -, hopen⟩ :=
    exists_opening_run hs s.members.removedHandlers
  obtain ⟨w, hw, hmembers⟩ := empty_batch hu
  refine ⟨ls₀ ++ (ls₁ ++ [.epollWait (.ready []), .prune]), w, fun fd hmem => ?_, ?_,
    fun fd hfd => ?_⟩
  · rcases List.mem_append.mp hmem with hmem | hmem
    · exact hls₀ fd hmem
    · rcases List.mem_append.mp hmem with hmem | hmem
      · obtain ⟨fd', hfd'⟩ := hls₁ _ hmem
        cases hfd'
      · simp at hmem
  · refine Machine.run_append_eq_some.mpr ⟨s, hrun₀, ?_⟩
    exact Machine.run_append_eq_some.mpr ⟨u, hrun₁, hw⟩
  · have hmem : fd ∈ u.members.removedHandlers := by rwa [hremoved₁, hremoved₀]
    have hall : ∀ fd ∈ u.members.removedHandlers, fd ∈ u.members.epoll.openFds :=
      fun fd' hfd' => hopen fd' (hremoved₁ ▸ hfd')
    have hforgets := Handlers.prune_forgets (s := { u.members with epollEvents := [] }) hall
    rw [hmembers]
    exact (hforgets fd hmem).1

/-- A handler whose descriptor has a removal that was put off is erased by a later prune. -/
theorem not_staysRegistered_of_put_off (huser : c.point.userCode = true)
    (hmem : n.fd ∈ c.members.removedHandlers) : ¬ StaysRegistered c n := by
  intro h
  obtain ⟨ls, t, hls, hrun, hpruned⟩ := exists_pruning_run huser
  have hnot := hpruned n.fd hmem
  rw [Handlers.handled_iff.mpr ⟨n, (h ls t (hls n.fd) hrun).1, rfl⟩] at hnot
  cases hnot

/-- **Lifetime of a registration.** A handler whose registration succeeded stays registered until it
is removed, exactly when no earlier removal of the same descriptor was put off at that time. -/
theorem stays_registered_iff (hc : handlerStep.Reachable {} c) {failure : Option Errno}
    (hstep : handlerStep c (.addHandler n.fd n.events n.callback n.address failure) = some t)
    (hok : (c.members.addHandler n.fd n.events n.callback n.address failure).1 = .ok ()) :
    StaysRegistered t n ↔ n.fd ∉ c.members.removedHandlers := by
  constructor
  · intro h hmem
    have htable : t.members.removedHandlers = c.members.removedHandlers :=
      handlerStep_removedHandlers (by simp) (by simp) hstep
    have huser : t.point.userCode = true := by
      obtain ⟨⟨huser, -⟩, rfl⟩ := handlerStep_addHandler.mp hstep
      exact huser
    exact not_staysRegistered_of_put_off huser (htable ▸ hmem) h
  · intro hremoved
    exact (kept_of_added (Leading.of_reachable hc) hstep hok hremoved).staysRegistered

theorem stays_registered_iff_first : ∃ t,
    handlerStep.run {} [.openFd 5, .addHandler 5 eventRead 50 100 none] = some t ∧
    StaysRegistered t ⟨100, 5, eventRead, (50 : ℕ)⟩ := by
  obtain ⟨c, t, hc, hnone, hok, ht⟩ : ∃ c t : HandlerLoop ℕ,
      handlerStep.run {} [.openFd 5] = some c ∧ c.members.removedHandlers = [] ∧
      (c.members.addHandler 5 eventRead 50 100 none).1 = .ok () ∧
      handlerStep c (.addHandler 5 eventRead 50 100 none) = some t := ⟨_, _, rfl, rfl, rfl, rfl⟩
  have hnot : (5 : Int) ∉ c.members.removedHandlers := by simp [hnone]
  refine ⟨t, ?_, (stays_registered_iff (n := ⟨100, 5, eventRead, 50⟩) ⟨_, hc⟩ ht hok).mpr hnot⟩
  exact Machine.run_append_eq_some.mpr ⟨c, hc, (Machine.run_singleton _ _).trans ht⟩

/-- A handler throws after it has removed itself, and is removed again outside of the batch. -/
def throwingAfterRemoval : List (HandlerStep ℕ) :=
  [.openFd 5, .addHandler 5 eventRead 50 100 none, .epollWait (.ready [(5, EPOLLIN)]), .dispatch,
    .removeHandler 5, .handlerThrows, .removeHandler 5]

/-- The next batch is over. -/
def nextBatch : List (HandlerStep ℕ) :=
  [.epollWait (.ready [(5, EPOLLIN)]), .dispatch, .handlerReturns, .prune]

/-- A handler that is registered in between is called once and then erased. -/
theorem stale_removal_erases_new_handler : ∃ c t u,
    handlerStep.run {} throwingAfterRemoval = some c ∧
    (c.members.addHandler 5 eventRead 51 101 none).1 = .ok () ∧
    handlerStep c (.addHandler 5 eventRead 51 101 none) = some t ∧
    handlerStep.run t nextBatch = some u ∧ .removeHandler 5 ∉ nextBatch ∧
    t.members.handled 5 = true ∧ u.members.handled 5 = false ∧
    u.members.epoll.registered 5 = false :=
  ⟨_, _, _, rfl, rfl, rfl, rfl, by decide, rfl, rfl, rfl⟩

theorem RemovedBefore.removed {fd : Int} (h : RemovedBefore fd c) : c.members.Removed fd := by
  obtain ⟨c₀, ls, -, hrun, hanew⟩ := h
  obtain ⟨c₁, hstep, hrun⟩ := Machine.run_cons_eq_some.mp hrun
  have hremoved : c₁.members.Removed fd := by
    obtain ⟨-, rfl⟩ := handlerStep_removeHandler.mp hstep
    exact Handlers.removed_removeHandler _ fd
  have hsteps : ∀ (s : HandlerLoop κ) l u, s.members.Removed fd → NotAnew fd s l →
      handlerStep s l = some u → u.members.Removed fd := fun _ _ _ h hl => removed_step h hl
  exact Machine.run_invariant_along hsteps hrun (hanew.2 c₁ hstep) hremoved

/-- **Registration after a removal.** When a handler was removed and its descriptor is open, one can
be registered anew, and serves it until it is removed in turn, exactly when no removal of the
descriptor is put off at that time. -/
theorem registers_anew_iff (hremoved : RemovedBefore n.fd c) (huser : c.point.userCode = true)
    (hfresh : ∀ n' ∈ c.members.handlers, n'.address ≠ n.address)
    (hopen : n.fd ∈ c.members.epoll.openFds) :
    RegistersAnew c n ↔ n.fd ∉ c.members.removedHandlers := by
  constructor
  · intro h hmem
    have htable : (c.added n).members.removedHandlers = c.members.removedHandlers :=
      Handlers.addHandler_removedHandlers _ _ _ _ _ _
    have huser' : (c.added n).point.userCode = true := huser
    exact not_staysRegistered_of_put_off huser' (htable ▸ hmem) h.stays
  · intro hnot
    have hc : handlerStep.Reachable {} c := by
      obtain ⟨c₀, ls, hc₀, hrun, -⟩ := hremoved
      exact hc₀.run hrun
    have hleading := Leading.of_reachable hc
    have hhandled : c.members.handled n.fd = false :=
      Bool.eq_false_iff.mpr fun hh => hnot (hremoved.removed hh)
    have hok := hleading.tables.addHandler_ok hhandled hopen n.events n.callback n.address
    have hstep : handlerStep c (.addHandler n.fd n.events n.callback n.address none) =
        some (c.added n) := handlerStep_addHandler.mpr ⟨⟨huser, hfresh⟩, rfl⟩
    have hkept := kept_of_added hleading hstep hok hnot
    exact ⟨hok, hkept.staysRegistered, hkept.servesReported⟩

/-- A handler is removed, its descriptor is closed, and the next file gets the number. -/
theorem registers_anew_iff_reused : ∃ c, handlerStep.run {}
      [.openFd 5, .addHandler 5 eventRead 50 100 none, .removeHandler 5, .closeFd 5, .openFd 5] =
        some c ∧
    RegistersAnew c ⟨101, 5, eventRead, (51 : ℕ)⟩ := by
  obtain ⟨c₀, c, hc₀, hc⟩ : ∃ c₀ c : HandlerLoop ℕ,
      handlerStep.run {} [.openFd 5, .addHandler 5 eventRead 50 100 none] = some c₀ ∧
      handlerStep.run c₀ [.removeHandler 5, .closeFd 5, .openFd 5] = some c := ⟨_, _, rfl, rfl⟩
  have hbefore : RemovedBefore 5 c :=
    ⟨c₀, _, ⟨_, hc₀⟩, hc, Machine.along_of_forall_mem (by simp [NotAnew])⟩
  have hrun := Machine.run_append_eq_some.mpr ⟨c₀, hc₀, hc⟩
  refine ⟨c, hrun, ?_⟩
  obtain rfl := Option.some.inj hrun
  exact (registers_anew_iff (n := ⟨101, 5, eventRead, 51⟩) hbefore rfl (by decide)
    (by decide)).mpr (by decide)

/-- In a batch the same fails: the handler that was removed is still in `handlers_`. -/
theorem removed_in_batch_is_already_handled : ∃ c : HandlerLoop ℕ, handlerStep.run {}
      [.openFd 5, .addHandler 5 eventRead 50 100 none, .epollWait (.ready [(5, EPOLLIN)]),
        .dispatch, .removeHandler 5, .closeFd 5, .openFd 5] = some c ∧
    (5 : Int) ∈ c.members.epoll.openFds ∧ c.members.epoll.registered 5 = false ∧
    (c.members.addHandler 5 eventRead 51 101 none).1 = .error .alreadyHandled :=
  ⟨_, rfl, by decide, rfl, rfl⟩

end Linuxpp.Ioloop
