import Linuxpp.Ioloop.Constructor
import Linuxpp.Ioloop.Proofs.OwnHandlersProofs
import Linuxpp.Net.Proofs.SocketsProofs

/-!
# Proofs: the constructor of `ioloop` gives a whole loop or nothing

The members are sound constructors, so they are sound together. Their descriptors are different ones
and open, so that the kernel can only refuse to register them for a reason of its own.
-/

namespace DescriptorTable

variable {φ : Type*} {t : DescriptorTable φ} {fd : Int}

theorem mem_openFds : fd ∈ t.openFds ↔ t.get fd ≠ none := by
  unfold openFds
  rw [List.mem_filter, Option.isSome_iff_ne_none]
  constructor
  · rintro ⟨-, hopen⟩
    exact hopen
  · intro hopen
    refine ⟨?_, hopen⟩
    have hnonneg : 0 ≤ fd := by
      by_contra hneg
      exact hopen (get_of_neg (by omega))
    have hslot : fd.toNat < t.slots.length := by
      by_contra hbeyond
      apply hopen
      unfold get
      rw [if_pos hnonneg, List.getElem?_eq_none (by omega)]
      rfl
    exact List.mem_map.mpr ⟨fd.toNat, List.mem_range.mpr hslot, Int.toNat_of_nonneg hnonneg⟩

theorem nodup_openFds (t : DescriptorTable φ) : t.openFds.Nodup :=
  (List.nodup_range.map fun _ _ h => Int.ofNat.inj h).filter _

end DescriptorTable

namespace Linuxpp.Ioloop

open Construction

section Registering

variable {κ : Type} {own : OwnFds} {done fs : List OwnFunction} {f : OwnFunction}
  {s : Handlers (HandlerFunction κ)}

/-- The functions `done` are registered, and no others; the descriptors of all are open. -/
structure Registers (own : OwnFds) (done : List OwnFunction) (s : Handlers (HandlerFunction κ)) :
    Prop where
  nodes : s.handlers = done.map own.node
  interest : s.epoll.interest =
    done.map fun f => ⟨own.fd f, epollEvents eventRead, own.address f⟩
  opened : ∀ f, own.fd f ∈ s.epoll.openFds

theorem Registers.not_handled (h : Registers own done s) (hf : f ∉ done) :
    s.handled (own.fd f) = false := by
  unfold Handlers.handled
  rw [h.nodes, List.any_eq_false]
  intro n hn heq
  obtain ⟨g, hg, rfl⟩ := List.mem_map.mp hn
  have hfd : own.fd g = own.fd f := of_decide_eq_true heq
  exact hf (own.fd_injective hfd ▸ hg)

theorem Registers.not_registered (h : Registers own done s) (hf : f ∉ done) :
    s.epoll.registered (own.fd f) = false := by
  unfold Epoll.registered
  rw [h.interest, List.any_eq_false]
  intro r hr heq
  obtain ⟨g, hg, rfl⟩ := List.mem_map.mp hr
  have hfd : own.fd g = own.fd f := of_decide_eq_true heq
  exact hf (own.fd_injective hfd ▸ hg)

/-- Such a call of `add_handler` throws only what the kernel reports for a reason of its own. -/
theorem Registers.addHandler_error (h : Registers own done s) (hf : f ∉ done) (errno : Errno) :
    ∃ s', s.addHandler (own.fd f) eventRead (.own f) (own.address f) (some errno) =
      (.error (.addFailed errno), s') := by
  refine ⟨_, Prod.ext ?_ rfl⟩
  unfold Handlers.addHandler Epoll.add Epoll.ctlAdd
  simp [h.not_handled hf, h.not_registered hf, h.opened f]

theorem Registers.addHandler_ok (h : Registers own done s) (hf : f ∉ done) :
    s.addHandler (own.fd f) eventRead (.own f) (own.address f) none = (.ok (), { s with
      handlers := s.handlers ++ [own.node f]
      epoll := { s.epoll with
        sizeEvents := s.epoll.sizeEvents + 1
        interest := s.epoll.interest ++
          [⟨own.fd f, epollEvents eventRead, own.address f⟩] } }) := by
  unfold Handlers.addHandler Epoll.add Epoll.ctlAdd
  simp [h.not_handled hf, h.not_registered hf, h.opened f, OwnFds.node]

theorem Registers.register (h : Registers own done s) (hf : f ∉ done) :
    s.addHandler (own.fd f) eventRead (.own f) (own.address f) none =
      (.ok (), own.register s f) ∧ Registers own (done ++ [f]) (own.register s f) ∧
      (own.register s f).epoll.openFds = s.epoll.openFds := by
  have hok := h.addHandler_ok hf
  have hregister : own.register s f = _ := congrArg Prod.snd hok
  rw [hregister]
  refine ⟨hok, ⟨?_, ?_, h.opened⟩, rfl⟩
  · rw [List.map_append, ← h.nodes]
    rfl
  · rw [List.map_append, ← h.interest]
    rfl

/-- The calls of the constructor throw what the first of them reports that fails. -/
theorem Registers.registerAll (h : Registers own done s) (hnodup : (done ++ fs).Nodup)
    (failure : OwnFunction → Option Errno) :
    (registerAll own.fd own.address failure fs s = (.ok (), fs.foldl own.register s) ∧
      (fs.map failure).reduceOption = []) ∨
    ∃ errno s', registerAll own.fd own.address failure fs s = (.error (.addFailed errno), s') ∧
      (fs.map failure).reduceOption.head? = some errno := by
  induction fs generalizing done s with
  | nil => exact .inl ⟨rfl, rfl⟩
  | cons f fs ih =>
    have hf : f ∉ done := not_mem_of_nodup_append_cons hnodup
    rw [List.map_cons]
    cases hfailure : failure f with
    | none =>
      obtain ⟨hok, hnext, -⟩ := h.register hf
      rw [List.append_cons] at hnodup
      have hcall : Ioloop.registerAll own.fd own.address failure (f :: fs) s =
          Ioloop.registerAll own.fd own.address failure fs (own.register s f) := by
        rw [Ioloop.registerAll, hfailure, hok]
      rw [hcall, List.reduceOption_cons_of_none]
      exact ih hnext hnodup
    | some errno =>
      obtain ⟨s', herror⟩ := h.addHandler_error hf errno
      refine .inr ⟨errno, s', ?_, rfl⟩
      rw [Ioloop.registerAll, hfailure, herror]

theorem Registers.foldl (h : Registers own done s) (hnodup : (done ++ fs).Nodup) :
    Registers own (done ++ fs) (fs.foldl own.register s) ∧
      (fs.foldl own.register s).epoll.openFds = s.epoll.openFds := by
  induction fs generalizing done s with
  | nil =>
    rw [List.append_nil]
    exact ⟨h, rfl⟩
  | cons f fs ih =>
    have hf : f ∉ done := not_mem_of_nodup_append_cons hnodup
    obtain ⟨-, hnext, hopen⟩ := h.register hf
    rw [List.append_cons] at hnodup ⊢
    obtain ⟨hlast, hlastOpen⟩ := ih hnext hnodup
    exact ⟨hlast, hlastOpen.trans hopen⟩

/-- Which other numbers are in use does not matter to the registrations. -/
theorem Registers.foldl_withOpenFds (h : Registers own done s) {openFds : List Int}
    (hopen : ∀ f, own.fd f ∈ openFds) (hnodup : (done ++ fs).Nodup) :
    fs.foldl own.register (s.withOpenFds openFds) =
      (fs.foldl own.register s).withOpenFds openFds := by
  induction fs generalizing done s with
  | nil => rfl
  | cons f fs ih =>
    have hf : f ∉ done := not_mem_of_nodup_append_cons hnodup
    have h' : Registers own done (s.withOpenFds openFds) := ⟨h.nodes, h.interest, hopen⟩
    have hregister : own.register s f = _ := congrArg Prod.snd (h.addHandler_ok hf)
    have hregister' : own.register (s.withOpenFds openFds) f = _ :=
      congrArg Prod.snd (h'.addHandler_ok hf)
    have hsame : own.register (s.withOpenFds openFds) f =
        (own.register s f).withOpenFds openFds := by
      rw [hregister, hregister']
      rfl
    rw [List.append_cons] at hnodup
    rw [List.foldl_cons, List.foldl_cons, hsame]
    exact ih (h.register hf).2.1 hnodup

end Registering

section Starting

variable {κ : Type} {own : OwnFds} {openFds : List Int}

theorem registers_nil (hopen : ∀ f, own.fd f ∈ openFds) :
    Registers own [] ({ epoll := { openFds := openFds } } : Handlers (HandlerFunction κ)) :=
  ⟨rfl, rfl, hopen⟩

/-- The handlers of the constructed loop are those that any process with the descriptors comes
to. -/
theorem construct_handlers (clock : TimeType) (hopen : ∀ f, own.fd f ∈ openFds) :
    (EventLoop.construct κ own clock).handlers =
      (OwnFunction.all.foldl own.register
        { epoll := { openFds := openFds } }).withOpenFds (OwnFunction.all.map own.fd) := by
  have hown : ∀ f, own.fd f ∈ OwnFunction.all.map own.fd := fun f => List.mem_map_of_mem f.mem_all
  have hnodup : ([] ++ OwnFunction.all).Nodup := by decide
  exact (registers_nil hopen).foldl_withOpenFds hown hnodup

/-- User code opens files under numbers that are not in use. -/
theorem openFds_reachable {c : EventLoop κ} (huser : c.userCode = true) (hfree : c.free = true)
    (hpoint : c.handlerView.point.userCode = true) {fds : List Int}
    (hnodup : (c.handlers.epoll.openFds ++ fds).Nodup) : eventLoopStep.Reachable c { c with
      handlers := c.handlers.withOpenFds (c.handlers.epoll.openFds ++ fds) } := by
  induction fds generalizing c with
  | nil =>
    refine ⟨[], ?_⟩
    rw [List.append_nil]
    rfl
  | cons fd fds ih =>
    have hfresh : fd ∉ c.handlers.epoll.openFds := not_mem_of_nodup_append_cons hnodup
    have hopened : handlerStep c.handlerView (.openFd fd) = some _ :=
      handlerStep_openFd.mpr ⟨⟨hpoint, hfresh⟩, rfl⟩
    have hstep : eventLoopStep c (.openFd fd) = some { c with
        handlers := c.handlers.withOpenFds (c.handlers.epoll.openFds ++ [fd]) } := by
      show c.handlersStep (.openFd fd) = _
      unfold EventLoop.handlersStep
      rw [huser, hfree, Bool.and_true, if_pos rfl, hopened]
      rfl
    rw [List.append_cons] at hnodup ⊢
    obtain ⟨ls, hls⟩ := ih (c := { c with
      handlers := c.handlers.withOpenFds (c.handlers.epoll.openFds ++ [fd]) }) huser hfree hpoint
        hnodup
    exact ⟨_ :: ls, Machine.run_cons_eq_some.mpr ⟨_, hstep, hls⟩⟩

/-- The program may have opened whatever else is open behind the constructor. -/
theorem reaches_openFds (clock : TimeType) (hopen : ∀ f, own.fd f ∈ openFds)
    (hnodup : openFds.Nodup) : ∃ openFds', openFds'.Perm openFds ∧
      eventLoopStep.Reachable (EventLoop.construct κ own clock)
        { EventLoop.construct κ own clock with
          handlers := (EventLoop.construct κ own clock).handlers.withOpenFds openFds' } := by
  have hown : (OwnFunction.all.map own.fd).Nodup :=
    List.Nodup.map own.fd_injective (by decide)
  have hconstructed : (EventLoop.construct κ own clock).handlers.epoll.openFds =
      OwnFunction.all.map own.fd := by
    rw [construct_handlers clock hopen]
    rfl
  have hall : (OwnFunction.all.map own.fd ++
      openFds.filter fun fd => fd ∉ OwnFunction.all.map own.fd).Nodup := by
    refine List.nodup_append.mpr ⟨hown, hnodup.filter _, ?_⟩
    rintro fd hfd fd' hfd' rfl
    exact of_decide_eq_true (List.mem_filter.mp hfd').2 hfd
  refine ⟨_, (List.perm_ext_iff_of_nodup hall hnodup).mpr fun fd => ?_, ?_⟩
  · rw [List.mem_append, List.mem_filter, decide_eq_true_eq]
    constructor
    · rintro (hfd | ⟨hfd, -⟩)
      · obtain ⟨f, -, rfl⟩ := List.mem_map.mp hfd
        exact hopen f
      · exact hfd
    · intro hfd
      by_cases hmem : fd ∈ OwnFunction.all.map own.fd
      · exact .inl hmem
      · exact .inr ⟨hfd, hmem⟩
  · rw [← hconstructed] at hall ⊢
    exact openFds_reachable rfl rfl rfl hall

end Starting

section Members

variable {κ : Type} {held : List Int} {stop timeout periodicTimeout callbacks : UniqueFd}
  {address : OwnFunction → ℕ} {t u : DescriptorTable FileDescription}

theorem ownFd_injective
    (h : [stop.get, timeout.get, periodicTimeout.get, callbacks.get].Nodup) :
    Function.Injective (ownFd stop timeout periodicTimeout callbacks) := by
  simp only [List.nodup_cons, List.mem_cons, List.not_mem_nil, not_or, or_false, not_false_eq_true,
    List.nodup_nil, and_true] at h
  obtain ⟨⟨h₁, h₂, h₃⟩, ⟨h₄, h₅⟩, h₆⟩ := h
  intro f g hfd
  cases f <;> cases g <;> simp only [ownFd] at hfd <;> first | rfl | omega

/-- The members whose descriptors are registered, as the loop knows them. -/
def ownFds (h : [stop.get, timeout.get, periodicTimeout.get, callbacks.get].Nodup)
    (haddress : Function.Injective address) : OwnFds where
  fd := ownFd stop timeout periodicTimeout callbacks
  address := address
  fd_injective := ownFd_injective h
  address_injective := haddress

/-- The body returns the handlers of a new loop, or throws what the first call of `add_handler` does
that throws. -/
theorem registerOwn_cases (κ : Type) (own : OwnFds) (failure : OwnFunction → Option Errno)
    (hopen : ∀ f, t.get (own.fd f) ≠ none) :
    (registerOwn own.fd own.address failure t = (.ok (OwnFunction.all.foldl own.register
        { epoll := { openFds := t.openFds } } : Handlers (HandlerFunction κ)), t) ∧
      (OwnFunction.all.map failure).reduceOption = []) ∨
    ∃ errno, (registerOwn own.fd own.address failure :
        Attempt _ _ (Handlers (HandlerFunction κ))) t = (.error (.handler (.addFailed errno)), t) ∧
      (OwnFunction.all.map failure).reduceOption.head? = some errno := by
  have hnone : Registers own [] ({ epoll := { openFds := t.openFds } } :
      Handlers (HandlerFunction κ)) :=
    registers_nil fun f => DescriptorTable.mem_openFds.mpr (hopen f)
  have hnodup : ([] ++ OwnFunction.all).Nodup := by decide
  rcases hnone.registerAll hnodup failure with ⟨hok, hnofail⟩ | ⟨errno, s', herror, hfirst⟩
  · refine .inl ⟨?_, hnofail⟩
    unfold registerOwn
    rw [hok]
  · refine .inr ⟨errno, ?_, hfirst⟩
    unfold registerOwn
    rw [herror]

theorem registerOwn_keeps (κ : Type) (address : OwnFunction → ℕ) (fd : OwnFunction → Int)
    (failure : OwnFunction → Option Errno) (t : DescriptorTable FileDescription) :
    ((registerOwn fd address failure : Attempt _ _ (Handlers (HandlerFunction κ))) t).2 = t := by
  unfold registerOwn
  rcases registerAll fd address failure OwnFunction.all
    { epoll := { openFds := t.openFds } } with ⟨e | -, s⟩
  · rfl
  · rfl

/-- The body, behind the five members. -/
theorem reports_registerOwn {epoll : UniqueFd} (haddress : Function.Injective address)
    (hheld : held = [stop.get, timeout.get, periodicTimeout.get, callbacks.get, epoll.get])
    (failure : OwnFunction → Option Errno) : Reports ClosesOnExec held
      ((OwnFunction.all.map failure).map (Option.map fun errno => .handler (.addFailed errno)))
      (registerOwn (ownFd stop timeout periodicTimeout callbacks) address failure :
        Attempt _ _ (Handlers (HandlerFunction κ))) := by
  intro t ht
  have hnodup : [stop.get, timeout.get, periodicTimeout.get, callbacks.get].Nodup := by
    have hdistinct := ht.distinct
    rw [hheld] at hdistinct
    exact hdistinct.sublist (by simp)
  have hopen : ∀ f, t.get ((ownFds hnodup haddress).fd f) ≠ none := by
    intro f
    refine ht.get_ne_none ?_
    rw [hheld]
    cases f <;> simp [ownFds, ownFd]
  rw [List.reduceOption_map]
  rcases registerOwn_cases κ (ownFds hnodup haddress) failure hopen with
    ⟨hok, hnofail⟩ | ⟨errno, herror, hfirst⟩
  · exact .inl ⟨_, t, hok, by rw [hnofail]; rfl⟩
  · exact .inr ⟨_, t, herror, by rw [List.head?_map, hfirst]; rfl⟩

section Member

variable {β : Type} {make : Constructor UniqueFd}
  {rest : UniqueFd → Attempt FileDescription IoloopError β} {own : β → List Int}
  {failure : Option SystemError} {failures : List (Option IoloopError)}

theorem sound_ioloopMember (hmake : Sound ClosesOnExec held make UniqueFd.fds)
    (hrest : ∀ u, Sound ClosesOnExec (held ++ u.fds) (rest u) own) :
    Sound ClosesOnExec held (ioloopMember make rest) fun p => p.1.fds ++ own p.2 :=
  hmake.mapError.member hrest

theorem reports_ioloopMember (hsound : Sound ClosesOnExec held make UniqueFd.fds)
    (hmake : Reports ClosesOnExec held [failure] make)
    (hrest : ∀ u, Reports ClosesOnExec (held ++ u.fds) failures (rest u)) :
    Reports ClosesOnExec held (failure.map .member :: failures) (ioloopMember make rest) :=
  hmake.mapError.member hsound.mapError hrest

end Member

/-- The constructor of the loop. -/
theorem sound_ioloop (calls : IoloopCalls) :
    Sound ClosesOnExec [] (ioloop κ address calls) IoloopObject.fds := by
  have hstop : Sound ClosesOnExec [] (eventfd 0 0 calls.stopEventfd) UniqueFd.fds :=
    Net.sound_eventfd 0 0 _
  have hmembers := sound_ioloopMember hstop fun stop =>
    sound_ioloopMember (Net.sound_timerfd 0 calls.timeoutTimerfd) fun timeout =>
      sound_ioloopMember (Net.sound_timerfd 0 calls.periodicTimeoutTimerfd) fun periodicTimeout =>
        sound_ioloopMember (Net.sound_eventfd 0 EFD_NONBLOCK calls.callbacksEventfd)
          fun callbacks => sound_ioloopMember (Net.sound_epoll calls.epoll) fun _ =>
            sound_of_kept (registerOwn_keeps κ address
              (ownFd stop timeout periodicTimeout callbacks) calls.epollCtl)
  exact hmembers.map fun _ => rfl

theorem reports_ioloop (haddress : Function.Injective address) (calls : IoloopCalls) :
    Reports ClosesOnExec [] calls.failures (ioloop κ address calls) := by
  refine Reports.map ?_
  refine reports_ioloopMember (Net.sound_eventfd 0 0 _) (Net.reports_uniqueFd _ _ _) fun stop => ?_
  refine reports_ioloopMember (Net.sound_timerfd 0 _) (Net.reports_uniqueFd _ _ _)
    fun timeout => ?_
  refine reports_ioloopMember (Net.sound_timerfd 0 _) (Net.reports_uniqueFd _ _ _)
    fun periodicTimeout => ?_
  refine reports_ioloopMember (Net.sound_eventfd 0 EFD_NONBLOCK _) (Net.reports_uniqueFd _ _ _)
    fun callbacks => ?_
  refine reports_ioloopMember (Net.sound_epoll _) (Net.reports_uniqueFd _ _ _) fun epoll => ?_
  exact reports_registerOwn haddress rfl calls.epollCtl

variable {calls : IoloopCalls} {o : IoloopObject κ}

theorem ioloopMember_eq_ok {β : Type} {make : Constructor UniqueFd}
    {rest : UniqueFd → Attempt FileDescription IoloopError β} {p : UniqueFd × β}
    (h : ioloopMember make rest t = (.ok p, u)) : ∃ v, rest p.1 v = (.ok p.2, u) := by
  obtain ⟨v, -, hrest⟩ := member_eq_ok h
  exact ⟨v, hrest⟩

/-- A constructor that returns has come to the end of its body. -/
theorem registerOwn_of_ioloop (h : ioloop κ address calls t = (.ok o, u)) :
    registerOwn o.fd address calls.epollCtl u = (.ok o.handlers, u) := by
  obtain ⟨⟨stop, timeout, periodicTimeout, callbacks, epoll, handlers⟩, h₀, rfl⟩ := map_eq_ok h
  obtain ⟨v₁, h₁⟩ := ioloopMember_eq_ok h₀
  obtain ⟨v₂, h₂⟩ := ioloopMember_eq_ok h₁
  obtain ⟨v₃, h₃⟩ := ioloopMember_eq_ok h₂
  obtain ⟨v₄, h₄⟩ := ioloopMember_eq_ok h₃
  obtain ⟨v₅, h₅⟩ := ioloopMember_eq_ok h₄
  have hkept := registerOwn_keeps κ address (ownFd stop timeout periodicTimeout callbacks)
    calls.epollCtl v₅
  rw [h₅] at hkept
  obtain rfl : u = v₅ := hkept
  exact h₅

/-- The descriptors of the members are different ones. -/
theorem IoloopObject.nodup_of_acquired (h : Acquired ClosesOnExec [] t u o.fds) :
    [o.stopEventfd.get, o.timeoutTimerfd.get, o.periodicTimeoutTimerfd.get,
      o.callbacksEventfd.get].Nodup := by
  have hdistinct := h.isOpen.distinct
  rw [List.nil_append] at hdistinct
  exact hdistinct.sublist (by simp [IoloopObject.fds])

theorem IoloopObject.fd_mem_fds (o : IoloopObject κ) (f : OwnFunction) : o.fd f ∈ o.fds := by
  cases f <;> simp [IoloopObject.fd, IoloopObject.fds, ownFd]

/-- A loop that is constructed starts as the runs of the event loop do. -/
theorem startsAsConstructed (haddress : Function.Injective address)
    (h : ioloop κ address calls t = (.ok o, u)) (hacquired : Acquired ClosesOnExec [] t u o.fds) :
    ∃ own, o.StartsAsConstructed own address u := by
  let own := ownFds (IoloopObject.nodup_of_acquired hacquired) haddress
  have hopen : ∀ f, u.get (own.fd f) ≠ none := fun f =>
    hacquired.isOpen.get_ne_none (o.fd_mem_fds f)
  have hmem : ∀ f, own.fd f ∈ u.openFds := fun f => DescriptorTable.mem_openFds.mpr (hopen f)
  have hbody := registerOwn_of_ioloop h
  have hhandlers : o.handlers = OwnFunction.all.foldl own.register
      { epoll := { openFds := u.openFds } } := by
    rcases registerOwn_cases κ own calls.epollCtl hopen with ⟨hok, -⟩ | ⟨errno, herror, -⟩
    · exact Except.ok.inj (congrArg Prod.fst (hbody.symm.trans hok))
    · have hfst := congrArg Prod.fst (hbody.symm.trans herror)
      cases hfst
  have hnodup : ([] ++ OwnFunction.all).Nodup := by decide
  refine ⟨own, rfl, rfl, ?_, fun clock => ?_⟩
  · rw [hhandlers]
    exact ((registers_nil hmem).foldl hnodup).2
  · obtain ⟨openFds, hperm, hreached⟩ :=
      reaches_openFds (κ := κ) clock hmem (DescriptorTable.nodup_openFds u)
    refine ⟨openFds, hperm, ?_⟩
    rw [construct_handlers clock hmem, ← hhandlers] at hreached
    exact hreached

/-- **The constructor of `ioloop` gives a whole loop or nothing.** If none of its system calls fails,
the object has five new descriptors that `execve` closes, and its thread starts as the runs of the
event loop do; otherwise it throws what the first failing call reports, and every descriptor is as it
was. -/
theorem ioloop_constructs_a_loop_or_nothing (haddress : Function.Injective address)
    (calls : IoloopCalls) (t : DescriptorTable FileDescription) :
    (∃ (o : IoloopObject κ) (u : _) (own : OwnFds), ioloop κ address calls t = (.ok o, u) ∧
      calls.failures.reduceOption = [] ∧ Acquired ClosesOnExec [] t u o.fds ∧
      o.StartsAsConstructed own address u) ∨
    ∃ e u, ioloop κ address calls t = (.error e, u) ∧
      calls.failures.reduceOption.head? = some e ∧ ∀ fd, u.get fd = t.get fd := by
  have hnone : HasOpen ClosesOnExec t [] :=
    ⟨List.nodup_nil, fun fd hfd => absurd hfd List.not_mem_nil⟩
  have hsound : Sound ClosesOnExec [] (ioloop κ address calls) IoloopObject.fds :=
    sound_ioloop calls
  rcases reports_ioloop (κ := κ) haddress calls t hnone with
    ⟨o, u, hok, hnofail⟩ | ⟨e, u, herror, hfirst⟩
  · have hacquired := hsound.returns t o u hnone hok
    obtain ⟨own, hstarts⟩ := startsAsConstructed haddress hok hacquired
    exact .inl ⟨o, u, own, hok, hnofail, hacquired, hstarts⟩
  · have hkept := hsound.throws t e u hnone herror
    exact .inr ⟨e, u, herror, hfirst, fun fd => hkept fd List.not_mem_nil⟩

/-- There are descriptors left for three members only. -/
theorem ioloop_constructs_a_loop_or_nothing_three_left :
    ∃ u, ioloop Unit OwnFunction.all.idxOf { callbacksEventfd := some .EMFILE }
        ⟨[some .other, some .other, some .other]⟩ =
        (.error (.member (systemError "eventfd system call failed" .EMFILE)), u) ∧
      ∀ fd, u.get fd = DescriptorTable.get ⟨[some .other, some .other, some .other]⟩ fd := by
  have haddress : Function.Injective OwnFunction.all.idxOf := by
    intro f g h
    cases f <;> cases g <;> revert h <;> decide
  rcases ioloop_constructs_a_loop_or_nothing (κ := Unit) haddress
    { callbacksEventfd := some .EMFILE } ⟨[some .other, some .other, some .other]⟩ with
    ⟨o, u, own, -, hnofail, -⟩ | ⟨e, u, herror, hfirst, hkept⟩
  · exact absurd hnofail (List.cons_ne_nil _ _)
  · obtain rfl := Option.some.inj hfirst
    exact ⟨u, herror, hkept⟩

end Members

end Linuxpp.Ioloop
