import Linuxpp.Foundations.Keyed
import Linuxpp.Ioloop.Handlers

/-!
# Proofs: `handlers_` and the interest set

`add_handler` and the removals change `handlers_` and the interest set of the epoll instance by
two separate calls. The invariant is that the two tables list the same descriptors in the same
order, which every operation restores before user code runs again. A node is only erased behind the
last event of a batch, so the pointers of the events that are still to come stay valid.
-/

namespace Linuxpp.Ioloop

variable {κ : Type}

/-- The registration that `add_handler` makes for a node. -/
def HandlerNode.registration (n : HandlerNode κ) : Registration where
  fd := n.fd
  events := epollEvents n.events
  ptr := n.address

theorem resizeEvents_length (events : List EpollEvent) (n : ℕ) :
    (resizeEvents events n).length = n := by
  simp only [resizeEvents, List.length_append, List.length_take, List.length_replicate]
  omega

namespace Handlers

/-- `handlers_`, the interest set and `size_events` are in step. -/
structure InStep (s : Handlers κ) : Prop where
  addresses : (s.handlers.map HandlerNode.address).Nodup
  fds : (s.handlers.map HandlerNode.fd).Nodup
  interest : s.epoll.interest = s.handlers.map HandlerNode.registration
  size : s.epoll.sizeEvents = s.epoll.interest.length
  opened : ∀ n ∈ s.handlers, n.fd ∈ s.epoll.openFds

variable {s : Handlers κ} {fd : Int}

theorem handled_iff : s.handled fd = true ↔ ∃ n ∈ s.handlers, n.fd = fd := by
  simp [handled]

theorem not_handled_iff : s.handled fd = false ↔ fd ∉ s.handlers.map HandlerNode.fd := by
  rw [← Bool.not_eq_true, handled_iff, List.mem_map]

theorem mem_erase {n : HandlerNode κ} :
    n ∈ (s.erase fd).handlers ↔ n ∈ s.handlers ∧ n.fd ≠ fd := by
  simp [erase]

theorem erase_of_not_handled (h : s.handled fd = false) : s.erase fd = s := by
  unfold erase
  rw [Keyed.filter_of_not_mem (not_handled_iff.mp h)]

theorem not_handled_erase : (s.erase fd).handled fd = false := by
  simp [handled, erase]

theorem InStep.registered_eq (h : s.InStep) : s.epoll.registered fd = s.handled fd := by
  unfold Epoll.registered handled
  rw [h.interest, List.any_map]
  rfl

theorem InStep.interest_fds (h : s.InStep) :
    s.epoll.interest.map Registration.fd = s.handlers.map HandlerNode.fd := by
  rw [h.interest, List.map_map]
  rfl

theorem InStep.filter_interest (h : s.InStep) (fd : Int) :
    (s.epoll.interest.filter fun r => r.fd ≠ fd) =
      (s.erase fd).handlers.map HandlerNode.registration := by
  rw [h.interest, List.filter_map]
  rfl

/-- `handlers_` and the interest set without `fd`, which is how a removal leaves them. -/
def forget (s : Handlers κ) (fd : Int) : Handlers κ :=
  { s.erase fd with epoll := (s.epoll.del fd).2 }

theorem add_cases (e : Epoll) (fd : Int) (events : UInt32) (context : ℕ) (failure : Option Errno) :
    (∃ errno, e.add fd events context failure = (.error errno, e)) ∨
      fd ∈ e.openFds ∧ e.add fd events context failure =
        (.ok (), { e with
          sizeEvents := e.sizeEvents + 1
          interest := e.interest ++ [⟨fd, events, context⟩] }) := by
  unfold Epoll.add Epoll.ctlAdd
  by_cases hopen : fd ∈ e.openFds
  · rw [if_neg (not_not_intro hopen)]
    by_cases hreg : e.registered fd = true
    · rw [if_pos hreg]
      exact Or.inl ⟨.EEXIST, rfl⟩
    · rw [if_neg hreg]
      cases failure with
      | none => exact Or.inr ⟨hopen, rfl⟩
      | some errno => exact Or.inl ⟨errno, rfl⟩
  · rw [if_pos hopen]
    exact Or.inl ⟨.EBADF, rfl⟩

/-- `EPOLL_CTL_DEL` of a descriptor that is not open fails with `EBADF`. -/
theorem del_of_not_mem {e : Epoll} (h : fd ∉ e.openFds) : e.del fd = (.error .EBADF, e) := by
  unfold Epoll.del Epoll.ctlDel
  rw [if_pos h]

theorem del_of_registered {e : Epoll} (h : fd ∈ e.openFds) (hreg : e.registered fd = true) :
    e.del fd = (.ok (), { e with
      sizeEvents := e.sizeEvents - 1
      interest := e.interest.filter fun r => r.fd ≠ fd }) := by
  unfold Epoll.del Epoll.ctlDel
  rw [if_neg (not_not_intro h), if_pos hreg]

theorem del_of_not_registered {e : Epoll} (h : fd ∈ e.openFds) (hreg : e.registered fd = false) :
    e.del fd = (.error .ENOENT, e) := by
  unfold Epoll.del Epoll.ctlDel
  rw [if_neg (not_not_intro h), if_neg (by simp [hreg])]

@[simp] theorem del_openFds (e : Epoll) (fd : Int) : (e.del fd).2.openFds = e.openFds := by
  by_cases hopen : fd ∈ e.openFds
  · cases hreg : e.registered fd with
    | true => rw [del_of_registered hopen hreg]
    | false => rw [del_of_not_registered hopen hreg]
  · rw [del_of_not_mem hopen]

/-- A descriptor that is in the interest set stays there only where it is not open. -/
theorem del_not_registered {e : Epoll} (h : fd ∈ e.openFds) :
    (e.del fd).2.registered fd = false := by
  cases hreg : e.registered fd with
  | true =>
    rw [del_of_registered h hreg]
    simp [Epoll.registered]
  | false => rw [del_of_not_registered h hreg, hreg]

@[simp] theorem forget_openFds : (s.forget fd).epoll.openFds = s.epoll.openFds :=
  del_openFds s.epoll fd

/-- Outside a batch a handler that is found is erased at once, and the removal throws exactly when
the descriptor was closed. -/
theorem removeHandler_of_handled (hh : s.handled fd = true) (hp : s.processingHandlers = false) :
    s.removeHandler fd =
      (if fd ∈ s.epoll.openFds then .ok () else .error (.removeFailed .EBADF), s.forget fd) := by
  have hs : (s.erase fd).epoll = s.epoll := rfl
  unfold removeHandler forget
  rw [if_neg (not_not_intro hh), if_neg (by simp [hp])]
  dsimp only
  rw [hs]
  by_cases hopen : fd ∈ s.epoll.openFds
  · rw [if_pos hopen]
    cases hreg : s.epoll.registered fd with
    | true => rw [del_of_registered hopen hreg]
    | false =>
      rw [del_of_not_registered hopen hreg]
      rfl
  · rw [if_neg hopen, del_of_not_mem hopen]
    rfl

theorem removeHandler_of_not_handled (hh : s.handled fd = false) :
    s.removeHandler fd = (.ok (), s) := by
  unfold removeHandler
  rw [if_pos (by simp [hh])]

theorem removeHandler_of_processing (hh : s.handled fd = true)
    (hp : s.processingHandlers = true) :
    s.removeHandler fd = (.ok (), { s with removedHandlers := s.removedHandlers ++ [fd] }) := by
  unfold removeHandler
  rw [if_neg (not_not_intro hh), if_pos hp]

/-- One pass of the loop over the removed handlers. -/
theorem pruneLoop_cons (fds : List Int) : s.pruneLoop (fd :: fds) =
    if fd ∈ s.epoll.openFds then (s.forget fd).pruneLoop fds
    else (.error (.pruneFailed .EBADF), s) := by
  by_cases hopen : fd ∈ s.epoll.openFds
  · rw [if_pos hopen]
    rw [pruneLoop, forget]
    cases hreg : s.epoll.registered fd with
    | true =>
      rw [del_of_registered hopen hreg]
      rfl
    | false =>
      rw [del_of_not_registered hopen hreg]
      rfl
  · rw [if_neg hopen, pruneLoop, del_of_not_mem hopen]
    rfl

/-- What the removal of one handler preserves is preserved by the loop. -/
theorem pruneLoop_preserves {P : Handlers κ → Prop} (hP : ∀ s fd, P s → P (s.forget fd))
    (fds : List Int) (hs : P s) : P (s.pruneLoop fds).2 := by
  induction fds generalizing s with
  | nil => exact hs
  | cons fd fds ih =>
    rw [pruneLoop_cons]
    split_ifs with hopen
    · exact ih (hP s fd hs)
    · exact hs

/-- `prune` is the loop, and clears the list of the removed handlers unless the loop throws. -/
theorem prune_eq (s : Handlers κ) : s.prune =
    ((s.pruneLoop s.removedHandlers).1,
      match (s.pruneLoop s.removedHandlers).1 with
      | .ok () => { (s.pruneLoop s.removedHandlers).2 with removedHandlers := [] }
      | .error _ => (s.pruneLoop s.removedHandlers).2) := by
  unfold prune
  by_cases hr : s.removedHandlers = []
  · obtain ⟨handlers, processingHandlers, removedHandlers, epollEvents, epoll⟩ := s
    obtain rfl : removedHandlers = [] := hr
    rfl
  · rw [if_neg hr]
    cases h : s.pruneLoop s.removedHandlers with
    | mk result s' => cases result <;> rfl

section KeptByRemovals

variable {P : Handlers κ → Prop}

/-- A fact that the removal of a handler keeps, and that does not depend on the removals that were
put off. -/
structure KeptByRemovals (P : Handlers κ → Prop) : Prop where
  forget : ∀ s fd, P s → P (s.forget fd)
  removed : ∀ s fds, P s → P { s with removedHandlers := fds }

theorem KeptByRemovals.removeHandler (hP : KeptByRemovals P) (h : P s) (fd : Int) :
    P (s.removeHandler fd).2 := by
  cases hh : s.handled fd with
  | false =>
    rw [removeHandler_of_not_handled hh]
    exact h
  | true =>
    cases hp : s.processingHandlers with
    | false =>
      rw [removeHandler_of_handled hh hp]
      exact hP.forget s fd h
    | true =>
      rw [removeHandler_of_processing hh hp]
      exact hP.removed s _ h

theorem KeptByRemovals.prune (hP : KeptByRemovals P) (h : P s) : P s.prune.2 := by
  have hloop : P (s.pruneLoop s.removedHandlers).2 := pruneLoop_preserves hP.forget _ h
  rw [prune_eq]
  cases (s.pruneLoop s.removedHandlers).1 with
  | ok _ => exact hP.removed _ [] hloop
  | error _ => exact hloop

end KeptByRemovals

section InStep

/-- The tables do not read the members that `with` changes here. -/
theorem InStep.congr {s' : Handlers κ} (h : s.InStep) (hh : s'.handlers = s.handlers)
    (he : s'.epoll = s.epoll) : s'.InStep where
  addresses := hh ▸ h.addresses
  fds := hh ▸ h.fds
  interest := by rw [he, hh, h.interest]
  size := he ▸ h.size
  opened := by
    rw [he, hh]
    exact h.opened

/-- `add_handler` either changes nothing, or appends a node and its registration. -/
theorem addHandler_cases (s : Handlers κ) (fd : Int) (events : UInt32) (callback : κ)
    (address : ℕ) (failure : Option Errno) :
    (s.addHandler fd events callback address failure).2 = s ∨
      s.handled fd = false ∧ fd ∈ s.epoll.openFds ∧
      (s.addHandler fd events callback address failure).1 = .ok () ∧
      (s.addHandler fd events callback address failure).2 =
        { s with
          handlers := s.handlers ++ [HandlerNode.mk address fd events callback]
          epoll := { s.epoll with
            sizeEvents := s.epoll.sizeEvents + 1
            interest := s.epoll.interest ++ [⟨fd, Ioloop.epollEvents events, address⟩] } } := by
  unfold addHandler
  cases hh : s.handled fd with
  | true => exact Or.inl rfl
  | false =>
    rw [if_neg Bool.false_ne_true]
    dsimp only
    rcases add_cases s.epoll fd (Ioloop.epollEvents events) address failure with
      ⟨errno, hadd⟩ | ⟨hopen, hadd⟩
    · left
      rw [hadd]
      have hrest : s.handlers.filter (fun n => n.fd ≠ fd) = s.handlers :=
        Keyed.filter_of_not_mem (not_handled_iff.mp hh)
      dsimp only [erase]
      rw [List.filter_append, hrest, List.filter_cons_of_neg (by simp), List.filter_nil,
        List.append_nil]
    · right
      rw [hadd]
      exact ⟨rfl, hopen, rfl, rfl⟩

theorem InStep.addHandler (h : s.InStep) {events : UInt32} {callback : κ} {address : ℕ}
    {failure : Option Errno} (hfresh : ∀ n ∈ s.handlers, n.address ≠ address) :
    (s.addHandler fd events callback address failure).2.InStep := by
  rcases addHandler_cases s fd events callback address failure with
    heq | ⟨hh, hopen, -, heq⟩
  · rw [heq]
    exact h
  · rw [heq]
    have hfd := not_handled_iff.mp hh
    have haddress : address ∉ s.handlers.map HandlerNode.address := by
      intro hmem
      obtain ⟨n, hn, hna⟩ := List.mem_map.mp hmem
      exact hfresh n hn hna
    refine ⟨?_, ?_, ?_, ?_, ?_⟩
    · rw [List.map_append]
      exact h.addresses.append (List.nodup_singleton _) (List.disjoint_singleton.mpr haddress)
    · rw [List.map_append]
      exact h.fds.append (List.nodup_singleton _) (List.disjoint_singleton.mpr hfd)
    · rw [List.map_append, ← h.interest]
      rfl
    · simp [h.size]
    · intro n hn
      rcases List.mem_append.mp hn with hn | hn
      · exact h.opened n hn
      · obtain rfl := List.mem_singleton.mp hn
        exact hopen

theorem InStep.forget (h : s.InStep) (fd : Int) : (s.forget fd).InStep := by
  cases hh : s.handled fd with
  | false =>
    have hreg : s.epoll.registered fd = false := by rw [h.registered_eq, hh]
    have hdel : (s.epoll.del fd).2 = s.epoll := by
      by_cases hopen : fd ∈ s.epoll.openFds
      · rw [del_of_not_registered hopen hreg]
      · rw [del_of_not_mem hopen]
    refine h.congr ?_ hdel
    show (s.erase fd).handlers = s.handlers
    rw [erase_of_not_handled hh]
  | true =>
    obtain ⟨n, hn, rfl⟩ := handled_iff.mp hh
    have hreg : s.epoll.registered n.fd = true := by rw [h.registered_eq, hh]
    have hdel := del_of_registered (h.opened n hn) hreg
    have hfilter := h.filter_interest n.fd
    unfold Handlers.forget
    rw [hdel]
    refine ⟨?_, ?_, hfilter, ?_, ?_⟩
    · exact h.addresses.sublist (List.filter_sublist.map _)
    · exact h.fds.sublist (List.filter_sublist.map _)
    · have hr : n.registration ∈ s.epoll.interest := h.interest ▸ List.mem_map_of_mem hn
      have hfds : (s.epoll.interest.map Registration.fd).Nodup := h.interest_fds ▸ h.fds
      have hlen := Keyed.length_filter_of_mem hfds hr
      show s.epoll.sizeEvents - 1 = _
      rw [h.size, ← hlen]
      rfl
    · intro n' hn'
      exact h.opened n' (mem_erase.mp hn').1

theorem InStep.keptByRemovals : KeptByRemovals (InStep (κ := κ)) :=
  ⟨fun _ fd h => h.forget fd, fun _ _ h => h.congr rfl rfl⟩

theorem InStep.removeHandler (h : s.InStep) (fd : Int) : (s.removeHandler fd).2.InStep :=
  keptByRemovals.removeHandler h fd

theorem InStep.prune (h : s.InStep) : s.prune.2.InStep := keptByRemovals.prune h

/-- Closing a descriptor that has no handler. -/
theorem InStep.closeFd (h : s.InStep) (hh : s.handled fd = false) :
    ({ s with epoll := s.epoll.closeFd fd } : Handlers κ).InStep := by
  have hinterest : (s.epoll.interest.filter fun r => r.fd ≠ fd) = s.epoll.interest := by
    apply Keyed.filter_of_not_mem
    rw [h.interest_fds]
    exact not_handled_iff.mp hh
  refine ⟨h.addresses, h.fds, ?_, ?_, ?_⟩
  · exact hinterest.trans h.interest
  · exact h.size.trans (congrArg List.length hinterest).symm
  · intro n hn
    have hne : n.fd ≠ fd := fun heq => not_handled_iff.mp hh (heq ▸ List.mem_map_of_mem hn)
    simpa [Epoll.closeFd, hne] using h.opened n hn

end InStep

section Backed

/-- Every member of the interest set is open and points to the node that it was made for. This also
holds after a descriptor with a handler was closed. -/
structure Backed (s : Handlers κ) : Prop where
  addresses : (s.handlers.map HandlerNode.address).Nodup
  fds : (s.handlers.map HandlerNode.fd).Nodup
  node : ∀ r ∈ s.epoll.interest, ∃ n ∈ s.handlers, n.registration = r
  opened : ∀ r ∈ s.epoll.interest, r.fd ∈ s.epoll.openFds

theorem InStep.backed (h : s.InStep) : s.Backed where
  addresses := h.addresses
  fds := h.fds
  node := by
    intro r hr
    rw [h.interest] at hr
    exact List.mem_map.mp hr
  opened := by
    intro r hr
    rw [h.interest] at hr
    obtain ⟨n, hn, rfl⟩ := List.mem_map.mp hr
    exact h.opened n hn

theorem Backed.congr {s' : Handlers κ} (h : s.Backed) (hh : s'.handlers = s.handlers)
    (he : s'.epoll = s.epoll) : s'.Backed where
  addresses := hh ▸ h.addresses
  fds := hh ▸ h.fds
  node := by
    rw [he, hh]
    exact h.node
  opened := by
    rw [he]
    exact h.opened

theorem Backed.deref_of_mem (h : s.Backed) {n : HandlerNode κ} (hn : n ∈ s.handlers)
    (events : UInt32) : s.deref ⟨events, some n.address⟩ = some n :=
  Keyed.find?_of_mem h.addresses hn

/-- `EPOLL_CTL_DEL` leaves nothing of the descriptor in an interest set of open descriptors. -/
theorem mem_interest_del {e : Epoll} (hopened : ∀ r ∈ e.interest, r.fd ∈ e.openFds)
    {r : Registration} (hr : r ∈ (e.del fd).2.interest) : r ∈ e.interest ∧ r.fd ≠ fd := by
  by_cases hopen : fd ∈ e.openFds
  · cases hreg : e.registered fd with
    | true =>
      rw [del_of_registered hopen hreg] at hr
      simpa using hr
    | false =>
      rw [del_of_not_registered hopen hreg] at hr
      refine ⟨hr, ?_⟩
      rintro rfl
      have hnot := List.any_eq_false.mp hreg r hr
      simp at hnot
  · rw [del_of_not_mem hopen] at hr
    refine ⟨hr, ?_⟩
    rintro rfl
    exact hopen (hopened r hr)

theorem Backed.forget (h : s.Backed) (fd : Int) : (s.forget fd).Backed where
  addresses := h.addresses.sublist (List.filter_sublist.map _)
  fds := h.fds.sublist (List.filter_sublist.map _)
  node := by
    intro r hr
    obtain ⟨hr, hne⟩ := mem_interest_del h.opened hr
    obtain ⟨n, hn, rfl⟩ := h.node r hr
    exact ⟨n, mem_erase.mpr ⟨hn, hne⟩, rfl⟩
  opened := by
    intro r hr
    rw [forget_openFds]
    exact h.opened r (mem_interest_del h.opened hr).1

theorem Backed.addHandler (h : s.Backed) {events : UInt32} {callback : κ} {address : ℕ}
    {failure : Option Errno} (hfresh : ∀ n ∈ s.handlers, n.address ≠ address) :
    (s.addHandler fd events callback address failure).2.Backed := by
  rcases addHandler_cases s fd events callback address failure with
    heq | ⟨hh, hopen, -, heq⟩
  · rw [heq]
    exact h
  · rw [heq]
    have haddress : address ∉ s.handlers.map HandlerNode.address := by
      intro hmem
      obtain ⟨n, hn, hna⟩ := List.mem_map.mp hmem
      exact hfresh n hn hna
    refine ⟨?_, ?_, ?_, ?_⟩
    · rw [List.map_append]
      exact h.addresses.append (List.nodup_singleton _) (List.disjoint_singleton.mpr haddress)
    · rw [List.map_append]
      exact h.fds.append (List.nodup_singleton _)
        (List.disjoint_singleton.mpr (not_handled_iff.mp hh))
    · intro r hr
      rcases List.mem_append.mp hr with hr | hr
      · obtain ⟨n, hn, hnr⟩ := h.node r hr
        exact ⟨n, List.mem_append_left _ hn, hnr⟩
      · obtain rfl := List.mem_singleton.mp hr
        exact ⟨_, List.mem_append_right _ List.mem_cons_self, rfl⟩
    · intro r hr
      rcases List.mem_append.mp hr with hr | hr
      · exact h.opened r hr
      · obtain rfl := List.mem_singleton.mp hr
        exact hopen

theorem Backed.keptByRemovals : KeptByRemovals (Backed (κ := κ)) :=
  ⟨fun _ fd h => h.forget fd, fun _ _ h => h.congr rfl rfl⟩

theorem Backed.removeHandler (h : s.Backed) (fd : Int) : (s.removeHandler fd).2.Backed :=
  keptByRemovals.removeHandler h fd

theorem Backed.prune (h : s.Backed) : s.prune.2.Backed := keptByRemovals.prune h

theorem Backed.openFd (h : s.Backed) (fd : Int) :
    ({ s with epoll := s.epoll.openFd fd } : Handlers κ).Backed :=
  ⟨h.addresses, h.fds, h.node, fun r hr => List.mem_append_left _ (h.opened r hr)⟩

theorem Backed.closeFd (h : s.Backed) (fd : Int) :
    ({ s with epoll := s.epoll.closeFd fd } : Handlers κ).Backed := by
  refine ⟨h.addresses, h.fds, fun r hr => h.node r (List.mem_of_mem_filter hr), fun r hr => ?_⟩
  obtain ⟨hr, hne⟩ := List.mem_filter.mp hr
  exact List.mem_filter.mpr ⟨h.opened r hr, by simpa using hne⟩

end Backed

end Handlers

section Steps

variable {c t : HandlerLoop κ} {fd : Int}

attribute [local simp] handlerStep

theorem handlerStep_addHandler {events : UInt32} {callback : κ} {address : ℕ}
    {failure : Option Errno} :
    handlerStep c (.addHandler fd events callback address failure) = some t ↔
      (c.point.userCode = true ∧ ∀ n ∈ c.members.handlers, n.address ≠ address) ∧
      { c with members := (c.members.addHandler fd events callback address failure).2 } = t := by
  simp

theorem handlerStep_removeHandler : handlerStep c (.removeHandler fd) = some t ↔
    c.point.userCode = true ∧ { c with members := (c.members.removeHandler fd).2 } = t := by
  simp

theorem handlerStep_openFd : handlerStep c (.openFd fd) = some t ↔
    (c.point.userCode = true ∧ fd ∉ c.members.epoll.openFds) ∧
    { c with members := { c.members with epoll := c.members.epoll.openFd fd } } = t := by
  simp

theorem handlerStep_closeFd : handlerStep c (.closeFd fd) = some t ↔
    c.point.userCode = true ∧
    { c with members := { c.members with epoll := c.members.epoll.closeFd fd } } = t := by
  simp

theorem handlerStep_epollWait {o : WaitOutcome} : handlerStep c (.epollWait o) = some t ↔
    c.point = .idle ∧ o.Possible c.members.epoll ∧
    (match (batchOf c.members o).2 with
      | none => { c with members := { c.members with epollEvents := (batchOf c.members o).1 } }
      | some batch => { c with
          members := { c.members with
            epollEvents := (batchOf c.members o).1, processingHandlers := true }
          point := .dispatching c.members.processingHandlers batch }) = t := by
  cases hp : c.point with
  | idle =>
    simp only [handlerStep, hp, true_and]
    by_cases ho : o.Possible c.members.epoll
    · rw [if_pos ho]
      rcases hb : batchOf c.members o with ⟨events, batch⟩
      cases batch <;> simp [ho]
    · simp [ho]
  | _ => simp [hp]

theorem handlerStep_dispatch : handlerStep c .dispatch = some t ↔
    ∃ sentry event events n, c.point = .dispatching sentry (event :: events) ∧
      c.members.deref event.event = some n ∧
      { c with
        point := .calling sentry events
        calls := c.calls ++ [⟨event, n.fd, n.events, n.callback⟩] } = t := by
  cases hp : c.point with
  | dispatching sentry events =>
    cases events with
    | nil => simp [hp]
    | cons event events =>
      cases hd : c.members.deref event.event <;> simp [hp, hd]
  | _ => simp [hp]

theorem handlerStep_handlerReturns : handlerStep c .handlerReturns = some t ↔
    ∃ sentry events, c.point = .calling sentry events ∧
      { c with point := .dispatching sentry events } = t := by
  cases hp : c.point <;> simp [hp]

theorem handlerStep_handlerThrows : handlerStep c .handlerThrows = some t ↔
    ∃ sentry events, c.point = .calling sentry events ∧
      { c with members := { c.members with processingHandlers := sentry }, point := .idle } =
        t := by
  cases hp : c.point <;> simp [hp]

theorem handlerStep_prune : handlerStep c .prune = some t ↔
    ∃ sentry, c.point = .dispatching sentry [] ∧
      { c with
        members := ({ c.members with processingHandlers := sentry } : Handlers κ).prune.2
        point := .idle } = t := by
  cases hp : c.point with
  | dispatching sentry events => cases events <;> simp [hp]
  | _ => simp [hp]

end Steps

end Linuxpp.Ioloop
