import Linuxpp.Ioloop.EventLoop
import Linuxpp.Ioloop.Proofs.DispatchProofs
import Linuxpp.Ioloop.Proofs.HandlerLifetimesProofs

/-!
# Proofs: the handlers of the loop itself

The constructor registers four functions, and nobody else can remove a handler of their descriptors.
So these stay registered, every event that is reported for one of the descriptors leads to its
function, and no event leads to a function that it was not reported for.
-/

namespace Linuxpp.Ioloop

variable {κ : Type} {own : OwnFds} {h h' : HandlerLoop (HandlerFunction κ)}

theorem OwnFunction.mem_all (f : OwnFunction) : f ∈ OwnFunction.all := by
  cases f <;> decide

/-- The function that a handler is, if it is one of the loop's own. -/
def HandlerFunction.function? : HandlerFunction κ → Option OwnFunction
  | .own f => some f
  | .user _ => none

namespace OwnFds

theorem function_eq_some {e : BatchEvent} {f : OwnFunction} :
    own.function e = some f ↔ e.about = some (own.fd f) := by
  unfold function
  constructor
  · intro hfind
    have hmatch := List.find?_some hfind
    exact of_decide_eq_true hmatch
  · intro habout
    have hsome : (OwnFunction.all.find? fun f => e.about = some (own.fd f)).isSome = true :=
      List.find?_isSome.mpr ⟨f, f.mem_all, decide_eq_true habout⟩
    obtain ⟨g, hg⟩ := Option.isSome_iff_exists.mp hsome
    have hmatch := List.find?_some hg
    have hfd : own.fd g = own.fd f := Option.some.inj ((of_decide_eq_true hmatch).symm.trans habout)
    rw [hg, own.fd_injective hfd]

end OwnFds

/-- The step takes no handler of the loop away, adds none, and its wait does not fail. -/
def LeavesOwn (own : OwnFds) (_ : HandlerLoop (HandlerFunction κ)) :
    HandlerStep (HandlerFunction κ) → Prop
  | .removeHandler fd | .closeFd fd => ∀ f, own.fd f ≠ fd
  | .addHandler _ _ callback _ _ => ∀ f, callback ≠ .own f
  | .epollWait (.fails errno) => errno = .EINTR
  | _ => True

/-- The loop's own functions are registered, each for its descriptor and for no other, and the batch
consists of reported events, each descriptor being reported once. -/
structure Serving (own : OwnFds) (h : HandlerLoop (HandlerFunction κ)) : Prop where
  kept : ∀ f, Kept (own.node f) False h
  only : ∀ n ∈ h.members.handlers, ∀ f, n.callback = .own f → n.fd = own.fd f
  reported : PendingReported h
  once : (h.point.pending.map BatchEvent.about).Nodup

section Steps

variable {l : HandlerStep (HandlerFunction κ)}

theorem LeavesOwn.waitReports (hl : LeavesOwn own h l) : WaitReports h l := by
  cases l with
  | epollWait o =>
    cases o with
    | ready reports => trivial
    | fails errno => exact hl
  | _ => trivial

/-- A step adds no handler for a function of the loop. -/
theorem own_node_of_step (hl : LeavesOwn own h l) (hstep : handlerStep h l = some h')
    {n : HandlerNode (HandlerFunction κ)} (hn : n ∈ h'.members.handlers) {f : OwnFunction}
    (hf : n.callback = .own f) : n ∈ h.members.handlers := by
  have hmembers := membersStep_of_step hstep
  generalize h'.members = m at hmembers hn
  cases hmembers with
  | addHandler fd events callback address failure hfresh =>
    rcases Handlers.addHandler_cases h.members fd events callback address failure with
      heq | ⟨-, -, -, heq⟩
    · rwa [heq] at hn
    · rw [heq] at hn
      rcases List.mem_append.mp hn with hn | hn
      · exact hn
      · obtain rfl := List.mem_singleton.mp hn
        exact absurd hf (hl f)
  | removeHandler fd => exact h.members.removeHandler_subset fd hn
  | prune sentry =>
    exact Handlers.prune_subset ({ h.members with processingHandlers := sentry }) hn
  | _ => exact hn

/-- A step drops events of the batch, or begins a batch of reported ones. -/
theorem pending_of_step (hl : WaitReports h l) (hstep : handlerStep h l = some h') :
    h'.point.pending.Sublist h.point.pending ∨ ∃ reports, l = .epollWait (.ready reports) ∧
      (reports.map Prod.fst).Nodup ∧
      h'.point.pending.map BatchEvent.about = reports.map fun report => some report.1 := by
  cases l with
  | addHandler fd events callback address failure =>
    obtain ⟨-, rfl⟩ := handlerStep_addHandler.mp hstep
    exact .inl (List.Sublist.refl _)
  | removeHandler fd =>
    obtain ⟨-, rfl⟩ := handlerStep_removeHandler.mp hstep
    exact .inl (List.Sublist.refl _)
  | openFd fd =>
    obtain ⟨-, rfl⟩ := handlerStep_openFd.mp hstep
    exact .inl (List.Sublist.refl _)
  | closeFd fd =>
    obtain ⟨-, rfl⟩ := handlerStep_closeFd.mp hstep
    exact .inl (List.Sublist.refl _)
  | epollWait o =>
    obtain ⟨hp, ho, rfl⟩ := handlerStep_epollWait.mp hstep
    cases o with
    | ready reports =>
      refine .inr ⟨reports, rfl, ho.2.1, ?_⟩
      exact List.map_map
    | fails errno =>
      obtain rfl : errno = .EINTR := hl
      exact .inl (List.Sublist.refl _)
  | dispatch =>
    obtain ⟨sentry, event, events, n, hp, -, rfl⟩ := handlerStep_dispatch.mp hstep
    rw [hp]
    exact .inl (List.sublist_cons_self event events)
  | handlerReturns =>
    obtain ⟨sentry, events, hp, rfl⟩ := handlerStep_handlerReturns.mp hstep
    rw [hp]
    exact .inl (List.Sublist.refl _)
  | handlerThrows =>
    obtain ⟨sentry, events, -, rfl⟩ := handlerStep_handlerThrows.mp hstep
    exact .inl (List.nil_sublist _)
  | prune =>
    obtain ⟨sentry, -, rfl⟩ := handlerStep_prune.mp hstep
    exact .inl (List.nil_sublist _)

theorem Serving.step (hs : Serving own h) (hl : LeavesOwn own h l)
    (hstep : handlerStep h l = some h') : Serving own h' where
  kept f := by
    refine (hs.kept f).step ?_ ?_ hstep
    · rintro rfl
      exact hl f rfl
    · rintro rfl
      exact hl f rfl
  only n hn f hf := hs.only n (own_node_of_step hl hstep hn hf) f hf
  reported := hs.reported.step hl.waitReports hstep
  once := by
    rcases pending_of_step hl.waitReports hstep with hsub | ⟨reports, -, hnodup, habout⟩
    · exact hs.once.sublist (hsub.map BatchEvent.about)
    · have hcomp : (reports.map fun report => some report.1) = (reports.map Prod.fst).map some :=
        List.map_map.symm
      rw [habout, hcomp]
      exact hnodup.map (Option.some_injective _)

/-- An event leads to the handler of its descriptor, which is a function of the loop exactly if the
event is for it. -/
theorem Serving.deref (hs : Serving own h) {e : BatchEvent} (he : e ∈ h.point.pending)
    {n : HandlerNode (HandlerFunction κ)} (hn : h.members.deref e.event = some n) :
    n.callback.function? = own.function e := by
  have hleading := (hs.kept .processStop).leading
  obtain ⟨fd, habout⟩ := hs.reported e he
  have hfd := hleading.tables.fd_of_deref (hleading.pending e he) hn habout
  have hmem : n ∈ h.members.handlers := by
    obtain ⟨p, -, hfind⟩ := Option.bind_eq_some_iff.mp hn
    exact List.mem_of_find?_eq_some hfind
  cases hcallback : n.callback with
  | own f =>
    symm
    rw [HandlerFunction.function?, OwnFds.function_eq_some, habout, ← hfd,
      hs.only n hmem f hcallback]
  | user k =>
    symm
    rw [HandlerFunction.function?, Option.eq_none_iff_forall_ne_some]
    intro f hf
    have hown := (hs.kept f).deref he (OwnFds.function_eq_some.mp hf)
    obtain rfl := Option.some.inj (hn.symm.trans hown)
    cases hcallback

end Steps

section Construct

/-- The functions of the loop are registered in this order, outside of a batch and as the only
handlers, and their descriptors are open. -/
structure RegisteredInOrder (own : OwnFds) (done : List OwnFunction)
    (h : HandlerLoop (HandlerFunction κ)) : Prop where
  leading : Leading h
  idle : h.point = .idle
  nodes : h.members.handlers = done.map own.node
  kept : ∀ f ∈ done, Kept (own.node f) False h
  opened : ∀ f, own.fd f ∈ h.members.epoll.openFds
  notRemoved : h.members.removedHandlers = []

theorem RegisteredInOrder.register {done : List OwnFunction} {f : OwnFunction}
    (hr : RegisteredInOrder own done h) (hf : f ∉ done) :
    handlerStep h (.addHandler (own.fd f) eventRead (.own f) (own.address f) none) =
        some { h with members := own.register h.members f } ∧
      RegisteredInOrder own (done ++ [f]) { h with members := own.register h.members f } := by
  have hother : ∀ n ∈ h.members.handlers, ∃ g ∈ done, g ≠ f ∧ n = own.node g := by
    rw [hr.nodes]
    intro n hn
    obtain ⟨g, hg, rfl⟩ := List.mem_map.mp hn
    exact ⟨g, hg, fun heq => hf (heq ▸ hg), rfl⟩
  have hhandled : h.members.handled (own.fd f) = false := by
    rw [← Bool.not_eq_true]
    intro hany
    obtain ⟨n, hn, hfd⟩ := List.any_eq_true.mp hany
    obtain ⟨g, -, hne, rfl⟩ := hother n hn
    exact hne (own.fd_injective (of_decide_eq_true hfd))
  have hok := hr.leading.tables.addHandler_ok hhandled (hr.opened f) eventRead
    (HandlerFunction.own f) (own.address f)
  have hstep : handlerStep h (.addHandler (own.fd f) eventRead (.own f) (own.address f) none) =
      some { h with members := own.register h.members f } := by
    refine handlerStep_addHandler.mpr ⟨⟨by rw [hr.idle]; rfl, ?_⟩, rfl⟩
    intro n hn heq
    obtain ⟨g, -, hne, rfl⟩ := hother n hn
    exact hne (own.address_injective heq)
  have hmembers : own.register h.members f = { h.members with
      handlers := h.members.handlers ++ [own.node f]
      epoll := { h.members.epoll with
        sizeEvents := h.members.epoll.sizeEvents + 1
        interest := h.members.epoll.interest ++
          [⟨own.fd f, epollEvents eventRead, own.address f⟩] } } := by
    rcases Handlers.addHandler_cases h.members (own.fd f) eventRead (.own f) (own.address f) none
      with heq | ⟨-, -, -, heq⟩
    · have hadded := (Handlers.addHandler_of_ok (n := own.node f) hok).1
      have hmem : own.node f ∈ h.members.handlers := by
        rw [← heq]
        exact hadded
      obtain ⟨g, -, hne, hnode⟩ := hother _ hmem
      exact absurd (own.fd_injective (congrArg HandlerNode.fd hnode)).symm hne
    · exact heq
  refine ⟨hstep, hr.leading.step hstep, hr.idle, ?_, ?_, ?_, ?_⟩
  · show (own.register h.members f).handlers = _
    rw [hmembers, hr.nodes, List.map_append, List.map_singleton]
  · intro g hg
    rcases List.mem_append.mp hg with hg | hg
    · exact (hr.kept g hg).step (by simp) (by simp) hstep
    · obtain rfl := List.mem_singleton.mp hg
      refine kept_of_added (n := own.node g) hr.leading hstep hok ?_
      rw [hr.notRemoved]
      exact List.not_mem_nil
  · intro g
    show own.fd g ∈ (own.register h.members f).epoll.openFds
    rw [hmembers]
    exact hr.opened g
  · show (own.register h.members f).removedHandlers = []
    rw [hmembers]
    exact hr.notRemoved

/-- What comes next in a list without duplicates has not come before. -/
theorem not_mem_of_nodup_append_cons {α : Type*} {xs ys : List α} {x : α}
    (h : (xs ++ x :: ys).Nodup) : x ∉ xs := by
  obtain ⟨-, -, hdisjoint⟩ := List.nodup_append.mp h
  intro hmem
  exact hdisjoint x hmem x List.mem_cons_self rfl

/-- The registrations of the constructor, one after the other. -/
theorem RegisteredInOrder.foldl {done rest : List OwnFunction} (hr : RegisteredInOrder own done h)
    (hnodup : (done ++ rest).Nodup) :
    handlerStep.Reachable h { h with members := rest.foldl own.register h.members } ∧
      RegisteredInOrder own (done ++ rest)
        { h with members := rest.foldl own.register h.members } := by
  induction rest generalizing done h with
  | nil =>
    rw [List.append_nil]
    exact ⟨⟨[], rfl⟩, hr⟩
  | cons f rest ih =>
    have hf : f ∉ done := not_mem_of_nodup_append_cons hnodup
    obtain ⟨hstep, hr'⟩ := hr.register hf
    rw [List.append_cons] at hnodup ⊢
    obtain ⟨⟨ls, hls⟩, hlast⟩ := ih hr' hnodup
    exact ⟨⟨_ :: ls, Machine.run_cons_eq_some.mpr ⟨_, hstep, hls⟩⟩, hlast⟩

/-- Outside of a batch the process opens files under numbers that are not in use. -/
theorem open_reachable (hp : h.point = .idle) {fds : List Int}
    (hnodup : (h.members.epoll.openFds ++ fds).Nodup) : handlerStep.Reachable h { h with
      members := { h.members with epoll := { h.members.epoll with
        openFds := h.members.epoll.openFds ++ fds } } } := by
  induction fds generalizing h with
  | nil => exact ⟨[], by simp⟩
  | cons fd fds ih =>
    have hfresh : fd ∉ h.members.epoll.openFds := not_mem_of_nodup_append_cons hnodup
    have hstep : handlerStep h (.openFd fd) = some { h with members := { h.members with
        epoll := h.members.epoll.openFd fd } } :=
      handlerStep_openFd.mpr ⟨⟨by rw [hp]; rfl, hfresh⟩, rfl⟩
    rw [List.append_cons] at hnodup ⊢
    obtain ⟨ls, hls⟩ := ih (h := { h with members := { h.members with
      epoll := h.members.epoll.openFd fd } }) hp hnodup
    exact ⟨_ :: ls, Machine.run_cons_eq_some.mpr ⟨_, hstep, hls⟩⟩

/-- The constructor is a run of the handlers, behind which the functions of the loop are served. -/
theorem construct_serving (own : OwnFds) (clock : TimeType) :
    handlerStep.Reachable {} (EventLoop.construct κ own clock).handlerView ∧
      Serving own (EventLoop.construct κ own clock).handlerView := by
  have hfds : (OwnFunction.all.map own.fd).Nodup :=
    List.Nodup.map own.fd_injective (by decide)
  let opened : HandlerLoop (HandlerFunction κ) :=
    { members := { epoll := { openFds := OwnFunction.all.map own.fd } } }
  have hopened : handlerStep.Reachable {} opened := open_reachable (h := {}) rfl hfds
  have hfirst : RegisteredInOrder own [] opened :=
    ⟨Leading.of_reachable hopened, rfl, rfl, by simp,
      fun f => List.mem_map_of_mem f.mem_all, rfl⟩
  have hrest : ([] ++ OwnFunction.all).Nodup := by decide
  obtain ⟨⟨ls, hls⟩, hlast⟩ := hfirst.foldl hrest
  refine ⟨hopened.run hls, fun f => hlast.kept f f.mem_all, ?_, ?_, List.nodup_nil⟩
  · intro n hn f hf
    have hnodes : n ∈ OwnFunction.all.map own.node := hlast.nodes ▸ hn
    obtain ⟨g, -, rfl⟩ := List.mem_map.mp hnodes
    obtain rfl := HandlerFunction.own.inj hf
    rfl
  · intro e he
    cases he

end Construct

end Linuxpp.Ioloop
