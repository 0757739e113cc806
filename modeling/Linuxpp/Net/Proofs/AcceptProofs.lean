import Linuxpp.Net.Accept

/-!
# Proofs: where all functions that accept a connection are alike

The functions with an address and a port drop the caller's flags, and those that ask for an address
throw with the descriptor already open if its length is not that of a `struct sockaddr_in`.
-/

namespace Linuxpp.Net

/-- The flags that reach `accept4`. -/
def AcceptPath.passed (path : AcceptPath) (flags : UInt32) : UInt32 :=
  match path with
  | .withAddress | .tcpSocketAddress | .tcpDatagramSocketAddress => SOCK_CLOEXEC
  | _ => flags ||| SOCK_CLOEXEC

/-- The function asks for the address of the peer. -/
def AcceptPath.AsksAddress : AcceptPath → Prop
  | withFlags | tcpSocket | tcpDatagramSocket => False
  | _ => True

/-- The process after a call of `accept4`. -/
def Sockets.called (s : Sockets) (u : UniqueFd) (flags : UInt32) : Sockets :=
  { s with accept4Calls := s.accept4Calls ++ [(u.get, flags)] }

/-- The process after a call that accepted a connection. -/
def Sockets.accepted (s : Sockets) (u : UniqueFd) (flags : UInt32) : Sockets :=
  { s.called u flags with table := s.table.insert (.ofFlags flags) }

variable {s : Sockets} {u : UniqueFd} {flags : UInt32} {sockaddr : SockaddrIn} {socklen : ℕ}

section Specification

/-- `accept4` fails: the error is passed on, and nothing is open that was not. -/
theorem run_fails (path : AcceptPath) (errno : Errno) :
    path.run (.fails errno) s u flags =
      (.error (.systemError errno), s.called u (path.passed flags)) := by
  cases path <;>
    simp [AcceptPath.run, AcceptPath.passed, TcpDatagramSocket.accept, TcpSocket.accept, accept,
      TcpDatagramSocket.acceptAddress, TcpSocket.acceptAddress, acceptAddress, acceptSockaddr,
      detailAccept, Sockets.called, Except.map]

/-- An accepted descriptor is returned, unless the function asks for the address and its length is
not the expected one. -/
theorem run_accepts (path : AcceptPath) (h : ¬ path.AsksAddress ∨ socklen = sizeofSockaddrIn) :
    path.run (.accepts sockaddr socklen) s u flags =
      (.ok s.table.lowestFree, s.accepted u (path.passed flags)) := by
  cases path <;>
    simp_all [AcceptPath.run, AcceptPath.passed, AcceptPath.AsksAddress,
      TcpDatagramSocket.accept, TcpSocket.accept, accept, TcpDatagramSocket.acceptAddress,
      TcpSocket.acceptAddress, acceptAddress, acceptSockaddr, detailAccept, Sockets.accepted,
      Sockets.called, Except.map]

theorem run_throws (path : AcceptPath) (h : path.AsksAddress) (hlen : socklen ≠ sizeofSockaddrIn) :
    path.run (.accepts sockaddr socklen) s u flags =
      (.error .runtimeError, s.accepted u (path.passed flags)) := by
  cases path <;>
    simp_all [AcceptPath.run, AcceptPath.passed, AcceptPath.AsksAddress,
      TcpDatagramSocket.acceptAddress, TcpSocket.acceptAddress, acceptAddress, acceptSockaddr,
      detailAccept, Sockets.accepted, Sockets.called, Except.map]

/-- Whatever happens, `accept4` is called once. -/
theorem run_calls (path : AcceptPath) (o : Accept4Outcome) :
    (path.run o s u flags).2.accept4Calls =
      s.accept4Calls ++ [(u.get, path.passed flags)] := by
  cases o with
  | fails errno =>
    rw [run_fails]
    rfl
  | accepts sockaddr socklen =>
    by_cases hlen : socklen = sizeofSockaddrIn
    · rw [run_accepts path (Or.inr hlen)]
      rfl
    · by_cases hasks : path.AsksAddress
      · rw [run_throws path hasks hlen]
        rfl
      · rw [run_accepts path (Or.inl hasks)]
        rfl

end Specification

section Alike

variable {o : Accept4Outcome}

/-- The flags reach `accept4` in all functions exactly if there are none but `SOCK_CLOEXEC`. -/
theorem sameFlags_iff :
    (∀ path : AcceptPath, (path.run o s u flags).2.accept4Calls =
      s.accept4Calls ++ [(u.get, flags ||| SOCK_CLOEXEC)]) ↔
      flags ||| SOCK_CLOEXEC = SOCK_CLOEXEC := by
  constructor
  · intro h
    have hcalls := h .withAddress
    rw [run_calls] at hcalls
    have hpair := List.cons.inj (List.append_cancel_left hcalls)
    exact (Prod.mk.inj hpair.1).2.symm
  · intro hflags path
    rw [run_calls]
    cases path <;> simp [AcceptPath.passed, hflags]

/-- The accepted descriptor was not open before. -/
theorem table_accepted_ne : (s.accepted u flags).table ≠ s.table := by
  intro heq
  have hget : (s.accepted u flags).table.get s.table.lowestFree = none := by
    rw [heq]
    exact DescriptorTable.get_lowestFree
  rw [Sockets.accepted, DescriptorTable.get_insert, if_pos rfl] at hget
  cases hget

/-- No function leaves a descriptor open when it throws exactly if the length is the expected
one. -/
theorem noLeak_iff :
    (∀ (path : AcceptPath) (e : AcceptError), (path.run o s u flags).1 = .error e →
      (path.run o s u flags).2.table = s.table) ↔ o.ExpectedLength := by
  cases o with
  | fails errno =>
    refine ⟨fun _ => trivial, fun _ path e _ => ?_⟩
    rw [run_fails]
    rfl
  | accepts sockaddr socklen =>
    constructor
    · intro h
      by_contra hlen
      have hthrows : AcceptPath.withAddress.run (.accepts sockaddr socklen) s u flags = _ :=
        run_throws .withAddress trivial hlen
      have htable := h .withAddress .runtimeError (by rw [hthrows])
      rw [hthrows] at htable
      exact table_accepted_ne htable
    · intro hlen path e he
      rw [run_accepts path (Or.inr hlen)] at he
      cases he

/-- Accepted with the same flags, descriptors are alike. -/
theorem sameStatus_of_passed (h : ∀ path : AcceptPath, path.passed flags = SOCK_CLOEXEC)
    (hlen : o.ExpectedLength) (path path' : AcceptPath) (fd fd' : ℕ)
    (hfd : (path.run o s u flags).1 = .ok fd) (hfd' : (path'.run o s u flags).1 = .ok fd') :
    (path.run o s u flags).2.table.get fd = (path'.run o s u flags).2.table.get fd' := by
  cases o with
  | fails errno =>
    rw [run_fails] at hfd
    cases hfd
  | accepts sockaddr socklen =>
    rw [run_accepts path (Or.inr hlen)] at hfd ⊢
    rw [run_accepts path' (Or.inr hlen)] at hfd' ⊢
    cases hfd
    cases hfd'
    rw [h path, h path']

end Alike

/-- **Where all accept paths are alike.** For every state of the process, listening socket, flags
and outcome of `accept4`, all overloads and the functions that forward to them pass the caller's
flags with `SOCK_CLOEXEC`, accept descriptors with the same flags and leave none open when they
throw, if and only if no flag but `SOCK_CLOEXEC` is set, and `accept4` fails or writes back the
length of a `struct sockaddr_in`. -/
theorem acceptsAlike_iff (o : Accept4Outcome) (s : Sockets) (u : UniqueFd) (flags : UInt32) :
    AcceptsAlike o s u flags ↔
      flags ||| SOCK_CLOEXEC = SOCK_CLOEXEC ∧ o.ExpectedLength := by
  constructor
  · intro h
    exact ⟨sameFlags_iff.mp h.sameFlags, noLeak_iff.mp h.noLeak⟩
  · rintro ⟨hflags, hlen⟩
    have hpassed : ∀ path : AcceptPath, path.passed flags = SOCK_CLOEXEC := by
      intro path
      cases path <;> simp [AcceptPath.passed, hflags]
    exact ⟨sameFlags_iff.mpr hflags, sameStatus_of_passed hpassed hlen, noLeak_iff.mpr hlen⟩

/-- With `SOCK_NONBLOCK` the overload with an address and a port accepts a descriptor that blocks,
and for a peer whose address has two bytes only it throws and leaves its descriptor open. -/
theorem accept_drops_flags_and_leaks :
    let nonBlocking : Accept4Outcome := .accepts {} sizeofSockaddrIn
    let shortAddress : Accept4Outcome := .accepts {} 2
    let fd3 : UniqueFd := .ofFd 3
    ((acceptAddress nonBlocking {} 3 SOCK_NONBLOCK).2.table.get 0 = some ⟨false, true⟩ ∧
      (accept nonBlocking {} 3 SOCK_NONBLOCK).2.table.get 0 = some ⟨true, true⟩ ∧
      ¬ AcceptsAlike nonBlocking {} fd3 SOCK_NONBLOCK) ∧
    ((acceptAddress shortAddress {} 3 0).1 = .error .runtimeError ∧
      (acceptAddress shortAddress {} 3 0).2.table.get 0 = some ⟨false, true⟩ ∧
      ¬ AcceptsAlike shortAddress {} fd3 0) := by
  refine ⟨⟨by decide, by decide, fun h => ?_⟩, by decide, by decide, fun h => ?_⟩
  · have hflags := h.sameFlags .withAddress
    revert hflags
    decide
  · have hleak := h.noLeak .withAddress .runtimeError (by decide)
    revert hleak
    decide

end Linuxpp.Net
