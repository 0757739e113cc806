import Linuxpp.Net.Sockets

/-!
# Proofs: a constructor that throws leaves nothing open

The constructors that open one descriptor are a system call that opens it, followed by calls on it.
Such a call, in the body behind a delegation, leads on from what was opened before.
-/

namespace Linuxpp.Net

open Construction

variable {x : Constructor UniqueFd} {file : FileDescription} {failures : List (Option SystemError)}

theorem opensOrNothing_uniqueFd (file : FileDescription) (what : String) (failure : Option Errno) :
    OpensOrNothing (uniqueFd file what failure) file [failure.map (systemError what)] := by
  intro t
  cases failure with
  | none => exact .inl ⟨t.insert file, rfl, rfl, fun fd => DescriptorTable.get_insert⟩
  | some errno => exact .inr ⟨_, t, rfl, rfl, fun fd => rfl⟩

/-- A call on the descriptor behind a delegation. If it fails, the descriptor is closed. -/
theorem OpensOrNothing.delegate (h : OpensOrNothing x file failures)
    (f : FileDescription → FileDescription) (failure : Option SystemError) :
    OpensOrNothing (.delegate x UniqueFd.fds fun u => .change u.get f failure) (f file)
      (failures ++ [failure]) := by
  intro t
  rcases h t with ⟨u, hx, hnone, hu⟩ | ⟨e, u, hx, hfirst, hu⟩
  · have hlowest : (0 : Int) ≤ t.lowestFree := Int.natCast_nonneg _
    have hopen : u.get t.lowestFree = some file := by rw [hu, if_pos rfl]
    cases failure with
    | none =>
      refine .inl ⟨_, delegate_of_ok hx rfl, ?_, fun fd => ?_⟩
      · rw [reduceOption_append_of_nil hnone]
        rfl
      · show (u.put t.lowestFree ((u.get t.lowestFree).map f)).get fd = _
        rw [DescriptorTable.get_put hlowest, hopen, hu]
        by_cases hfd : fd = t.lowestFree
        · rw [if_pos hfd, if_pos hfd]
          rfl
        · rw [if_neg hfd, if_neg hfd, if_neg hfd]
    | some e =>
      refine .inr ⟨e, _, delegate_of_body_error hx rfl, ?_, fun fd => ?_⟩
      · rw [reduceOption_append_of_nil hnone]
        rfl
      · show (u.close t.lowestFree).get fd = _
        rw [DescriptorTable.get_close, hu]
        by_cases hfd : fd = t.lowestFree
        · rw [if_pos hfd, hfd, DescriptorTable.get_lowestFree]
        · rw [if_neg hfd, if_neg hfd]
  · exact .inr ⟨e, u, delegate_of_error hx, reduceOption_append_head? hfirst, hu⟩

section CloseOnExec

/-- A flag that is set in the source is set, whatever the other flags are. -/
theorem or_and_cancel (flags flag : UInt32) : (flags ||| flag) &&& flag = flag := by
  apply UInt32.toBitVec_inj.mp
  rw [UInt32.toBitVec_and, UInt32.toBitVec_or]
  ext i hi
  rw [BitVec.getElem_and, BitVec.getElem_or]
  cases flags.toBitVec[i] <;> cases flag.toBitVec[i] <;> rfl

theorem closesOnExec_eventfd (initvalue flags : UInt32) :
    ClosesOnExec (.eventfd initvalue (flags ||| EFD_CLOEXEC)) := by
  unfold ClosesOnExec FileDescription.closeOnExec
  simp only [or_and_cancel]
  rfl

theorem closesOnExec_timerfd (flags : UInt32) :
    ClosesOnExec (.timerfd (flags ||| TFD_CLOEXEC)) := by
  unfold ClosesOnExec FileDescription.closeOnExec
  simp only [or_and_cancel]
  rfl

theorem closesOnExec_epoll : ClosesOnExec (.epoll EPOLL_CLOEXEC) := rfl

theorem closesOnExec_socket (type : UInt32) (file : SocketFile)
    (h : file.type = type ||| SOCK_CLOEXEC) : ClosesOnExec (.socket file) := by
  unfold ClosesOnExec FileDescription.closeOnExec
  simp only [h, or_and_cancel]
  rfl

variable {held : List Int}

theorem sound_uniqueFd (hfile : ClosesOnExec file) (what : String) (failure : Option Errno) :
    Sound ClosesOnExec held (uniqueFd file what failure) UniqueFd.fds :=
  (sound_openNew hfile _).map fun _ => rfl

theorem reports_uniqueFd (file : FileDescription) (what : String) (failure : Option Errno) :
    Reports ClosesOnExec held [failure.map (systemError what)] (uniqueFd file what failure) :=
  (reports_openNew file _).map

theorem sound_eventfd (initvalue flags : UInt32) (failure : Option Errno) :
    Sound ClosesOnExec held (eventfd initvalue flags failure) UniqueFd.fds :=
  sound_uniqueFd (closesOnExec_eventfd initvalue flags) _ failure

theorem sound_timerfd (flags : UInt32) (failure : Option Errno) :
    Sound ClosesOnExec held (monotonicTimerfd flags failure) UniqueFd.fds :=
  sound_uniqueFd (closesOnExec_timerfd flags) _ failure

theorem sound_epoll (failure : Option Errno) :
    Sound ClosesOnExec held (epoll failure) UniqueFd.fds :=
  sound_uniqueFd closesOnExec_epoll _ failure

/-- `pipe2` opens two descriptors or none. -/
theorem sound_pipe (flags : UInt32) (failure : Option Errno) :
    Sound ClosesOnExec held (pipe flags failure) fun p => p.1.fds ++ p.2.fds := by
  have hread : ClosesOnExec (.pipeRead (flags ||| O_CLOEXEC)) := by
    unfold ClosesOnExec FileDescription.closeOnExec
    simp only [or_and_cancel]
    rfl
  have hwrite : ClosesOnExec (.pipeWrite (flags ||| O_CLOEXEC)) := hread
  exact (sound_uniqueFd hread _ failure).member fun _ => sound_uniqueFd hwrite _ none

end CloseOnExec

theorem opensBothOrNothing_pipe (flags : UInt32) (failure : Option Errno) :
    OpensBothOrNothing (pipe flags failure) (failure.map (systemError "pipe2 failed")) := by
  intro t
  cases failure with
  | none =>
    have hnone : HasOpen ClosesOnExec t [] :=
      ⟨List.nodup_nil, fun fd hfd => absurd hfd List.not_mem_nil⟩
    exact .inl ⟨_, _, rfl, rfl, (sound_pipe flags none).returns t _ _ hnone rfl⟩
  | some errno => exact .inr ⟨_, t, rfl, rfl, fun fd => rfl⟩

/-- A socket that is taken over is closed if its option cannot be set. -/
theorem changesOrCloses_tcpDatagramSocketFrom (calls : SocketCalls) (sock : UniqueFd) :
    ChangesOrCloses (tcpDatagramSocketFrom calls sock) sock (setOption tcpNodelayOption)
      (calls.tcpNodelay.map (systemError "setsockopt failed")) := by
  intro t
  cases hcall : calls.tcpNodelay with
  | none =>
    refine .inl ⟨t.put sock.get ((t.get sock.get).map (setOption tcpNodelayOption)), ?_, rfl,
      fun fd => ?_⟩
    · unfold tcpDatagramSocketFrom setsockopt
      rw [hcall]
      rfl
    · by_cases hsock : 0 ≤ sock.get
      · rw [DescriptorTable.get_put hsock]
        by_cases hfd : fd = sock.get
        · rw [if_pos hfd, if_pos hfd, hfd]
        · rw [if_neg hfd, if_neg hfd]
      · -- a number that no descriptor has
        have hclosed : t.get sock.get = none := DescriptorTable.get_of_neg (by omega)
        have hkept : t.put sock.get ((t.get sock.get).map (setOption tcpNodelayOption)) = t :=
          if_neg hsock
        rw [hkept]
        by_cases hfd : fd = sock.get
        · rw [if_pos hfd, hfd, hclosed]
          rfl
        · rw [if_neg hfd]
  | some errno =>
    refine .inr ⟨systemError "setsockopt failed" errno, t.close sock.get, ?_, rfl, fun fd => ?_⟩
    · unfold tcpDatagramSocketFrom setsockopt
      rw [hcall]
      rfl
    · rw [DescriptorTable.get_close]

/-- Every constructor opens a descriptor for its file or changes nothing. -/
theorem ConstructorCall.opensOrNothing (c : ConstructorCall) :
    OpensOrNothing c.run c.file c.failures := by
  cases c with
  | eventfd initvalue flags failure => exact opensOrNothing_uniqueFd _ _ failure
  | monotonicTimerfd flags failure => exact opensOrNothing_uniqueFd _ _ failure
  | epoll failure => exact opensOrNothing_uniqueFd _ _ failure
  | udpSocket domain calls => exact opensOrNothing_uniqueFd _ _ calls.socket
  | tcpSocket domain calls => exact opensOrNothing_uniqueFd _ _ calls.socket
  | udpSocketBind addr port calls =>
    exact (opensOrNothing_uniqueFd _ _ calls.socket).delegate _ _
  | tcpSocketBind address port calls =>
    exact (opensOrNothing_uniqueFd _ _ calls.socket).delegate _ _
  | tcpSocketBindAddress address calls =>
    exact (opensOrNothing_uniqueFd _ _ calls.socket).delegate _ _
  | tcpSocketConnect address port calls =>
    exact (opensOrNothing_uniqueFd _ _ calls.socket).delegate _ _
  | tcpDatagramSocket domain calls =>
    exact (opensOrNothing_uniqueFd _ _ calls.socket).delegate _ _
  | tcpDatagramSocketBind address port calls =>
    exact ((opensOrNothing_uniqueFd _ _ calls.socket).delegate _ _).delegate _ _
  | tcpDatagramSocketBindAddress address calls =>
    exact ((opensOrNothing_uniqueFd _ _ calls.socket).delegate _ _).delegate _ _
  | tcpDatagramSocketConnect address port calls =>
    exact ((opensOrNothing_uniqueFd _ _ calls.socket).delegate _ _).delegate _ _

theorem ConstructorCall.closesOnExec (c : ConstructorCall) : ClosesOnExec c.file := by
  cases c with
  | eventfd initvalue flags failure => exact closesOnExec_eventfd initvalue flags
  | monotonicTimerfd flags failure => exact closesOnExec_timerfd flags
  | epoll failure => exact closesOnExec_epoll
  | _ => exact closesOnExec_socket _ _ rfl

/-- **A constructor that throws leaves nothing open.** A constructor whose object opens a descriptor
opens exactly that one, for the file that its arguments say, and `execve` closes it; if one of its
calls fails, it throws what the first of these reports, and every descriptor is as it was. A pipe has
two new descriptors or none, and a socket that is taken over is closed if its option cannot be
set. -/
theorem constructors_open_or_change_nothing :
    (∀ c : ConstructorCall, OpensOrNothing c.run c.file c.failures ∧ ClosesOnExec c.file) ∧
    (∀ flags failure,
      OpensBothOrNothing (pipe flags failure) (failure.map (systemError "pipe2 failed"))) ∧
    ∀ (calls : SocketCalls) (sock : UniqueFd),
      ChangesOrCloses (tcpDatagramSocketFrom calls sock) sock (setOption tcpNodelayOption)
        (calls.tcpNodelay.map (systemError "setsockopt failed")) :=
  ⟨fun c => ⟨c.opensOrNothing, c.closesOnExec⟩, opensBothOrNothing_pipe,
    changesOrCloses_tcpDatagramSocketFrom⟩

end Linuxpp.Net
