import Linuxpp.Descriptor.Constructors

/-!
# The constructors of the sockets

A constructor that binds or connects delegates to the one that opens the socket.
`tcp_datagram_socket` sets `TCP_NODELAY` on every socket that it has.
-/

namespace Linuxpp.Net

open Construction

def AF_INET : ℕ := 2
def SOCK_STREAM : UInt32 := 1
def SOCK_DGRAM : UInt32 := 2

/-- `so::reuse_addr`, `so::reuse_port` and `so::tcp_nodelay`, set to 1. -/
def reuseAddrOption : SocketOption := ⟨1, 2, 1⟩
def reusePortOption : SocketOption := ⟨1, 15, 1⟩
def tcpNodelayOption : SocketOption := ⟨6, 1, 1⟩

/-- `make_sockaddr(address, port)`. -/
def makeSockaddr (address port : ℕ) : SockaddrIn where
  sinFamily := AF_INET
  -- `htons`, `htonl`
  sinPort := BigEndian.encode 2 port
  sinAddr := BigEndian.encode 4 address

/-- `make_sockaddr(addr)`. -/
def makeSockaddrOf (addr : ℕ) : SockaddrIn where
  sinFamily := AF_INET
  sinAddr := BigEndian.encode 4 addr

/-- `net::socket(domain, type, protocol)`. -/
def socket (domain : ℕ) (type : UInt32) (protocol : ℕ) (failure : Option Errno) :
    Constructor UniqueFd :=
  uniqueFd (.socket { domain := domain, type := type ||| SOCK_CLOEXEC, protocol := protocol })
    "failed to open UDP socket" failure

/-- What `::setsockopt` does to a socket. -/
def setOption (o : SocketOption) : FileDescription → FileDescription :=
  .onSocket fun file => { file with options := file.options ++ [o] }

/-- `setsockopt<Option>(sd, value)`. -/
def setsockopt (sd : Int) (o : SocketOption) (failure : Option Errno) : Constructor Unit :=
  .change sd (setOption o) (failure.map (systemError "setsockopt failed"))

/-- The outcomes of the calls of `bind`. -/
structure BindCalls where
  reuseAddr : Option Errno := none
  reusePort : Option Errno := none
  bind : Option Errno := none
deriving DecidableEq

/-- `bind(sd, sockaddr, reuse_addr, reuse_port)`. -/
def bindSockaddr (sd : Int) (addr : SockaddrIn) (reuseAddr reusePort : Bool) (calls : BindCalls) :
    Constructor Unit :=
  let setIf (b : Bool) (o : SocketOption) (failure : Option Errno) : Constructor Unit :=
    if b then setsockopt sd o failure else fun t => (.ok (), t)
  (setIf reuseAddr reuseAddrOption calls.reuseAddr).andThen fun _ =>
    (setIf reusePort reusePortOption calls.reusePort).andThen fun _ =>
      .change sd (.onSocket fun file => { file with name := some addr })
        (calls.bind.map (systemError "failed to bind socket"))

/-- `bind(sd, addr, port, reuse_addr, reuse_port)`. -/
def bind (sd : Int) (addr port : ℕ) (reuseAddr reusePort : Bool) (calls : BindCalls) :
    Constructor Unit :=
  bindSockaddr sd (makeSockaddr addr port) reuseAddr reusePort calls

/-- `bind(sd, addr, reuse_addr)`. -/
def bindAddress (sd : Int) (addr : ℕ) (reuseAddr : Bool) (calls : BindCalls) : Constructor Unit :=
  bindSockaddr sd (makeSockaddrOf addr) reuseAddr false calls

/-- `connect(sd, sockaddr)`. -/
def connectSockaddr (sd : Int) (addr : SockaddrIn) (failure : Option Errno) : Constructor Unit :=
  .change sd (.onSocket fun file => { file with peer := some addr })
    (failure.map (systemError "failed to connect socket"))

/-- `connect(sd, addr, port)`. -/
def connect (sd : Int) (addr port : ℕ) (failure : Option Errno) : Constructor Unit :=
  connectSockaddr sd (makeSockaddr addr port) failure

section Udp

/-- The outcomes of the calls of a constructor. -/
structure SocketCalls where
  socket : Option Errno := none
  /-- Of `setsockopt` for `TCP_NODELAY`. -/
  tcpNodelay : Option Errno := none
  bind : Option Errno := none
  connect : Option Errno := none
deriving DecidableEq

variable (calls : SocketCalls)

/-- `udp_socket(domain)`. -/
def udpSocket (domain : ℕ) : Constructor UniqueFd := socket domain SOCK_DGRAM 0 calls.socket

/-- `udp_socket(bind_socket, addr, port)`. -/
def udpSocketBind (addr port : ℕ) : Constructor UniqueFd :=
  .delegate (udpSocket calls AF_INET) UniqueFd.fds fun sock =>
    bind sock.get addr port false false { bind := calls.bind }

end Udp

section Tcp

variable (calls : SocketCalls)

/-- `tcp_socket(domain)`. -/
def tcpSocket (domain : ℕ) : Constructor UniqueFd := socket domain SOCK_STREAM 0 calls.socket

/-- `tcp_socket(bind_socket, address, port)`. -/
def tcpSocketBind (address port : ℕ) : Constructor UniqueFd :=
  .delegate (tcpSocket calls AF_INET) UniqueFd.fds fun sock =>
    bind sock.get address port false false { bind := calls.bind }

/-- `tcp_socket(bind_socket, address)`. -/
def tcpSocketBindAddress (address : ℕ) : Constructor UniqueFd :=
  .delegate (tcpSocket calls AF_INET) UniqueFd.fds fun sock =>
    bindAddress sock.get address false { bind := calls.bind }

/-- `tcp_socket(connect_socket, address, port)`. -/
def tcpSocketConnect (address port : ℕ) : Constructor UniqueFd :=
  .delegate (tcpSocket calls AF_INET) UniqueFd.fds fun sock =>
    connect sock.get address port calls.connect

/-- `tcp_datagram_socket(domain)`. -/
def tcpDatagramSocket (domain : ℕ) : Constructor UniqueFd :=
  .delegate (tcpSocket calls domain) UniqueFd.fds fun sock =>
    setsockopt sock.get tcpNodelayOption calls.tcpNodelay

/-- `tcp_datagram_socket(bind_socket, address, port)`. -/
def tcpDatagramSocketBind (address port : ℕ) : Constructor UniqueFd :=
  .delegate (tcpDatagramSocket calls AF_INET) UniqueFd.fds fun sock =>
    bind sock.get address port false false { bind := calls.bind }

/-- `tcp_datagram_socket(bind_socket, address)`. -/
def tcpDatagramSocketBindAddress (address : ℕ) : Constructor UniqueFd :=
  .delegate (tcpDatagramSocket calls AF_INET) UniqueFd.fds fun sock =>
    bindAddress sock.get address false { bind := calls.bind }

/-- `tcp_datagram_socket(connect_socket, address, port)`. -/
def tcpDatagramSocketConnect (address port : ℕ) : Constructor UniqueFd :=
  .delegate (tcpDatagramSocket calls AF_INET) UniqueFd.fds fun sock =>
    connect sock.get address port calls.connect

/-- `tcp_datagram_socket(std::move(sock))`. The socket is moved before the option is set, so that an
exception closes it; `sock` has no descriptor afterwards. -/
def tcpDatagramSocketFrom (sock : UniqueFd) : Constructor UniqueFd :=
  (setsockopt sock.get tcpNodelayOption calls.tcpNodelay).orClose sock.fds |>.map fun _ => sock

end Tcp

section Law

/-- A call of a constructor whose object has one descriptor, which it opens, with the outcomes of its
system calls. -/
inductive ConstructorCall where
  | eventfd (initvalue flags : UInt32) (failure : Option Errno)
  | monotonicTimerfd (flags : UInt32) (failure : Option Errno)
  | epoll (failure : Option Errno)
  | udpSocket (domain : ℕ) (calls : SocketCalls)
  | udpSocketBind (addr port : ℕ) (calls : SocketCalls)
  | tcpSocket (domain : ℕ) (calls : SocketCalls)
  | tcpSocketBind (address port : ℕ) (calls : SocketCalls)
  | tcpSocketBindAddress (address : ℕ) (calls : SocketCalls)
  | tcpSocketConnect (address port : ℕ) (calls : SocketCalls)
  | tcpDatagramSocket (domain : ℕ) (calls : SocketCalls)
  | tcpDatagramSocketBind (address port : ℕ) (calls : SocketCalls)
  | tcpDatagramSocketBindAddress (address : ℕ) (calls : SocketCalls)
  | tcpDatagramSocketConnect (address port : ℕ) (calls : SocketCalls)
deriving DecidableEq

namespace ConstructorCall

/-- Makes the call. -/
def run : ConstructorCall → Constructor UniqueFd
  | eventfd initvalue flags failure => Linuxpp.eventfd initvalue flags failure
  | monotonicTimerfd flags failure => Linuxpp.monotonicTimerfd flags failure
  | epoll failure => Linuxpp.epoll failure
  | udpSocket domain calls => Net.udpSocket calls domain
  | udpSocketBind addr port calls => Net.udpSocketBind calls addr port
  | tcpSocket domain calls => Net.tcpSocket calls domain
  | tcpSocketBind address port calls => Net.tcpSocketBind calls address port
  | tcpSocketBindAddress address calls => Net.tcpSocketBindAddress calls address
  | tcpSocketConnect address port calls => Net.tcpSocketConnect calls address port
  | tcpDatagramSocket domain calls => Net.tcpDatagramSocket calls domain
  | tcpDatagramSocketBind address port calls => Net.tcpDatagramSocketBind calls address port
  | tcpDatagramSocketBindAddress address calls => Net.tcpDatagramSocketBindAddress calls address
  | tcpDatagramSocketConnect address port calls => Net.tcpDatagramSocketConnect calls address port

/-- What its system calls report, in their order. -/
def failures (c : ConstructorCall) : List (Option SystemError) :=
  let opening (calls : SocketCalls) := calls.socket.map (systemError "failed to open UDP socket")
  let setting (calls : SocketCalls) := calls.tcpNodelay.map (systemError "setsockopt failed")
  let binding (calls : SocketCalls) := calls.bind.map (systemError "failed to bind socket")
  let connecting (calls : SocketCalls) := calls.connect.map (systemError "failed to connect socket")
  match c with
  | eventfd _ _ failure => [failure.map (systemError "eventfd system call failed")]
  | monotonicTimerfd _ failure => [failure.map (systemError "timerfd_create system call failed")]
  | epoll failure => [failure.map (systemError "epoll_create failed")]
  | udpSocket _ calls | tcpSocket _ calls => [opening calls]
  | udpSocketBind _ _ calls | tcpSocketBind _ _ calls | tcpSocketBindAddress _ calls =>
    [opening calls, binding calls]
  | tcpSocketConnect _ _ calls => [opening calls, connecting calls]
  | tcpDatagramSocket _ calls => [opening calls, setting calls]
  | tcpDatagramSocketBind _ _ calls | tcpDatagramSocketBindAddress _ calls =>
    [opening calls, setting calls, binding calls]
  | tcpDatagramSocketConnect _ _ calls => [opening calls, setting calls, connecting calls]

/-- What the descriptor of the object refers to. -/
def file : ConstructorCall → FileDescription
  | eventfd initvalue flags _ => .eventfd initvalue (flags ||| EFD_CLOEXEC)
  | monotonicTimerfd flags _ => .timerfd (flags ||| TFD_CLOEXEC)
  | epoll _ => .epoll EPOLL_CLOEXEC
  | udpSocket domain _ => .socket ⟨domain, SOCK_DGRAM ||| SOCK_CLOEXEC, 0, [], none, none⟩
  | udpSocketBind addr port _ =>
    .socket ⟨AF_INET, SOCK_DGRAM ||| SOCK_CLOEXEC, 0, [], some (makeSockaddr addr port), none⟩
  | tcpSocket domain _ => .socket ⟨domain, SOCK_STREAM ||| SOCK_CLOEXEC, 0, [], none, none⟩
  | tcpSocketBind address port _ =>
    .socket ⟨AF_INET, SOCK_STREAM ||| SOCK_CLOEXEC, 0, [], some (makeSockaddr address port), none⟩
  | tcpSocketBindAddress address _ =>
    .socket ⟨AF_INET, SOCK_STREAM ||| SOCK_CLOEXEC, 0, [], some (makeSockaddrOf address), none⟩
  | tcpSocketConnect address port _ =>
    .socket ⟨AF_INET, SOCK_STREAM ||| SOCK_CLOEXEC, 0, [], none, some (makeSockaddr address port)⟩
  | tcpDatagramSocket domain _ =>
    .socket ⟨domain, SOCK_STREAM ||| SOCK_CLOEXEC, 0, [tcpNodelayOption], none, none⟩
  | tcpDatagramSocketBind address port _ =>
    .socket ⟨AF_INET, SOCK_STREAM ||| SOCK_CLOEXEC, 0, [tcpNodelayOption],
      some (makeSockaddr address port), none⟩
  | tcpDatagramSocketBindAddress address _ =>
    .socket ⟨AF_INET, SOCK_STREAM ||| SOCK_CLOEXEC, 0, [tcpNodelayOption],
      some (makeSockaddrOf address), none⟩
  | tcpDatagramSocketConnect address port _ =>
    .socket ⟨AF_INET, SOCK_STREAM ||| SOCK_CLOEXEC, 0, [tcpNodelayOption], none,
      some (makeSockaddr address port)⟩

end ConstructorCall

/-- A constructor opens a descriptor for `file`, the lowest that is free, if no call fails, and
changes no other. If one of its calls fails, it throws what the first of these reports, and every
descriptor is as it was. -/
def OpensOrNothing (x : Constructor UniqueFd) (file : FileDescription)
    (failures : List (Option SystemError)) : Prop :=
  ∀ t : DescriptorTable FileDescription,
    (∃ u, x t = (.ok (.ofFd t.lowestFree), u) ∧ failures.reduceOption = [] ∧
      ∀ fd, u.get fd = if fd = t.lowestFree then some file else t.get fd) ∨
    ∃ e u, x t = (.error e, u) ∧ failures.reduceOption.head? = some e ∧
      ∀ fd, u.get fd = t.get fd

/-- The same for a constructor that opens two descriptors with one call, which `execve` closes. -/
def OpensBothOrNothing (x : Constructor (UniqueFd × UniqueFd)) (failure : Option SystemError) :
    Prop :=
  ∀ t : DescriptorTable FileDescription,
    (∃ p u, x t = (.ok p, u) ∧ failure = none ∧
      Acquired ClosesOnExec [] t u (p.1.fds ++ p.2.fds)) ∨
    ∃ e u, x t = (.error e, u) ∧ failure = some e ∧ ∀ fd, u.get fd = t.get fd

/-- A constructor that is given the descriptor of `sock` has it, for what `f` makes of the file, if
its call does not fail. Otherwise it throws what the call reports, and the descriptor is closed. No
other descriptor changes. -/
def ChangesOrCloses (x : Constructor UniqueFd) (sock : UniqueFd)
    (f : FileDescription → FileDescription) (failure : Option SystemError) : Prop :=
  ∀ t : DescriptorTable FileDescription,
    (∃ u, x t = (.ok sock, u) ∧ failure = none ∧
      ∀ fd, u.get fd = if fd = sock.get then (t.get fd).map f else t.get fd) ∨
    ∃ e u, x t = (.error e, u) ∧ failure = some e ∧
      ∀ fd, u.get fd = if fd = sock.get then none else t.get fd

end Law

end Linuxpp.Net
