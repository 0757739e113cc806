import Linuxpp.Descriptor.UniqueFd
import Linuxpp.Foundations.BigEndian
import Linuxpp.Foundations.DescriptorTable
import Linuxpp.Kernel.Errno

/-!
# Accepting connections

The overloads of `accept`, and the functions of `tcp_socket` and `tcp_datagram_socket` that forward
to them. What `accept4` does is a parameter; its calls are recorded.
-/

namespace Linuxpp.Net

def SOCK_NONBLOCK : UInt32 := 0x800
def SOCK_CLOEXEC : UInt32 := 0x80000

/-- What is known of an accepted descriptor: `O_NONBLOCK` and `FD_CLOEXEC`. -/
structure AcceptedSocket where
  nonBlock : Bool
  closeOnExec : Bool
deriving DecidableEq, Repr

/-- The descriptors of a process, and the descriptor and the flags of each call of `accept4`. -/
structure Sockets where
  table : DescriptorTable AcceptedSocket := {}
  accept4Calls : List (Int × UInt32) := []
deriving DecidableEq, Repr

/-- `struct sockaddr_in`; the port and the address are bytes in network order. -/
structure SockaddrIn where
  sinFamily : ℕ := 0
  sinPort : List UInt8 := [0, 0]
  sinAddr : List UInt8 := [0, 0, 0, 0]
deriving DecidableEq, Repr

/-- `sizeof(struct sockaddr_in)`. -/
def sizeofSockaddrIn : ℕ := 16

/-- What `accept4` does. -/
inductive Accept4Outcome where
  | fails (errno : Errno)
  /-- It accepts a connection, and writes an address and the length of the address back. -/
  | accepts (sockaddr : SockaddrIn) (socklen : ℕ)
deriving DecidableEq

/-- What the overloads throw. -/
inductive AcceptError where
  | systemError (errno : Errno)
  | runtimeError
deriving DecidableEq

def AcceptError.what : AcceptError → String
  | systemError _ => "accept system call failed"
  | runtimeError => "accept system call returned invalid socklen_t"

/-- The arguments `sockaddr` and `socklen`, if they are not null pointers. -/
structure AddressBuffer where
  sockaddr : SockaddrIn
  socklen : ℕ
deriving DecidableEq

/-- The socket that `accept4` makes for these flags. -/
def AcceptedSocket.ofFlags (flags : UInt32) : AcceptedSocket where
  nonBlock := flags &&& SOCK_NONBLOCK ≠ 0
  closeOnExec := flags &&& SOCK_CLOEXEC ≠ 0

section Accept

variable (o : Accept4Outcome) (s : Sockets)

/-- `detail::accept`: the result, what the pointers point to after the call, and the process. -/
def detailAccept (sd : Int) (address : Option AddressBuffer) (flags : UInt32 := 0) :
    Except AcceptError ℕ × Option AddressBuffer × Sockets :=
  let s := { s with accept4Calls := s.accept4Calls ++ [(sd, flags)] }
  match o with
  | .fails errno => (.error (.systemError errno), address, s)
  | .accepts sockaddr socklen =>
    (.ok s.table.lowestFree, address.map fun _ => ⟨sockaddr, socklen⟩,
      { s with table := s.table.insert (.ofFlags flags) })

/-- `accept(sd, flags)`. -/
def accept (sd : Int) (flags : UInt32 := 0) : Except AcceptError ℕ × Sockets :=
  let (result, _, s) := detailAccept o s sd none (flags ||| SOCK_CLOEXEC)
  (result, s)

/-- `accept(sd, sockaddr, flags)`; the descriptor comes with the `sockaddr` that is filled in. -/
def acceptSockaddr (sd : Int) (sockaddr : SockaddrIn) (flags : UInt32 := 0) :
    Except AcceptError (ℕ × SockaddrIn) × Sockets :=
  let (result, address, s) :=
    detailAccept o s sd (some ⟨sockaddr, sizeofSockaddrIn⟩) (flags ||| SOCK_CLOEXEC)
  match result, address with
  | .ok ret, some address =>
    if address.socklen ≠ sizeofSockaddrIn then (.error .runtimeError, s)
    else (.ok (ret, address.sockaddr), s)
  | .ok ret, none => (.ok (ret, sockaddr), s)
  | .error e, _ => (.error e, s)

/-- `parse_sockaddr`: the numbers of the address and the port. -/
def parseSockaddr (sockaddr : SockaddrIn) : ℕ × ℕ :=
  -- `ntohl`, `ntohs`
  (BigEndian.decode sockaddr.sinAddr, BigEndian.decode sockaddr.sinPort)

/-- `accept(sd, addr, port, flags)`; the descriptor comes with the address and the port. The flags
are not passed on. -/
def acceptAddress (sd : Int) (_flags : UInt32 := 0) :
    Except AcceptError (ℕ × ℕ × ℕ) × Sockets :=
  let (result, s) := acceptSockaddr o s sd {}
  (result.map fun (ret, sockaddr) => (ret, parseSockaddr sockaddr), s)

/-- `tcp_socket`. -/
structure TcpSocket where
  sockDescriptor : UniqueFd
deriving DecidableEq

/-- `tcp_socket::accept(flags)`. -/
def TcpSocket.accept (sock : TcpSocket) (flags : UInt32 := 0) : Except AcceptError ℕ × Sockets :=
  Net.accept o s sock.sockDescriptor.get flags

/-- `tcp_socket::accept(addr, port, flags)`. -/
def TcpSocket.acceptAddress (sock : TcpSocket) (flags : UInt32 := 0) :
    Except AcceptError (ℕ × ℕ × ℕ) × Sockets :=
  Net.acceptAddress o s sock.sockDescriptor.get flags

/-- `tcp_datagram_socket`, of which only the socket has a part here. -/
structure TcpDatagramSocket where
  socket : TcpSocket
deriving DecidableEq

/-- `tcp_datagram_socket::accept(flags)`. -/
def TcpDatagramSocket.accept (sock : TcpDatagramSocket) (flags : UInt32 := 0) :
    Except AcceptError ℕ × Sockets :=
  sock.socket.accept o s flags

/-- `tcp_datagram_socket::accept(addr, port, flags)`. -/
def TcpDatagramSocket.acceptAddress (sock : TcpDatagramSocket) (flags : UInt32 := 0) :
    Except AcceptError (ℕ × ℕ × ℕ) × Sockets :=
  sock.socket.acceptAddress o s flags

end Accept

section Law

/-- The functions that accept a connection. -/
inductive AcceptPath where
  | withFlags
  | withSockaddr (initial : SockaddrIn)
  | withAddress
  | tcpSocket
  | tcpSocketAddress
  | tcpDatagramSocket
  | tcpDatagramSocketAddress
deriving DecidableEq

/-- The function, called for the listening socket `u` with `flags`: the accepted descriptor or the
exception, and the process after it. -/
def AcceptPath.run (path : AcceptPath) (o : Accept4Outcome) (s : Sockets) (u : UniqueFd)
    (flags : UInt32) : Except AcceptError ℕ × Sockets :=
  match path with
  | .withFlags => accept o s u.get flags
  | .withSockaddr initial =>
    let (result, s) := acceptSockaddr o s u.get initial flags
    (result.map Prod.fst, s)
  | .withAddress =>
    let (result, s) := acceptAddress o s u.get flags
    (result.map Prod.fst, s)
  | .tcpSocket => TcpSocket.accept o s ⟨u⟩ flags
  | .tcpSocketAddress =>
    let (result, s) := TcpSocket.acceptAddress o s ⟨u⟩ flags
    (result.map Prod.fst, s)
  | .tcpDatagramSocket => TcpDatagramSocket.accept o s ⟨⟨u⟩⟩ flags
  | .tcpDatagramSocketAddress =>
    let (result, s) := TcpDatagramSocket.acceptAddress o s ⟨⟨u⟩⟩ flags
    (result.map Prod.fst, s)

/-- All functions that accept a connection treat the flags alike and leak nothing. -/
structure AcceptsAlike (o : Accept4Outcome) (s : Sockets) (u : UniqueFd) (flags : UInt32) :
    Prop where
  /-- Each calls `accept4` once, with the caller's flags and `SOCK_CLOEXEC`. -/
  sameFlags : ∀ path : AcceptPath, (path.run o s u flags).2.accept4Calls =
    s.accept4Calls ++ [(u.get, flags ||| SOCK_CLOEXEC)]
  /-- The descriptors that two of them accept have the same flags. -/
  sameStatus : ∀ (path path' : AcceptPath) (fd fd' : ℕ),
    (path.run o s u flags).1 = .ok fd → (path'.run o s u flags).1 = .ok fd' →
      (path.run o s u flags).2.table.get fd = (path'.run o s u flags).2.table.get fd'
  /-- One that throws leaves no descriptor open that it has accepted. -/
  noLeak : ∀ (path : AcceptPath) (e : AcceptError), (path.run o s u flags).1 = .error e →
    (path.run o s u flags).2.table = s.table

/-- `accept4` fails, or it writes the length of a `struct sockaddr_in` back. -/
def Accept4Outcome.ExpectedLength : Accept4Outcome → Prop
  | fails _ => True
  | accepts _ socklen => socklen = sizeofSockaddrIn

instance : DecidablePred Accept4Outcome.ExpectedLength := fun o =>
  match o with
  | .fails _ => isTrue trivial
  | .accepts _ _ => inferInstanceAs (Decidable (_ = _))

end Law
end Linuxpp.Net
