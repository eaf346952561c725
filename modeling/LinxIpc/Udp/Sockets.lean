import LinxIpc.Socket.Receive
import LinxIpc.Wire.Message

/-!
`UdpSocket`: `open`, `bind`, the options of a socket, and `send`.

What the kernel answers to a call is given beside its arguments.
-/

namespace LinxIpc

structure UdpSocket where
  fd : Int
  deriving DecidableEq

/-- `in_addr`, in network byte order. -/
abbrev InAddr := UInt8 × UInt8 × UInt8 × UInt8

inductive SocketOption where
  /-- `IP_ADD_MEMBERSHIP` on the interface `INADDR_ANY`. -/
  | addMembership (multiaddr : InAddr)
  | multicastTtl (ttl : Int)
  | multicastLoop (loop : Int)
  | broadcast (enable : Int)
  deriving DecidableEq

structure UdpKernel where
  bind (fd : Int) (address : SockaddrIn) : Int
  setsockopt (fd : Int) (option : SocketOption) : Int

def inAddr (number : Nat) : InAddr :=
  (UInt8.ofNat (number / 2 ^ 24), UInt8.ofNat (number / 2 ^ 16), UInt8.ofNat (number / 2 ^ 8),
    UInt8.ofNat number)

def htons (port : UInt16) : UInt8 × UInt8 :=
  (UInt8.ofNat (port.toNat / 2 ^ 8), UInt8.ofNat port.toNat)

/-- `inet_aton` into an address of zeros, for a text that `inet_pton` reads or
that neither of them does. -/
def inetAton (ip : StdString) : InAddr := inAddr ((inetPton ip).getD 0)

namespace UdpSocket

def create : UdpSocket := { fd := -1 }

/-- `open`; `socketFd` is what `socket` returns. -/
def openSocket (self : UdpSocket) (socketFd : Int) : Int × UdpSocket :=
  if 0 ≤ self.fd then (-1, self)
  else if socketFd < 0 then (-1, { self with fd := -1 })
  else (0, { self with fd := socketFd })

/-- `multicastIp` is `"0.0.0.0"` where a caller leaves it out. -/
def bind (self : UdpSocket) (kernel : UdpKernel) (port : UInt16) (multicastIp : StdString) : Int :=
  kernel.bind self.fd
    { sinAddr := if isMulticastIp multicastIp then inetAton multicastIp else (0, 0, 0, 0)
      sinPort := htons port }

def joinMulticastGroup (self : UdpSocket) (kernel : UdpKernel) (multicastIp : StdString) : Int :=
  if self.fd < 0 then -1
  else kernel.setsockopt self.fd (.addMembership (inetAton multicastIp))

def setBroadcast (self : UdpSocket) (kernel : UdpKernel) (enable : Bool) : Int :=
  if self.fd < 0 then -1
  else kernel.setsockopt self.fd (.broadcast (if enable then 1 else 0))

def setMulticastTtl (self : UdpSocket) (kernel : UdpKernel) (ttl : Int) : Int :=
  if self.fd < 0 then -1
  else
    let result1 := kernel.setsockopt self.fd (.multicastTtl ttl)
    let result2 := kernel.setsockopt self.fd (.multicastLoop 1)
    if result1 < 0 then result1 else result2

/-- `send` on a kernel that is changed by `sendto`, which is given the datagram and the
address of the peer, and gives the number of bytes it sent unless it fails.  The array
`buffer` is not initialised. -/
def sendOn {σ : Type} (self : UdpSocket) (message : IMessage) (dest : PortInfo)
    (buffer : List UInt8) (sendto : List UInt8 → SockaddrIn → σ → Option Nat × σ) (kernel : σ) :
    Option (Int × σ) :=
  if self.fd < 0 then some (-1, kernel)
  else
    match message.serialize buffer message.getSize with
    | none => none
    | some (buffer, result) =>
        if result = 0 then some (-2, kernel)
        else
          match inetPton dest.ip with
          | none => some (-3, kernel)
          | some number =>
              let address := { sinAddr := inAddr number, sinPort := htons dest.port }
              match sendto (buffer.take result.toNat) address kernel with
              | (none, kernel) => some (-4, kernel)
              | (some len, kernel) =>
                  if UInt32.ofNat len ≠ result then some (-5, kernel) else some (0, kernel)

def send (self : UdpSocket) (message : IMessage) (dest : PortInfo) (buffer : List UInt8)
    (sendto : List UInt8 → SockaddrIn → Option Nat) : Option Int :=
  (self.sendOn message dest buffer (fun bytes peer _ => (sendto bytes peer, ())) ()).map Prod.fst

theorem send_closed {self : UdpSocket} (closed : self.fd < 0) (message : IMessage) (dest : PortInfo)
    (buffer : List UInt8) (sendto : List UInt8 → SockaddrIn → Option Nat) :
    self.send message dest buffer sendto = some (-1) := by
  simp only [send, sendOn, if_pos closed, Option.map_some]

def answer (size : Nat) : Option Nat → Int
  | none => -4
  | some len => if len % 4294967296 ≠ size then -5 else 0

end UdpSocket

end LinxIpc
