import LinxIpc.Queue.LinxQueue
import LinxIpc.Udp.Sockets

/-!
`UdpFactory`: servers and clients on sockets that have just been opened.

A factory returns null if a call on its socket fails.
-/

namespace LinxIpc

structure UdpSimpleServer where
  serverId : StdString
  socket : UdpSocket

structure UdpServer where
  serverId : StdString
  socket : UdpSocket
  queue : LinxQueue PortInfo

structure UdpClient where
  clientId : StdString
  socket : UdpSocket
  identifier : PortInfo

namespace UdpFactory

def anyIp : StdString := ofAscii "0.0.0.0"

def endpoint (ip : StdString) (port : UInt16) : StdString :=
  ip ++ ofAscii ":" ++ decimal port.toNat

/-- What the server factories share: a new socket, opened and bound.  What
`socket` returns is given. -/
def boundSocket (kernel : UdpKernel) (socketFd : Int) (port : UInt16) (multicastIp : StdString) :
    Option UdpSocket :=
  let (result, socket) := UdpSocket.create.openSocket socketFd
  if result < 0 then none
  else if socket.bind kernel port multicastIp < 0 then none
  else some socket

def createSimpleServer (kernel : UdpKernel) (socketFd : Int) (port : UInt16) :
    Option UdpSimpleServer :=
  (boundSocket kernel socketFd port anyIp).map fun socket =>
    { serverId := endpoint anyIp port, socket := socket }

/-- `efd` is the new `LinxEventFd`. -/
def createServer (kernel : UdpKernel) (socketFd : Int) (efd : LinxEventFd) (port : UInt16)
    (queueSize : Nat) : Option UdpServer :=
  (boundSocket kernel socketFd port anyIp).map fun socket =>
    { serverId := endpoint anyIp port
      socket := socket
      queue := .create efd (ofSizeT queueSize) }

def createMulticastServer (kernel : UdpKernel) (socketFd : Int) (efd : LinxEventFd)
    (multicastIp : StdString) (port : UInt16) (queueSize : Nat) : Option UdpServer :=
  if !isMulticastIp multicastIp then none
  else
    match boundSocket kernel socketFd port multicastIp with
    | none => none
    | some socket =>
        if socket.joinMulticastGroup kernel multicastIp < 0 then none
        else
          some
            { serverId := endpoint multicastIp port
              socket := socket
              queue := .create efd (ofSizeT queueSize) }

/-- `draw` is a number from 0 to 65535. -/
def createClient (kernel : UdpKernel) (socketFd : Int) (draw : Nat) (ip : StdString)
    (port : UInt16) : Option UdpClient :=
  let (result, socket) := UdpSocket.create.openSocket socketFd
  if result < 0 then none
  else if isMulticastIp ip && decide (socket.setMulticastTtl kernel 1 < 0) then none
  else if isBroadcastIp ip && decide (socket.setBroadcast kernel true < 0) then none
  else
    some
      { clientId := ofAscii "client_" ++ decimal draw ++ ofAscii "_" ++ endpoint ip port
        socket := socket
        identifier := .create ip port }

theorem createServer_queue {kernel : UdpKernel} {socketFd : Int} {efd : LinxEventFd}
    {port : UInt16} {queueSize : Nat} {server : UdpServer}
    (created : createServer kernel socketFd efd port queueSize = some server) :
    server.queue = .create efd (ofSizeT queueSize) := by
  obtain ⟨socket, -, rfl⟩ := Option.map_eq_some_iff.mp created
  rfl

theorem createMulticastServer_queue {kernel : UdpKernel} {socketFd : Int} {efd : LinxEventFd}
    {multicastIp : StdString} {port : UInt16} {queueSize : Nat} {server : UdpServer}
    (created : createMulticastServer kernel socketFd efd multicastIp port queueSize =
      some server) : server.queue = .create efd (ofSizeT queueSize) := by
  unfold createMulticastServer at created
  split at created
  · cases created
  · split at created
    · cases created
    · split at created
      · cases created
      · cases created
        rfl

end UdpFactory

end LinxIpc
