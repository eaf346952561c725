import LinxIpc.Process.Custody
import LinxIpc.Udp.Factory
import LinxIpc.Unix.Factory

/-!
The descriptors that the factories and the objects they make open and close.

What the kernel answers to `socket` and `eventfd` is given; it is negative where the
call failed.  A factory that returns null destroys the socket it has made.
-/

namespace LinxIpc

open Custody

abbrev Descriptors := Table Int

/-- `close` of either socket, which its destructor calls once more. -/
def closeSocket (fd : Int) (table : Descriptors) : Int × Descriptors :=
  if 0 ≤ fd then (-1, table.close fd) else (fd, table)

namespace UdpSocket

def close (self : UdpSocket) (table : Descriptors) : UdpSocket × Descriptors :=
  let (fd, table) := closeSocket self.fd table
  ({ self with fd := fd }, table)

def destroy (self : UdpSocket) (table : Descriptors) : Descriptors := (self.close table).2

/-- `open`: what `socket` returned is taken unless it failed or was not called. -/
def openOn (self : UdpSocket) (socketFd : Int) (table : Descriptors) :
    Int × UdpSocket × Descriptors :=
  let (result, socket) := self.openSocket socketFd
  (result, socket, if result < 0 then table else table.take socketFd)

end UdpSocket

namespace AfUnixSocket

def close (self : AfUnixSocket) (table : Descriptors) : AfUnixSocket × Descriptors :=
  let (fd, table) := closeSocket self.fd table
  ({ self with fd := fd }, table)

def destroy (self : AfUnixSocket) (table : Descriptors) : Descriptors := (self.close table).2

/-- `open`, which closes a socket that it cannot bind. -/
def openOn (self : AfUnixSocket) (inUse : List (List UInt8)) (socketFd : Int)
    (table : Descriptors) : Option (Int × AfUnixSocket × Descriptors) :=
  (self.openSocket inUse socketFd).map fun (result, socket) =>
    (result, socket,
      if 0 ≤ self.fd ∨ socketFd < 0 then table
      else if result < 0 then (table.take socketFd).close socketFd
      else table.take socketFd)

end AfUnixSocket

namespace LinxEventFd

def openOn (eventFd : Int) (table : Descriptors) : LinxEventFd × Descriptors :=
  ({ efd := eventFd, counter := 0 }, if eventFd < 0 then table else table.take eventFd)

def destroy (self : LinxEventFd) (table : Descriptors) : Descriptors :=
  if 0 ≤ self.efd then table.close self.efd else table

end LinxEventFd

/-! ### The factories -/

/-- The queue of a server that was made has opened its `LinxEventFd`. -/
def openEvent {β : Type} (made : Option β) (eventFd : Int) (table : Descriptors) : Descriptors :=
  match made with
  | none => table
  | some _ => (LinxEventFd.openOn eventFd table).2

namespace UdpFactory

/-- A factory opens a new socket, which is destroyed if no object has got it. -/
def withSocketOn {β : Type} (made : Option β) (socketFd : Int) (table : Descriptors) :
    Descriptors :=
  let (_, socket, table) := UdpSocket.create.openOn socketFd table
  match made with
  | none => socket.destroy table
  | some _ => table

def createSimpleServerOn (kernel : UdpKernel) (socketFd : Int) (port : UInt16)
    (table : Descriptors) : Option UdpSimpleServer × Descriptors :=
  let made := createSimpleServer kernel socketFd port
  (made, withSocketOn made socketFd table)

def createServerOn (kernel : UdpKernel) (socketFd eventFd : Int) (port : UInt16)
    (queueSize : Nat) (table : Descriptors) : Option UdpServer × Descriptors :=
  let made := createServer kernel socketFd { efd := eventFd, counter := 0 } port queueSize
  (made, openEvent made eventFd (withSocketOn made socketFd table))

/-- For another address no socket is opened. -/
def createMulticastServerOn (kernel : UdpKernel) (socketFd eventFd : Int)
    (multicastIp : StdString) (port : UInt16) (queueSize : Nat) (table : Descriptors) :
    Option UdpServer × Descriptors :=
  let made := createMulticastServer kernel socketFd { efd := eventFd, counter := 0 } multicastIp
    port queueSize
  (made,
    if isMulticastIp multicastIp then
      openEvent made eventFd (withSocketOn made socketFd table)
    else table)

def createClientOn (kernel : UdpKernel) (socketFd : Int) (draw : Nat) (ip : StdString)
    (port : UInt16) (table : Descriptors) : Option UdpClient × Descriptors :=
  let made := createClient kernel socketFd draw ip port
  (made, withSocketOn made socketFd table)

end UdpFactory

namespace AfUnixFactory

def withSocketOn {β : Type} (made : Option (Option β)) (inUse : List (List UInt8))
    (socketFd : Int) (name : StdString) (table : Descriptors) : Option (Option β × Descriptors) :=
  match made, (AfUnixSocket.create name).openOn inUse socketFd table with
  | some none, some (_, socket, table) => some (none, socket.destroy table)
  | some (some object), some (_, _, table) => some (some object, table)
  | _, _ => none

def createSimpleServerOn (inUse : List (List UInt8)) (socketFd : Int) (socketName : StdString)
    (table : Descriptors) : Option (Option AfUnixSimpleServer × Descriptors) :=
  withSocketOn (createSimpleServer inUse socketFd socketName) inUse socketFd socketName table

def createServerOn (inUse : List (List UInt8)) (socketFd eventFd : Int) (socketName : StdString)
    (queueSize : Nat) (table : Descriptors) : Option (Option AfUnixServer × Descriptors) :=
  (withSocketOn (createServer inUse socketFd socketName queueSize) inUse socketFd socketName
    table).map fun (made, table) => (made, openEvent made eventFd table)

def createClientOn (inUse : List (List UInt8)) (socketFd : Int) (draw : Nat)
    (serverSocket : StdString) (table : Descriptors) :
    Option (Option AfUnixClient × Descriptors) :=
  withSocketOn (createClient inUse socketFd draw serverSocket) inUse socketFd
    (clientId draw serverSocket) table

end AfUnixFactory

/-! ### The sockets of the objects -/

theorem UdpSocket.openSocket_create (socketFd : Int) :
    create.openSocket socketFd =
      if socketFd < 0 then (-1, { fd := -1 }) else (0, { fd := socketFd }) := by
  have closed : ¬ (0 : Int) ≤ -1 := by decide
  rw [openSocket, create]
  exact if_neg closed

theorem AfUnixSocket.openSocket_create_cases {name : StdString} {inUse : List (List UInt8)}
    {socketFd result : Int} {socket : AfUnixSocket}
    (opened : (create name).openSocket inUse socketFd = some (result, socket)) :
    (result = -1 ∧ socket.fd = -1) ∨ (0 ≤ socketFd ∧ result = 0 ∧ socket.fd = socketFd) := by
  have closed : ¬ (0 : Int) ≤ -1 := by decide
  rw [openSocket, create, if_neg closed] at opened
  by_cases failed : socketFd < 0
  · rw [if_pos failed] at opened
    cases opened
    exact .inl ⟨rfl, rfl⟩
  · rw [if_neg failed] at opened
    split at opened
    · cases opened
    · split at opened
      · cases opened
        exact .inl ⟨rfl, rfl⟩
      · cases opened
        exact .inr ⟨Int.not_lt.mp failed, rfl, rfl⟩

def HasSocket (socketFd fd : Int) : Prop := 0 ≤ socketFd ∧ fd = socketFd

namespace UdpFactory

theorem boundSocket_fd {kernel : UdpKernel} {socketFd : Int} {port : UInt16}
    {multicastIp : StdString} {socket : UdpSocket}
    (bound : boundSocket kernel socketFd port multicastIp = some socket) :
    HasSocket socketFd socket.fd := by
  rw [boundSocket, UdpSocket.openSocket_create] at bound
  by_cases failed : socketFd < 0
  · rw [if_pos failed] at bound
    cases bound
  · simp only [if_neg failed, Int.lt_irrefl, if_false] at bound
    split at bound
    · cases bound
    · cases bound
      exact ⟨Int.not_lt.mp failed, rfl⟩

theorem createSimpleServer_fd {kernel : UdpKernel} {socketFd : Int} {port : UInt16}
    {server : UdpSimpleServer} (created : createSimpleServer kernel socketFd port = some server) :
    HasSocket socketFd server.socket.fd := by
  obtain ⟨socket, bound, rfl⟩ := Option.map_eq_some_iff.mp created
  exact boundSocket_fd bound

theorem createServer_fd {kernel : UdpKernel} {socketFd : Int} {efd : LinxEventFd} {port : UInt16}
    {queueSize : Nat} {server : UdpServer}
    (created : createServer kernel socketFd efd port queueSize = some server) :
    HasSocket socketFd server.socket.fd := by
  obtain ⟨socket, bound, rfl⟩ := Option.map_eq_some_iff.mp created
  exact boundSocket_fd bound

theorem createMulticastServer_fd {kernel : UdpKernel} {socketFd : Int} {efd : LinxEventFd}
    {multicastIp : StdString} {port : UInt16} {queueSize : Nat} {server : UdpServer}
    (created : createMulticastServer kernel socketFd efd multicastIp port queueSize =
      some server) : HasSocket socketFd server.socket.fd := by
  rw [createMulticastServer] at created
  split at created
  · cases created
  · split at created
    · cases created
    · rename_i socket bound
      split at created
      · cases created
      · cases created
        exact boundSocket_fd bound

theorem createClient_fd {kernel : UdpKernel} {socketFd : Int} {draw : Nat} {ip : StdString}
    {port : UInt16} {client : UdpClient}
    (created : createClient kernel socketFd draw ip port = some client) :
    HasSocket socketFd client.socket.fd := by
  rw [createClient, UdpSocket.openSocket_create] at created
  by_cases failed : socketFd < 0
  · rw [if_pos failed] at created
    cases created
  · simp only [if_neg failed, Int.lt_irrefl, if_false] at created
    split at created
    · cases created
    · split at created
      · cases created
      · cases created
        exact ⟨Int.not_lt.mp failed, rfl⟩

end UdpFactory

end LinxIpc
