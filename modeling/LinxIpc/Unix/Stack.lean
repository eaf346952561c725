import LinxIpc.Network.Pairing
import LinxIpc.Unix.Delivery

/-!
Clients and a server on the Unix sockets of one host.

The clients call `sendReceive`, the server has a handler, and both send and receive
with `AfUnixSocket`.  What is pending at the server's socket is what its worker
reads.
-/

namespace LinxIpc

variable {κ β δ : Type}

structure UnixNames (κ : Type) where
  server : SocketName
  client : κ → SocketName
  distinct : ∀ one other, (client one).value = (client other).value → one = other
  others : ∀ one, (client one).value ≠ server.value

def Prepared.outgoing (request : Prepared) (dest : SocketName) : Outgoing :=
  { msg := request.msg, dest := { value := dest.value }, buffer := request.buffer
    small := request.small, size := request.size, fits := Nat.le_succ_of_le dest.short }

namespace UnixStack

inductive Action (κ β δ : Type) where
  /-- Without `room` at the server's socket `sendto` fails. -/
  | sendReceive (client : κ) (request : Prepared) (room : Bool) (now timeoutMs : Int)
  /-- A pass of the loop in `GenericClient::receive`. -/
  | receive (client : κ) (now later : Int)
  | pipeline (action : Server.Pipeline.Action SockaddrUn β δ UnixInfo)
  /-- The innermost callback calls `sendResponse`; `sendto` waits for room. -/
  | respond (buffer : List UInt8)

end UnixStack

structure UnixStack (κ β δ : Type) where
  /-- Its inbox is loaded from the server's socket. -/
  pipeline : Server.Pipeline SockaddrUn β δ UnixInfo
  owed : List (Option (LinxReceivedMessage UnixInfo))
  client : κ → Network.Point
  live : List Endpoint

namespace UnixStack

def locate (live : List Endpoint) (name : StdString) : Option (Nat × Endpoint) :=
  match live.findIdx? (fun endpoint => endpoint.socket.socketName == name) with
  | none => none
  | some index => live[index]?.map (fun self => (index, self))

def load (pipeline : Server.Pipeline SockaddrUn β δ UnixInfo) (inbox : List (Datagram SockaddrUn)) :
    Server.Pipeline SockaddrUn β δ UnixInfo :=
  { pipeline with server := { pipeline.server with inbox := inbox } }

def start (efd : LinxEventFd) (size : Int32) (live : List Endpoint) : UnixStack κ β δ :=
  { pipeline := .create efd size, owed := [], client := fun _ => .idle, live := live }

variable [DecidableEq κ]

/-- The request is at the server's socket as soon as `sendto` has returned. -/
def sent (client : κ) (request : RawMessage) (sender : AfUnixSocket) :
    List (Network.Event κ SockaddrUn β δ UnixInfo) :=
  [.requested client request, .delivered client request,
    .pipeline (.server (.arrived
      { bytes := request.bytes, address := sender.reportedAddress }))]

def step (names : UnixNames κ) (respond : LinxReceivedMessage UnixInfo → RawMessage)
    (net : UnixStack κ β δ) :
    Action κ β δ → Option (UnixStack κ β δ × List (Network.Event κ SockaddrUn β δ UnixInfo))
  | .sendReceive client request room now timeoutMs =>
      match net.client client, locate net.live (names.client client).value with
      | .idle, some (_, self) =>
          -- no request is a ping
          if request.msg.reqId = ipcPingReq then none
          else
            match self.socket.sendOn request.msg.toIMessage { value := names.server.value }
                request.buffer (Endpoint.sendto self.socket room) net.live with
            | none => none
            | some (result, live) =>
                if result < 0 then
                  some ({ net with live := live },
                    [.finished client { request := request.msg, sent := false, result := none }])
                else
                  some ({ net with
                    live := live
                    client := Function.update net.client client
                      (.receiving request.msg (Deadline.create now timeoutMs)) },
                    sent client request.msg self.socket)
      | _, _ => none
  | .receive client now later =>
      match net.client client, locate net.live (names.client client).value with
      | .receiving request deadline, some (index, self) =>
          match (AfUnixSocket.receive self.socket.fd (deadline.getRemainingTimeMs now)).runOn
              self.inbox with
          | none => none
          | some (received, inbox) =>
              let live := net.live.set index { self with inbox := inbox }
              match Client.receiveBody ({ value := names.server.value } : UnixInfo) [] received with
              | .finish result =>
                  some ({ net with
                      live := live, client := Function.update net.client client .idle },
                    [.finished client { request := request, sent := true, result := result }])
              | .goOn _ =>
                  if deadline.isExpired later then
                    some ({ net with
                      live := live, client := Function.update net.client client .idle },
                      [.finished client { request := request, sent := true, result := none }])
                  else some ({ net with live := live }, [])
              | .undefined => none
      | _, _ => none
  | .pipeline action =>
      if Network.PipelineAction action then
        match locate net.live names.server.value with
        | none => none
        | some (index, self) =>
            match (load net.pipeline self.inbox).step AfUnixSocket.identifier action with
            | none => none
            | some (pipeline, events) =>
                match Network.owedAfter net.owed action events with
                | none => none
                | some owed =>
                    some ({ net with
                      pipeline := pipeline
                      owed := owed
                      live := net.live.set index { self with inbox := pipeline.server.inbox } },
                      events.map .pipeline)
      else none
  | .respond buffer =>
      match net.pipeline.receiving, net.owed, locate net.live names.server.value with
      | false, some msg :: rest, some (_, self) =>
          match Server.sendResponse msg true (respond msg) with
          | some (.send peer response) =>
              if buffer.length = response.toIMessage.getSize.toNat then
                match self.socket.sendOn response.toIMessage peer buffer
                    (Endpoint.sendto self.socket true) net.live with
                | none => none
                | some (_, live) =>
                    some ({ net with owed := none :: rest, live := live }, [.responded msg])
              else none
          | _ => none
      | _, _, _ => none

def machine (names : UnixNames κ) (respond : LinxReceivedMessage UnixInfo → RawMessage) :
    Machine (UnixStack κ β δ) (Action κ β δ) (Network.Event κ SockaddrUn β δ UnixInfo) where
  step := step names respond

end UnixStack

end LinxIpc
