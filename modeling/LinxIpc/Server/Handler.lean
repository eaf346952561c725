import Mathlib.Logic.Function.Basic
import LinxIpc.Server.GenericServer

/-!
`LinxIpcHandler` on a `GenericServer`: one thread that registers callbacks and
calls `handleMessage`, beside the worker.

The handler map belongs to that thread alone, so looking a request id up and
calling the callback are one step with the return of `receive`.  A callback may
call `handleMessage` again; it does not register others.
-/

namespace LinxIpc.Server

variable {α β δ ι : Type}

/-! ### The source -/

structure IpcContainer (β δ : Type) where
  callback : β
  data : δ
  deriving DecidableEq

structure LinxIpcHandler (β δ : Type) where
  handlers : UInt32 → Option (IpcContainer β δ)

inductive Handled (β δ ι : Type) where
  /-- It returns what `container.callback(recvMsg, container.data)` returns. -/
  | invoked (container : IpcContainer β δ) (recvMsg : LinxReceivedMessage ι)
  | returned (unhandled : Option (LinxReceivedMessage ι)) (result : Int)
  deriving DecidableEq

namespace LinxIpcHandler

def create : LinxIpcHandler β δ := { handlers := fun _ => none }

def registerCallback (handler : LinxIpcHandler β δ) (reqId : UInt32) (callback : β) (data : δ) :
    LinxIpcHandler β δ :=
  { handlers := Function.update handler.handlers reqId
      (some { callback := callback, data := data }) }

/-- The arguments of `receive(timeoutMs, LINX_ANY_SIG, LINX_ANY_FROM)`. -/
def anyMessage (timeoutMs : Int) : Queue.Get ι :=
  { timeoutMs := timeoutMs, sigsel := [], sender := none }

/-- `handleMessage` after its call of `receive`. -/
def handleMessage (handler : LinxIpcHandler β δ) (recvMsg : Option (LinxReceivedMessage ι)) :
    Handled β δ ι :=
  match recvMsg with
  | some recvMsg =>
      match handler.handlers recvMsg.message.reqId with
      | some container => .invoked container recvMsg
      | none => .returned (some recvMsg) 0
  | none => .returned none (-1)

end LinxIpcHandler

inductive SendResponse (ι : Type) where
  /-- `srv->send(response, *from)`. -/
  | send (peer : ι) (response : RawMessage)
  | returned (result : Int)
  deriving DecidableEq

/-- `LinxReceivedMessage::sendResponse`; `alive` tells if `server.lock()` gives a
server.  Without a sender the assertion fails. -/
def sendResponse (msg : LinxReceivedMessage ι) (alive : Bool) (response : RawMessage) :
    Option (SendResponse ι) :=
  match msg.sender with
  | none => none
  | some peer => if alive then some (.send peer response) else some (.returned (-1))

/-! ### The thread of the handler beside the worker -/

structure Pipeline (α β δ ι : Type) where
  server : State Unit α ι
  handler : LinxIpcHandler β δ
  /-- In the call of `receive` in `handleMessage`. -/
  receiving : Bool
  /-- The callbacks that have not returned, the innermost first. -/
  callbacks : List (IpcContainer β δ)

namespace Pipeline

inductive Action (α β δ ι : Type) where
  | server (action : Server.Action Unit α ι)
  | registerCallback (reqId : UInt32) (callback : β) (data : δ)
  | handleMessage (timeoutMs : Int)
  | dispatch
  | callbackReturns (result : Int)

inductive Event (α β δ ι : Type) where
  | server (event : Server.Event Unit α ι)
  | registered (reqId : UInt32) (container : IpcContainer β δ)
  | invoked (container : IpcContainer β δ) (msg : LinxReceivedMessage ι)
  | unhandled (msg : LinxReceivedMessage ι)
  | handled (result : Int)

def create (efd : LinxEventFd) (size : Int32) : Pipeline α β δ ι :=
  { server := .create efd size, handler := .create, receiving := false, callbacks := [] }

/-- The thread of the handler calls `receive` from `handleMessage` only. -/
def ServerAction (action : Server.Action Unit α ι) : Bool :=
  match action with
  | .queue (.call (.consumer _) _) => false
  | .queue (.ret (.consumer _)) => false
  | _ => true

def recvMsg? (p : Pipeline α β δ ι) : Option (Option (LinxReceivedMessage ι)) :=
  match p.server.queue.pc (.consumer ()) with
  | .returning (.get recvMsg) => some recvMsg
  | _ => none

def afterReceive (p : Pipeline α β δ ι) (server : State Unit α ι) :
    Handled β δ ι → Pipeline α β δ ι × List (Event α β δ ι)
  | .invoked container msg =>
      ({ p with server := server, receiving := false, callbacks := container :: p.callbacks },
        [.invoked container msg])
  | .returned unhandled result =>
      ({ p with server := server, receiving := false },
        unhandled.toList.map .unhandled ++ [.handled result])

variable [BEq ι]

def step (identifier : α → ι) (p : Pipeline α β δ ι) :
    Action α β δ ι → Option (Pipeline α β δ ι × List (Event α β δ ι))
  | .server action =>
      if ServerAction action then
        match p.server.step identifier action with
        | none => none
        | some (server, events) => some ({ p with server := server }, events.map .server)
      else none
  | .registerCallback reqId callback data =>
      match p.receiving, p.callbacks with
      | false, [] =>
          some ({ p with handler := p.handler.registerCallback reqId callback data },
            [.registered reqId { callback := callback, data := data }])
      | _, _ => none
  | .handleMessage timeoutMs =>
      if p.receiving then none
      else
        match p.server.step identifier
            (.queue (.call (.consumer ()) (.get (LinxIpcHandler.anyMessage timeoutMs)))) with
        | none => none
        | some (server, events) =>
            some ({ p with server := server, receiving := true }, events.map .server)
  | .dispatch =>
      match p.recvMsg?, p.server.step identifier (.queue (.ret (.consumer ()))) with
      | some recvMsg, some (server, events) =>
          let (next, emitted) := p.afterReceive server (p.handler.handleMessage recvMsg)
          some (next, events.map .server ++ emitted)
      | _, _ => none
  | .callbackReturns result =>
      match p.receiving, p.callbacks with
      | false, _ :: callbacks => some ({ p with callbacks := callbacks }, [.handled result])
      | _, _ => none

def machine (identifier : α → ι) :
    Machine (Pipeline α β δ ι) (Action α β δ ι) (Event α β δ ι) where
  step := step identifier

def invocations (events : List (Event α β δ ι)) :
    List (IpcContainer β δ × LinxReceivedMessage ι) :=
  events.filterMap fun
    | .invoked container msg => some (container, msg)
    | _ => none

/-! ### What a step can do -/

inductive Did (identifier : α → ι) (p : Pipeline α β δ ι) :
    Action α β δ ι → Pipeline α β δ ι → List (Event α β δ ι) → Prop where
  | server {action : Server.Action Unit α ι} {server : State Unit α ι}
      {events : List (Server.Event Unit α ι)} (allowed : ServerAction action = true)
      (stepped : p.server.step identifier action = some (server, events)) :
      Did identifier p (.server action) { p with server := server } (events.map .server)
  | registered {reqId : UInt32} {callback : β} {data : δ} (free : p.receiving = false) :
      Did identifier p (.registerCallback reqId callback data)
        { p with handler := p.handler.registerCallback reqId callback data }
        [.registered reqId { callback := callback, data := data }]
  | called {timeoutMs : Int} {server : State Unit α ι} {events : List (Server.Event Unit α ι)}
      (free : p.receiving = false)
      (stepped : p.server.step identifier
          (.queue (.call (.consumer ()) (.get (LinxIpcHandler.anyMessage timeoutMs)))) =
        some (server, events)) :
      Did identifier p (.handleMessage timeoutMs)
        { p with server := server, receiving := true } (events.map .server)
  | dispatched {recvMsg : Option (LinxReceivedMessage ι)} {server : State Unit α ι}
      {events : List (Server.Event Unit α ι)}
      (returning : p.server.queue.pc (.consumer ()) = .returning (.get recvMsg))
      (stepped : p.server.step identifier (.queue (.ret (.consumer ()))) =
        some (server, events)) :
      Did identifier p .dispatch
        (p.afterReceive server (p.handler.handleMessage recvMsg)).1
        (events.map .server ++ (p.afterReceive server (p.handler.handleMessage recvMsg)).2)
  | left {container : IpcContainer β δ} {callbacks : List (IpcContainer β δ)} {result : Int}
      (free : p.receiving = false) (inside : p.callbacks = container :: callbacks) :
      Did identifier p (.callbackReturns result) { p with callbacks := callbacks }
        [.handled result]

omit [BEq ι] in
theorem recvMsg_some {p : Pipeline α β δ ι} {recvMsg : Option (LinxReceivedMessage ι)}
    (received : p.recvMsg? = some recvMsg) :
    p.server.queue.pc (.consumer ()) = .returning (.get recvMsg) := by
  unfold recvMsg? at received
  split at received
  · rename_i returning
    obtain rfl := Option.some.inj received
    exact returning
  · cases received

theorem step_cases {identifier : α → ι} {p next : Pipeline α β δ ι} {action : Action α β δ ι}
    {events : List (Event α β δ ι)} (stepped : p.step identifier action = some (next, events)) :
    Did identifier p action next events := by
  cases action with
  | server action =>
      simp only [step] at stepped
      split at stepped
      · rename_i allowed
        split at stepped
        · cases stepped
        · rename_i moved
          cases stepped
          exact .server allowed moved
      · cases stepped
  | registerCallback reqId callback data =>
      simp only [step] at stepped
      split at stepped
      · rename_i free outside
        cases stepped
        exact .registered free
      · cases stepped
  | handleMessage timeoutMs =>
      simp only [step] at stepped
      split at stepped
      · cases stepped
      · rename_i free
        split at stepped
        · cases stepped
        · rename_i moved
          cases stepped
          exact .called (Bool.eq_false_iff.mpr free) moved
  | dispatch =>
      simp only [step] at stepped
      split at stepped
      · rename_i recvMsg server emitted received moved
        cases stepped
        exact .dispatched (recvMsg_some received) moved
      · cases stepped
  | callbackReturns result =>
      simp only [step] at stepped
      split at stepped
      · rename_i container callbacks free inside
        cases stepped
        exact .left free inside
      · cases stepped

/-! ### The server of a pipeline -/

def serverEvents (events : List (Event α β δ ι)) : List (Server.Event Unit α ι) :=
  events.filterMap fun
    | .server event => some event
    | _ => none

omit [BEq ι] in
@[simp]
theorem serverEvents_map (events : List (Server.Event Unit α ι)) :
    serverEvents (events.map (Event.server (β := β) (δ := δ))) = events := by
  unfold serverEvents
  rw [List.filterMap_map]
  exact List.filterMap_some

omit [BEq ι] in
theorem serverEvents_append (front back : List (Event α β δ ι)) :
    serverEvents (front ++ back) = serverEvents front ++ serverEvents back :=
  List.filterMap_append ..

omit [BEq ι] in
theorem afterReceive_server (p : Pipeline α β δ ι) (server : State Unit α ι)
    (handled : Handled β δ ι) : (p.afterReceive server handled).1.server = server := by
  cases handled with
  | invoked container msg => rfl
  | returned unhandled result => rfl

omit [BEq ι] in
theorem serverEvents_dispatched (p : Pipeline α β δ ι) (server : State Unit α ι)
    (handled : Handled β δ ι) (events : List (Server.Event Unit α ι)) :
    serverEvents (events.map Event.server ++ (p.afterReceive server handled).2) = events := by
  have silent : serverEvents (p.afterReceive server handled).2 = [] := by
    cases handled with
    | invoked container msg => rfl
    | returned unhandled result => cases unhandled <;> rfl
  rw [serverEvents_append, serverEvents_map, silent, List.append_nil]

theorem did_server {identifier : α → ι} {p next : Pipeline α β δ ι} {action : Action α β δ ι}
    {events : List (Event α β δ ι)} (did : Did identifier p action next events) :
    ∃ actions, (State.machine identifier).run p.server actions =
      some (next.server, serverEvents events) := by
  cases did with
  | server allowed stepped =>
      rw [serverEvents_map]
      exact ⟨_, (State.machine identifier).run_single stepped⟩
  | @called timeoutMs server events free stepped =>
      rw [serverEvents_map]
      exact ⟨[.queue (.call (.consumer ()) (.get (LinxIpcHandler.anyMessage timeoutMs)))],
        (State.machine identifier).run_single stepped⟩
  | @dispatched recvMsg server events returning stepped =>
      rw [serverEvents_dispatched, afterReceive_server]
      exact ⟨[.queue (.ret (.consumer ()))], (State.machine identifier).run_single stepped⟩
  | registered free => exact ⟨[], rfl⟩
  | left free inside => exact ⟨[], rfl⟩

/-- Every result about the runs of a server holds of the server in a pipeline. -/
def serverOf (identifier : α → ι) :
    Machine.Simulation (machine (β := β) (δ := δ) identifier) (State.machine identifier)
      serverEvents where
  related := fun p server => p.server = server
  visibleNil := rfl
  visibleAppend := serverEvents_append
  answered := by
    intro p action next emitted server same stepped
    obtain ⟨actions, ran⟩ := did_server (step_cases stepped)
    exact ⟨actions, next.server, same ▸ ran, rfl⟩

theorem run_server {identifier : α → ι} {start p : Pipeline α β δ ι}
    {actions : List (Action α β δ ι)} {events : List (Event α β δ ι)}
    (ran : (machine identifier).run start actions = some (p, events)) :
    ∃ serverActions, (State.machine identifier).run start.server serverActions =
      some (p.server, serverEvents events) := by
  obtain ⟨serverActions, server, ranServer, same⟩ := (serverOf identifier).run_answered rfl ran
  obtain rfl : p.server = server := same
  exact ⟨serverActions, ranServer⟩

end Pipeline

end LinxIpc.Server
