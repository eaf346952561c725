import LinxIpc.Machine.Run
import LinxIpc.Process.Descriptors

/-!
A process that creates, starts, stops and destroys servers and clients, in any
order, beside descriptors of its own.

The kernel gives out no descriptor that is open.
-/

namespace LinxIpc.Process

open Custody

/-- What an object holds: the `fd` of its socket, the `efd` of its queue, and whether
its worker thread is joinable. -/
inductive Owner where
  | simpleServer (socket : Int)
  | server (socket event : Int) (joinable : Bool)
  | client (socket : Int)
  deriving DecidableEq

/-- A call of a factory, with what the system answers to it. -/
inductive Request where
  | udpSimpleServer (kernel : UdpKernel) (port : UInt16)
  | udpServer (kernel : UdpKernel) (port : UInt16) (queueSize : Nat)
  | multicastServer (kernel : UdpKernel) (multicastIp : StdString) (port : UInt16)
      (queueSize : Nat)
  | udpClient (kernel : UdpKernel) (draw : Nat) (ip : StdString) (port : UInt16)
  | unixSimpleServer (inUse : List (List UInt8)) (socketName : StdString)
  | unixServer (inUse : List (List UInt8)) (socketName : StdString) (queueSize : Nat)
  | unixClient (inUse : List (List UInt8)) (draw : Nat) (serverSocket : StdString)

structure State where
  table : Descriptors
  owners : List Owner
  foreign : List Int

inductive Action where
  | creates (request : Request) (socketFd eventFd : Int)
  | starts (index : Nat)
  | stops (index : Nat)
  | destroys (index : Nat)
  | opensOwn (fd : Int)
  | closesOwn (fd : Int)

inductive Event where
  | created (owner : Option Owner)
  deriving DecidableEq

namespace Owner

/-! ### The source -/

def start : Owner → Owner
  | .server socket event _ => .server socket event true
  | owner => owner

def stop (owner : Owner) (table : Descriptors) : Owner × Descriptors :=
  match owner with
  | .server socket event true =>
      let (socket, table) := closeSocket socket table
      (.server socket event false, table)
  | owner => (owner, table)

/-- The destructor of the object, and after it those of its queue and its socket. -/
def destroy (owner : Owner) (table : Descriptors) : Descriptors :=
  match owner.stop table with
  | (.simpleServer socket, table) => (closeSocket socket table).2
  | (.server socket event _, table) =>
      (closeSocket socket (LinxEventFd.destroy { efd := event, counter := 0 } table)).2
  | (.client socket, table) =>
      let (socket, table) := closeSocket socket table
      (closeSocket socket table).2

def getPollFd : Owner → Option Int
  | .simpleServer socket => some socket
  | .server _ event _ => some event
  | .client _ => none

end Owner

def ofUdpServer (server : UdpServer) : Owner :=
  .server server.socket.fd server.queue.efd.efd false

def Request.run (request : Request) (socketFd eventFd : Int) (table : Descriptors) :
    Option (Option Owner × Descriptors) :=
  match request with
  | .udpSimpleServer kernel port =>
      let (made, table) := UdpFactory.createSimpleServerOn kernel socketFd port table
      some (made.map fun server => .simpleServer server.socket.fd, table)
  | .udpServer kernel port queueSize =>
      let (made, table) :=
        UdpFactory.createServerOn kernel socketFd eventFd port queueSize table
      some (made.map ofUdpServer, table)
  | .multicastServer kernel multicastIp port queueSize =>
      let (made, table) := UdpFactory.createMulticastServerOn kernel socketFd eventFd multicastIp
        port queueSize table
      some (made.map ofUdpServer, table)
  | .udpClient kernel draw ip port =>
      let (made, table) := UdpFactory.createClientOn kernel socketFd draw ip port table
      some (made.map fun client => .client client.socket.fd, table)
  | .unixSimpleServer inUse socketName =>
      (AfUnixFactory.createSimpleServerOn inUse socketFd socketName table).map
        fun (made, table) => (made.map fun server => .simpleServer server.socket.fd, table)
  | .unixServer inUse socketName queueSize =>
      (AfUnixFactory.createServerOn inUse socketFd eventFd socketName queueSize table).map
        fun (made, table) =>
          (made.map fun server => .server server.socket.fd eventFd false, table)
  | .unixClient inUse draw serverSocket =>
      (AfUnixFactory.createClientOn inUse socketFd draw serverSocket table).map
        fun (made, table) => (made.map fun client => .client client.socket.fd, table)

def fresh (table : Descriptors) (fd : Int) : Bool := fd < 0 || fd ∉ table.opened

def step (s : State) : Action → Option (State × List Event)
  | .creates request socketFd eventFd =>
      if fresh s.table socketFd && fresh s.table eventFd && (eventFd < 0 || eventFd ≠ socketFd) then
        match request.run socketFd eventFd s.table with
        | none => none
        | some (made, table) =>
            some ({ s with table := table, owners := made.toList ++ s.owners }, [.created made])
      else none
  | .starts index =>
      match s.owners[index]? with
      | none => none
      | some owner => some ({ s with owners := s.owners.set index owner.start }, [])
  | .stops index =>
      match s.owners[index]? with
      | none => none
      | some owner =>
          let (owner, table) := owner.stop s.table
          some ({ s with table := table, owners := s.owners.set index owner }, [])
  | .destroys index =>
      match s.owners[index]? with
      | none => none
      | some owner =>
          some ({ s with table := owner.destroy s.table, owners := s.owners.eraseIdx index }, [])
  | .opensOwn fd =>
      if 0 ≤ fd ∧ fd ∉ s.table.opened then
        some ({ s with table := s.table.take fd, foreign := fd :: s.foreign }, [])
      else none
  | .closesOwn fd =>
      if fd ∈ s.foreign then
        some ({ s with table := s.table.close fd, foreign := s.foreign.erase fd }, [])
      else none

def machine : Machine State Action Event where
  step := step

def initial : State := { table := { opened := [], misclosed := [] }, owners := [], foreign := [] }

/-! ### What each call does to the table -/

def held (fd : Int) : List Int := if 0 ≤ fd then [fd] else []

def Owner.holds : Owner → List Int
  | .simpleServer socket => held socket
  | .server socket event _ => held socket ++ held event
  | .client socket => held socket

theorem held_closed : held (-1) = [] := rfl

theorem mem_held {fd : Int} (opened : 0 ≤ fd) : fd ∈ held fd := by
  rw [held, if_pos opened]
  exact List.mem_singleton_self fd

theorem closeSocket_held {fd : Int} {table : Descriptors} {rest : List Int}
    (owned : table.Owned (held fd ++ rest)) :
    (closeSocket fd table).2.Owned rest ∧ held (closeSocket fd table).1 = [] := by
  rw [closeSocket]
  split
  · rename_i opened
    rw [held, if_pos opened] at owned
    exact ⟨owned.close, held_closed⟩
  · rename_i closed
    rw [held, if_neg closed] at owned
    exact ⟨owned, if_neg closed⟩

theorem closeSocket_again_held {fd : Int} {table : Descriptors} {rest : List Int}
    (owned : table.Owned (held fd ++ rest)) :
    (closeSocket (closeSocket fd table).1 (closeSocket fd table).2).2.Owned rest := by
  obtain ⟨closed, nothing⟩ := closeSocket_held owned
  refine (closeSocket_held ?_).1
  rw [nothing]
  exact closed

theorem eventFd_destroy_held {event : Int} {counter : Nat} {table : Descriptors}
    {rest : List Int} (owned : table.Owned (held event ++ rest)) :
    (LinxEventFd.destroy { efd := event, counter := counter } table).Owned rest := by
  rw [LinxEventFd.destroy]
  split
  · rename_i opened
    rw [held, if_pos opened] at owned
    exact owned.close
  · rename_i closed
    rwa [held, if_neg closed] at owned

theorem Owner.start_holds (owner : Owner) : owner.start.holds = owner.holds := by
  cases owner <;> rfl

theorem Owner.stop_owned {owner : Owner} {table : Descriptors} {rest : List Int}
    (owned : table.Owned (owner.holds ++ rest)) :
    (owner.stop table).2.Owned ((owner.stop table).1.holds ++ rest) := by
  cases owner with
  | simpleServer socket => exact owned
  | client socket => exact owned
  | server socket event joinable =>
      cases joinable with
      | false => exact owned
      | true =>
          rw [holds, List.append_assoc] at owned
          obtain ⟨closed, nothing⟩ := closeSocket_held owned
          simp only [stop, holds, nothing, List.nil_append]
          exact closed

theorem Owner.destroy_owned {owner : Owner} {table : Descriptors} {rest : List Int}
    (owned : table.Owned (owner.holds ++ rest)) : (owner.destroy table).Owned rest := by
  have stopped := stop_owned owned
  rw [destroy]
  rcases ran : owner.stop table with ⟨socket | ⟨socket, event, joinable⟩ | socket, after⟩ <;>
    rw [ran] at stopped
  · exact (closeSocket_held stopped).1
  · rw [holds, List.append_assoc] at stopped
    have swapped := stopped.perm
      (List.perm_append_comm_assoc (held socket) (held event) rest)
    exact (closeSocket_held (eventFd_destroy_held swapped)).1
  · exact closeSocket_again_held stopped

/-! ### What the factories do to the table -/

inductive Kept (socketFd : Int) (table : Descriptors) : Option Int → Descriptors → Prop where
  | kept (opened : 0 ≤ socketFd) : Kept socketFd table (some socketFd) (table.take socketFd)
  | givenBack (opened : 0 ≤ socketFd) :
      Kept socketFd table none ((table.take socketFd).close socketFd)
  | notOpened : Kept socketFd table none table

theorem udp_kept {β : Type} {made : Option β} (fd : β → Int) {socketFd : Int}
    (has : ∀ object, made = some object → HasSocket socketFd (fd object)) (table : Descriptors) :
    Kept socketFd table (made.map fd) (UdpFactory.withSocketOn made socketFd table) := by
  have negative : (-1 : Int) < 0 := by decide
  rw [UdpFactory.withSocketOn, UdpSocket.openOn, UdpSocket.openSocket_create]
  cases made with
  | some object =>
      obtain ⟨opened, same⟩ := has object rfl
      simp only [if_neg (Int.not_lt.mpr opened), Int.lt_irrefl, if_false, Option.map_some, same]
      exact .kept opened
  | none =>
      by_cases failed : socketFd < 0
      · simp only [if_pos failed, if_pos negative]
        exact .notOpened
      · have opened := Int.not_lt.mp failed
        simp only [if_neg failed, Int.lt_irrefl, if_false, UdpSocket.destroy, UdpSocket.close,
          closeSocket, if_pos opened]
        exact .givenBack opened

theorem unix_kept {β : Type} {made : Option β} (fd : β → Int) {inUse : List (List UInt8)}
    {socketFd : Int} {name : StdString} {make : AfUnixSocket → β} {table after : Descriptors}
    (same : ∀ socket, fd (make socket) = socket.fd)
    (ran : AfUnixFactory.withSocketOn (AfUnixFactory.withSocket inUse socketFd name make) inUse
      socketFd name table = some (made, after)) :
    Kept socketFd table (made.map fd) after := by
  have closed : ¬ (0 : Int) ≤ -1 := by decide
  have negative : (-1 : Int) < 0 := by decide
  simp only [AfUnixFactory.withSocketOn, AfUnixFactory.withSocket, AfUnixSocket.openOn] at ran
  cases opens : (AfUnixSocket.create name).openSocket inUse socketFd with
  | none =>
      rw [opens] at ran
      cases ran
  | some both =>
      obtain ⟨result, socket⟩ := both
      rw [opens] at ran
      rcases AfUnixSocket.openSocket_create_cases opens with
        ⟨rfl, socketClosed⟩ | ⟨opened, rfl, socketOpen⟩
      · simp only [Option.map_some, AfUnixSocket.create, if_pos negative, AfUnixSocket.destroy,
          AfUnixSocket.close, closeSocket, socketClosed, if_neg closed] at ran
        cases ran
        by_cases failed : socketFd < 0
        · rw [if_pos (.inr failed)]
          exact .notOpened
        · rw [if_neg (not_or.mpr ⟨closed, failed⟩)]
          exact .givenBack (Int.not_lt.mp failed)
      · simp only [Option.map_some, AfUnixSocket.create, Int.lt_irrefl, if_false] at ran
        cases ran
        rw [if_neg (not_or.mpr ⟨closed, Int.not_lt.mpr opened⟩), Option.map_some, same, socketOpen]
        exact .kept opened

section Factories

variable {socketFd eventFd : Int} {table after : Descriptors} {kept : Option Int}
  {rest : List Int}

theorem fresh_iff (table : Descriptors) (fd : Int) :
    fresh table fd = true ↔ (0 ≤ fd → fd ∉ table.opened) := by
  rw [fresh, Bool.or_eq_true, decide_eq_true_iff, decide_eq_true_iff, ← Int.not_le]
  exact Decidable.imp_iff_not_or.symm

theorem Kept.owned (keeps : Kept socketFd table kept after) (owned : table.Owned rest)
    (free : fresh table socketFd = true) : after.Owned (kept.elim [] held ++ rest) := by
  rw [fresh_iff] at free
  cases keeps with
  | kept opened =>
      rw [Option.elim_some, held, if_pos opened]
      exact owned.take (free opened)
  | givenBack opened => exact (owned.take (free opened)).close
  | notOpened => exact owned

theorem Kept.event_owned {socket : Int} (keeps : Kept socketFd table (some socket) after)
    (owned : table.Owned rest) (free : fresh table socketFd = true)
    (freeEvent : fresh table eventFd = true) (different : eventFd < 0 ∨ eventFd ≠ socketFd) :
    (LinxEventFd.openOn eventFd after).2.Owned (held socket ++ held eventFd ++ rest) := by
  have before := keeps.owned owned free
  rw [fresh_iff] at freeEvent
  cases keeps with
  | kept opened =>
      rw [LinxEventFd.openOn, List.append_assoc]
      split
      · rename_i failed
        rw [held.eq_def eventFd, if_neg (Int.not_le.mpr failed)]
        exact before
      · rename_i succeeded
        have isOpen := Int.not_lt.mp succeeded
        have absent : eventFd ∉ (table.take socketFd).opened := by
          rw [Table.take, List.mem_cons, not_or]
          exact ⟨different.resolve_left succeeded, freeEvent isOpen⟩
        rw [held.eq_def eventFd, if_pos isOpen]
        exact (before.take absent).perm
          (List.perm_append_comm_assoc [eventFd] (held socketFd) rest)

section Objects

variable {β : Type} {made : Option β} {fd : β → Int} {make : β → Owner}

theorem owned_with_socket (holds : ∀ object, (make object).holds = held (fd object))
    (keeps : Kept socketFd table (made.map fd) after) (owned : table.Owned rest)
    (free : fresh table socketFd = true) :
    after.Owned ((made.map make).elim [] Owner.holds ++ rest) := by
  have owns := keeps.owned owned free
  cases made with
  | none => exact owns
  | some object =>
      rw [Option.map_some, Option.elim_some, holds]
      exact owns

theorem owned_with_event
    (holds : ∀ object, made = some object →
      (make object).holds = held (fd object) ++ held eventFd)
    (keeps : Kept socketFd table (made.map fd) after) (owned : table.Owned rest)
    (free : fresh table socketFd = true) (freeEvent : fresh table eventFd = true)
    (different : eventFd < 0 ∨ eventFd ≠ socketFd) :
    (openEvent made eventFd after).Owned ((made.map make).elim [] Owner.holds ++ rest) := by
  cases made with
  | none => exact keeps.owned owned free
  | some object =>
      rw [Option.map_some, Option.elim_some, holds object rfl]
      exact keeps.event_owned owned free freeEvent different

end Objects

theorem ofUdpServer_holds {server : UdpServer} {size : Int32}
    (queue : server.queue = .create { efd := eventFd, counter := 0 } size) :
    (ofUdpServer server).holds = held server.socket.fd ++ held eventFd := by
  rw [ofUdpServer, Owner.holds, queue]
  rfl

theorem Request.run_owned {request : Request} {made : Option Owner}
    (owned : table.Owned rest) (free : fresh table socketFd = true)
    (freeEvent : fresh table eventFd = true) (different : eventFd < 0 ∨ eventFd ≠ socketFd)
    (ran : request.run socketFd eventFd table = some (made, after)) :
    after.Owned (made.elim [] Owner.holds ++ rest) := by
  cases request with
  | udpSimpleServer kernel port =>
      cases ran
      exact owned_with_socket (fun _ => rfl) (udp_kept (fun server => server.socket.fd)
        (fun _ created => UdpFactory.createSimpleServer_fd created) table) owned free
  | udpServer kernel port queueSize =>
      cases ran
      refine owned_with_event (fun server created => ?_) (udp_kept (fun server => server.socket.fd)
        (fun _ created => UdpFactory.createServer_fd created) table) owned free freeEvent different
      exact ofUdpServer_holds (UdpFactory.createServer_queue created)
  | multicastServer kernel multicastIp port queueSize =>
      cases ran
      split
      · refine owned_with_event (fun server created => ?_)
          (udp_kept (fun server => server.socket.fd)
            (fun _ created => UdpFactory.createMulticastServer_fd created) table) owned free
          freeEvent different
        exact ofUdpServer_holds (UdpFactory.createMulticastServer_queue created)
      · rename_i other
        rw [UdpFactory.createMulticastServer, if_pos (by simpa using other)]
        exact owned
  | udpClient kernel draw ip port =>
      cases ran
      exact owned_with_socket (fun _ => rfl) (udp_kept (fun client => client.socket.fd)
        (fun _ created => UdpFactory.createClient_fd created) table) owned free
  | unixSimpleServer inUse socketName =>
      obtain ⟨⟨server, between⟩, opens, given⟩ := Option.map_eq_some_iff.mp ran
      cases given
      exact owned_with_socket (fun _ => rfl)
        (unix_kept (fun server => server.socket.fd) (fun _ => rfl) opens) owned free
  | unixServer inUse socketName queueSize =>
      obtain ⟨⟨result, between⟩, created, given⟩ := Option.map_eq_some_iff.mp ran
      obtain ⟨⟨server, last⟩, opens, split⟩ := Option.map_eq_some_iff.mp created
      cases split
      cases given
      exact owned_with_event (fun _ _ => rfl)
        (unix_kept (fun server => server.socket.fd) (fun _ => rfl) opens) owned free freeEvent
        different
  | unixClient inUse draw serverSocket =>
      obtain ⟨⟨client, between⟩, opens, given⟩ := Option.map_eq_some_iff.mp ran
      cases given
      exact owned_with_socket (fun _ => rfl)
        (unix_kept (fun client => client.socket.fd) (fun _ => rfl) opens) owned free

end Factories

/-! ### The runs -/

def Accounted (s : State) : Prop := s.table.Owned (s.owners.flatMap Owner.holds ++ s.foreign)

theorem owners_at {owners : List Owner} {index : Nat} {owner : Owner}
    (here : owners[index]? = some owner) :
    (owners.flatMap Owner.holds).Perm
      (owner.holds ++ (owners.eraseIdx index).flatMap Owner.holds) := by
  obtain ⟨inside, there⟩ := List.getElem?_eq_some_iff.mp here
  have split := List.getElem_cons_eraseIdx_perm inside
  rw [there] at split
  exact (split.flatMap_right Owner.holds).symm

theorem owners_set {owners : List Owner} {index : Nat} {owner next : Owner}
    (here : owners[index]? = some owner) :
    ((owners.set index next).flatMap Owner.holds).Perm
      (next.holds ++ (owners.eraseIdx index).flatMap Owner.holds) := by
  obtain ⟨inside, -⟩ := List.getElem?_eq_some_iff.mp here
  exact (List.set_perm_cons_eraseIdx inside next).flatMap_right Owner.holds

theorem Accounted.step {s next : State} {action : Action} {events : List Event}
    (accounted : Accounted s) (stepped : step s action = some (next, events)) :
    Accounted next := by
  cases action with
  | creates request socketFd eventFd =>
      simp only [Process.step] at stepped
      split at stepped
      · rename_i allowed
        simp only [Bool.and_eq_true, Bool.or_eq_true, decide_eq_true_iff] at allowed
        split at stepped
        · cases stepped
        · rename_i made table ran
          cases stepped
          have owned := Request.run_owned accounted allowed.1.1 allowed.1.2 allowed.2 ran
          cases made with
          | none => exact owned
          | some owner =>
              rw [Accounted, Option.toList_some, List.singleton_append, List.flatMap_cons,
                List.append_assoc]
              exact owned
      · cases stepped
  | starts index =>
      simp only [Process.step] at stepped
      split at stepped
      · cases stepped
      · rename_i owner here
        cases stepped
        have same : ((s.owners.set index owner.start).flatMap Owner.holds).Perm
            (owner.holds ++ (s.owners.eraseIdx index).flatMap Owner.holds) :=
          owner.start_holds ▸ owners_set here
        exact accounted.perm (((owners_at here).trans same.symm).append_right s.foreign)
  | stops index =>
      simp only [Process.step] at stepped
      split at stepped
      · cases stepped
      · rename_i owner here
        cases stepped
        have owned := accounted.perm ((owners_at here).append_right s.foreign)
        rw [List.append_assoc] at owned
        have stopped := Owner.stop_owned owned
        rw [← List.append_assoc] at stopped
        exact stopped.perm ((owners_set here).symm.append_right s.foreign)
  | destroys index =>
      simp only [Process.step] at stepped
      split at stepped
      · cases stepped
      · rename_i owner here
        cases stepped
        have owned := accounted.perm ((owners_at here).append_right s.foreign)
        rw [List.append_assoc] at owned
        exact Owner.destroy_owned owned
  | opensOwn fd =>
      simp only [Process.step] at stepped
      split at stepped
      · rename_i free
        cases stepped
        exact (accounted.take free.2).perm List.perm_middle.symm
      · cases stepped
  | closesOwn fd =>
      simp only [Process.step] at stepped
      split at stepped
      · rename_i mine
        cases stepped
        have split := (List.perm_cons_erase mine).append_left (s.owners.flatMap Owner.holds)
        exact (accounted.perm (split.trans List.perm_middle)).close
      · cases stepped

/-- Whatever a process creates, starts, stops and destroys: no descriptor is closed that
is not open, the open ones are those of the objects that still live and of the
application, each held once, and a poll descriptor is open and its server's own. -/
theorem descriptors_accounted {s : State} (reachable : machine.Reachable initial s) :
    s.table.misclosed = [] ∧
      s.table.opened.Perm (s.owners.flatMap Owner.holds ++ s.foreign) ∧
      (s.owners.flatMap Owner.holds ++ s.foreign).Nodup ∧
      ∀ owner ∈ s.owners, ∀ fd, owner.getPollFd = some fd → 0 ≤ fd →
        fd ∈ s.table.opened ∧ fd ∉ s.foreign := by
  have initially : Accounted initial := ⟨rfl, List.Perm.nil, List.nodup_nil⟩
  have accounted : Accounted s := reachable.invariant initially
    (fun _ _ _ _ accounted stepped => accounted.step stepped)
  refine ⟨accounted.settled, accounted.accounts, accounted.single, ?_⟩
  intro owner member fd polled opened
  have mine : fd ∈ owner.holds := by
    cases owner with
    | simpleServer socket =>
        cases polled
        exact mem_held opened
    | server socket event joinable =>
        cases polled
        exact List.mem_append_right _ (mem_held opened)
    | client socket => cases polled
  have among := List.mem_flatMap.mpr ⟨owner, member, mine⟩
  exact ⟨accounted.mem_iff.mpr (List.mem_append_left _ among), accounted.disjoint among⟩

def stoppedServer : State :=
  { table := { opened := [5, 4], misclosed := [] }
    owners := [.server (-1) 4 false]
    foreign := [5] }

theorem descriptors_accounted_stopped :
    stoppedServer.table.misclosed = [] ∧
      stoppedServer.table.opened.Perm
        (stoppedServer.owners.flatMap Owner.holds ++ stoppedServer.foreign) ∧
      (stoppedServer.owners.flatMap Owner.holds ++ stoppedServer.foreign).Nodup ∧
      ∀ owner ∈ stoppedServer.owners, ∀ fd, owner.getPollFd = some fd → 0 ≤ fd →
        fd ∈ stoppedServer.table.opened ∧ fd ∉ stoppedServer.foreign := by
  have ran : machine.run initial
      [.creates (.udpServer { bind := fun _ _ => 0, setsockopt := fun _ _ => 0 } 1234 10) 3 4,
        .opensOwn 5, .starts 0, .stops 0] = some (stoppedServer, _) := rfl
  exact descriptors_accounted ⟨_, _, ran⟩

end LinxIpc.Process
