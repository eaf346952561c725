import LinxIpc.Unix.Sockets
import LinxIpc.Wire.RoundTrip

/-!
`AfUnixFactory`: servers and clients on sockets that have just been opened.

A factory returns null if its socket does not open.  It has no result if the
name of the socket is written past the end of `sun_path`.
-/

namespace LinxIpc

structure AfUnixSimpleServer where
  serverId : StdString
  socket : AfUnixSocket

structure AfUnixServer where
  serverId : StdString
  socket : AfUnixSocket
  queueSize : Nat

structure AfUnixClient where
  clientId : StdString
  socket : AfUnixSocket
  identifier : UnixInfo

namespace AfUnixFactory

/-! ### The source -/

/-- What the factories share: an object on a new socket, or null.  The names in
use and what `socket` returns are given. -/
def withSocket {β : Type} (inUse : List (List UInt8)) (socketFd : Int) (name : StdString)
    (make : AfUnixSocket → β) : Option (Option β) :=
  match (AfUnixSocket.create name).openSocket inUse socketFd with
  | none => none
  | some (result, socket) => if result < 0 then some none else some (some (make socket))

def createSimpleServer (inUse : List (List UInt8)) (socketFd : Int) (socketName : StdString) :
    Option (Option AfUnixSimpleServer) :=
  withSocket inUse socketFd socketName fun socket => { serverId := socketName, socket := socket }

def createServer (inUse : List (List UInt8)) (socketFd : Int) (socketName : StdString)
    (queueSize : Nat) : Option (Option AfUnixServer) :=
  withSocket inUse socketFd socketName fun socket =>
    { serverId := socketName, socket := socket, queueSize := queueSize }

def clientId (draw : Nat) (serverSocket : StdString) : StdString :=
  ofAscii "client_" ++ decimal draw ++ ofAscii "_" ++ serverSocket

/-- `draw` is a number from 0 to 65535. -/
def createClient (inUse : List (List UInt8)) (socketFd : Int) (draw : Nat)
    (serverSocket : StdString) : Option (Option AfUnixClient) :=
  withSocket inUse socketFd (clientId draw serverSocket) fun socket =>
    { clientId := clientId draw serverSocket
      socket := socket
      identifier := { value := serverSocket } }

/-! ### Opening a socket for an object -/

theorem withSocket_isSome_iff {β : Type} (inUse : List (List UInt8)) {socketFd : Int}
    (socket : 0 ≤ socketFd) (name : StdString) (make : AfUnixSocket → β) :
    (withSocket inUse socketFd name make).isSome = true ↔ name.length ≤ 107 := by
  rw [← AfUnixSocket.openSocket_isSome_iff name inUse socket, withSocket]
  cases (AfUnixSocket.create name).openSocket inUse socketFd with
  | none => rfl
  | some opened =>
      simp only
      split <;> rfl

theorem withSocket_created_iff {β : Type} {inUse : List (List UInt8)} {socketFd : Int}
    (socket : 0 ≤ socketFd) {name : StdString} (fits : name.length ≤ 107)
    (make : AfUnixSocket → β) :
    (∃ made, withSocket inUse socketFd name make = some (some made)) ↔
      0 :: padded name ∉ inUse := by
  obtain ⟨address, -, opened⟩ := AfUnixSocket.openSocket_fits fits inUse socket
  rw [withSocket, opened]
  by_cases taken : 0 :: padded name ∈ inUse
  · simp [taken]
  · simp [taken]

/-! ### The names of clients -/

theorem decimal_length_le {draw : Nat} (drawn : draw ≤ 65535) : (decimal draw).length ≤ 5 := by
  rw [decimal, List.length_map, Nat.length_toDigits_le_iff (by decide) (by decide)]
  omega

theorem zero_not_mem_decimal (draw : Nat) : 0 ∉ decimal draw := by
  intro member
  obtain ⟨digit, isDigit, zero⟩ := List.mem_map.mp member
  have range := Nat.isDigit_of_mem_toDigits (by decide) (by decide) isDigit
  simp only [Char.isDigit, Bool.and_eq_true, decide_eq_true_eq] at range
  have low : 48 ≤ digit.toNat := UInt32.le_iff_toNat_le.mp range.1
  have high : digit.toNat ≤ 57 := UInt32.le_iff_toNat_le.mp range.2
  have value := congrArg UInt8.toNat zero
  rw [UInt8.toNat_ofNat'] at value
  have none : (0 : UInt8).toNat = 0 := rfl
  omega

theorem clientId_length (draw : Nat) (name : StdString) :
    (clientId draw name).length = name.length + 8 + (decimal draw).length := by
  have front : (ofAscii "client_").length = 7 := rfl
  have middle : (ofAscii "_").length = 1 := rfl
  rw [clientId, List.length_append, List.length_append, List.length_append, front, middle]
  omega

theorem zero_mem_clientId_dropLast_iff (draw : Nat) (name : StdString) :
    0 ∈ (clientId draw name).dropLast ↔ 0 ∈ name.dropLast := by
  have front : 0 ∉ ofAscii "client_" ++ decimal draw ++ ofAscii "_" := by
    rw [List.mem_append, List.mem_append, not_or, not_or]
    exact ⟨⟨by decide, zero_not_mem_decimal draw⟩, by decide⟩
  cases name with
  | nil =>
      rw [clientId, List.append_nil]
      constructor
      · intro member
        exact absurd ((List.dropLast_sublist _).subset member) front
      · intro member
        cases member
  | cons byte rest =>
      rw [clientId, List.dropLast_append_of_ne_nil (List.cons_ne_nil byte rest), List.mem_append,
        or_iff_right front]

/-! ### Names that fit -/

/-- Nothing is written outside `sun_path`, and a name that does not fit is
reported. -/
def Contained {β : Type} (outcome : Option β) (reported : β → Prop) (name : StdString) : Prop :=
  outcome.isSome = true ∧
    (107 < name.length → ∃ result, outcome = some result ∧ reported result)

theorem contained_iff {β : Type} {outcome : Option β} {name : StdString}
    (defined : outcome.isSome = true ↔ name.length ≤ 107) (reported : β → Prop) :
    Contained outcome reported name ↔ name.length ≤ 107 := by
  rw [Contained, defined]
  constructor
  · exact And.left
  · intro fits
    exact ⟨fits, fun long => absurd fits (Nat.not_le.mpr long)⟩

/-- Every derived name fits, and only a socket of that name keeps a client from
being created. -/
def Connectable (name : StdString) : Prop :=
  ∀ draw ≤ 65535, ∀ live, sockets.Reachable [] live → ∀ socketFd, 0 ≤ socketFd →
    (createClient (inUse live) socketFd draw name).isSome = true ∧
      ((∀ socket ∈ live, socket.socketName ≠ clientId draw name) →
        ∃ client, createClient (inUse live) socketFd draw name = some (some client))

theorem connectable_of_short {name : StdString} (short : name.length ≤ 94)
    (noZero : 0 ∉ name.dropLast) : Connectable name := by
  intro draw drawn live reachable socketFd socket
  have digits := decimal_length_le drawn
  have fits : (clientId draw name).length ≤ 107 := by
    rw [clientId_length]
    omega
  refine ⟨(withSocket_isSome_iff _ socket _ _).mpr fits, fun unused => ?_⟩
  refine (withSocket_created_iff socket fits _).mpr fun taken => ?_
  have sound := sockets_sound reachable
  obtain ⟨other, inLive, same⟩ := List.mem_map.mp taken
  rw [sound.boundName inLive] at same
  have noZeroId : 0 ∉ (clientId draw name).dropLast :=
    fun member => noZero ((zero_mem_clientId_dropLast_iff draw name).mp member)
  exact unused other inLive (padded_inj noZeroId (List.cons.inj same).2.symm).symm

/-- A socket whose name is copied to the same bytes keeps the client from being
created, though its name is another. -/
theorem not_connectable_of_zero {name : StdString} (short : name.length ≤ 94)
    (zero : 0 ∈ name.dropLast) : ¬ Connectable name := by
  intro connectable
  have digits := decimal_length_le (show 0 ≤ 65535 by decide)
  have fits : (clientId 0 name).length ≤ 107 := by
    rw [clientId_length]
    omega
  obtain ⟨other, different, length, same⟩ :=
    exists_padded_eq ((zero_mem_clientId_dropLast_iff 0 name).mpr zero)
  obtain ⟨address, created, opened⟩ :=
    AfUnixSocket.openSocket_fits (show other.length ≤ 107 by omega) (inUse [])
      (show (0 : Int) ≤ 3 by decide)
  rw [if_neg (show 0 :: padded other ∉ inUse [] from List.not_mem_nil)] at opened
  let live : List AfUnixSocket := [{ fd := 3, address := address, socketName := other }]
  have ran : sockets.run [] [.opens other 3] = some (live, [0]) := by
    simp only [Machine.run, sockets, socketStep, opened, if_true, List.append_nil, live]
  have client := (connectable 0 (by decide) live ⟨_, _, ran⟩ 3 (by decide)).2 (by
    intro socket member
    rw [List.mem_singleton.mp member]
    exact different)
  have free := (withSocket_created_iff (by decide) fits _).mp client
  have bound : AfUnixSocket.boundName { fd := 3, address := address, socketName := other } =
      0 :: padded other := AfUnixSocket.nameBytes_createAddress created
  rw [← same, ← bound] at free
  exact free List.mem_cons_self

theorem connectable_iff (name : StdString) :
    Connectable name ↔ name.length ≤ 94 ∧ 0 ∉ name.dropLast := by
  constructor
  · intro connectable
    have fits := (withSocket_isSome_iff _ (by decide) _ _).mp
      (connectable 65535 (by decide) [] (.refl sockets []) 3 (by decide)).1
    have digits : (decimal 65535).length = 5 := by decide
    rw [clientId_length] at fits
    have short : name.length ≤ 94 := by omega
    exact ⟨short, fun zero => not_connectable_of_zero short zero connectable⟩
  · rintro ⟨short, noZero⟩
    exact connectable_of_short short noZero

theorem send_contained_iff {self : AfUnixSocket} (opened : 0 ≤ self.fd) {message : RawMessage}
    (bound : message.payload.length + 4 < 4294967296) {buffer : List UInt8}
    (size : buffer.length = message.payload.length + 4) (dest : UnixInfo)
    (sendto : List UInt8 → List UInt8 → Option Nat) :
    Contained (self.send message.toIMessage dest buffer sendto) (fun code => code < 0) dest.value ↔
      dest.value.length ≤ 107 := by
  have serialized := IMessage.serialize_encodes message.encodes (by omega)
    (show buffer.length < 4294967296 by omega)
  rw [size, ← (IMessage.getSize_toNat message.encodes bound).1] at serialized
  refine contained_iff (AfUnixSocket.send_isSome_iff opened serialized ?_ dest sendto) _
  intro zero
  have value := (IMessage.getSize_toNat message.encodes bound).2
  rw [zero] at value
  have none : (0 : UInt32).toNat = 0 := rfl
  omega

/-- Which names the factories and `send` keep inside `sun_path`, and which
servers every client can be created for. -/
theorem names_contained_iff (name : StdString) :
    (∀ (inUse : List (List UInt8)) (socketFd : Int), 0 ≤ socketFd →
      (Contained (createSimpleServer inUse socketFd name) (fun server => server.isNone = true)
          name ↔ name.length ≤ 107) ∧
        (∀ queueSize,
          Contained (createServer inUse socketFd name queueSize)
            (fun server => server.isNone = true) name ↔ name.length ≤ 107) ∧
        ∀ draw,
          Contained (createClient inUse socketFd draw name) (fun client => client.isNone = true)
            (clientId draw name) ↔ name.length + 8 + (decimal draw).length ≤ 107) ∧
      (∀ (self : AfUnixSocket), 0 ≤ self.fd → ∀ message : RawMessage,
        message.payload.length + 4 < 4294967296 → ∀ buffer : List UInt8,
        buffer.length = message.payload.length + 4 → ∀ sendto,
        Contained (self.send message.toIMessage { value := name } buffer sendto)
          (fun code => code < 0) name ↔ name.length ≤ 107) ∧
      (Connectable name ↔ name.length ≤ 94 ∧ 0 ∉ name.dropLast) := by
  refine ⟨fun inUse socketFd socket => ⟨?_, fun queueSize => ?_, fun draw => ?_⟩, ?_,
    connectable_iff name⟩
  · exact contained_iff (withSocket_isSome_iff inUse socket name _) _
  · exact contained_iff (withSocket_isSome_iff inUse socket name _) _
  · rw [← clientId_length]
    exact contained_iff (withSocket_isSome_iff inUse socket (clientId draw name) _) _
  · intro self opened message bound buffer size sendto
    exact send_contained_iff opened bound size { value := name } sendto

theorem names_contained_server :
    (Contained (createSimpleServer [] 3 (ofAscii "MyServer")) (fun server => server.isNone = true)
        (ofAscii "MyServer") ↔ (ofAscii "MyServer").length ≤ 107) ∧
      (Contained (AfUnixSocket.send { fd := 3, address := .zero, socketName := [] }
          (RawMessage.toIMessage { reqId := 9, payload := [] }) { value := ofAscii "MyServer" }
          [0, 0, 0, 0] (fun _ _ => some 4)) (fun code => code < 0) (ofAscii "MyServer") ↔
        (ofAscii "MyServer").length ≤ 107) ∧
      (Connectable (ofAscii "MyServer") ↔
        (ofAscii "MyServer").length ≤ 94 ∧ 0 ∉ (ofAscii "MyServer").dropLast) :=
  ⟨((names_contained_iff (ofAscii "MyServer")).1 [] 3 (by decide)).1,
    (names_contained_iff (ofAscii "MyServer")).2.1
      { fd := 3, address := .zero, socketName := [] } (by decide) { reqId := 9, payload := [] }
      (by decide) [0, 0, 0, 0] rfl (fun _ _ => some 4),
    (names_contained_iff (ofAscii "MyServer")).2.2⟩

/-! ### Names that do not fit -/

theorem withSocket_escapes {β : Type} (inUse : List (List UInt8)) {socketFd : Int}
    (socket : 0 ≤ socketFd) {name : StdString} (long : 107 < name.length)
    (make : AfUnixSocket → β) : withSocket inUse socketFd name make = none := by
  cases outcome : withSocket inUse socketFd name make with
  | none => rfl
  | some made =>
      have fits := (withSocket_isSome_iff inUse socket name make).mp (by rw [outcome]; rfl)
      exact absurd long (Nat.not_lt.mpr fits)

/-- A server of the longer name is written past the end of `sun_path`, and a
server of the shorter one is created but its client is written there. -/
theorem longNames_escape :
    createServer [] 3 (List.replicate 108 97) 100 = none ∧
      (∃ server, createServer [] 3 (List.replicate 100 97) 100 = some (some server)) ∧
      createClient [0 :: List.replicate 100 97] 3 12345 (List.replicate 100 97) = none := by
  have socket : (0 : Int) ≤ 3 := by decide
  refine ⟨withSocket_escapes [] socket (by decide) _, ?_, withSocket_escapes _ socket ?_ _⟩
  · exact (withSocket_created_iff socket (by decide) _).mpr List.not_mem_nil
  · rw [clientId_length]
    decide

end AfUnixFactory

end LinxIpc
