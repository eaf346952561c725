import LinxIpc.Machine.Run
import LinxIpc.Unix.Address
import LinxIpc.Wire.Message

/-!
`AfUnixSocket::open` and `send`, and the sockets that are open at one time.

`bind` takes an address of at most the size of `sockaddr_un` whose name no open
socket has.  A call has no result if it writes past the end of an array.
-/

namespace LinxIpc

structure AfUnixSocket where
  fd : Int
  address : SockaddrUn
  socketName : StdString
  deriving DecidableEq

namespace AfUnixSocket

/-! ### The source -/

def create (socketName : StdString) : AfUnixSocket :=
  { fd := -1, address := .zero, socketName := socketName }

def bind (inUse : List (List UInt8)) (address : SockaddrUn) (length : Nat) : Int :=
  if sockaddrUnSize < length ∨ nameBytes address length ∈ inUse then -1 else 0

/-- `open`; `socketFd` is what `socket` returns. -/
def openSocket (self : AfUnixSocket) (inUse : List (List UInt8)) (socketFd : Int) :
    Option (Int × AfUnixSocket) :=
  if 0 ≤ self.fd then some (-1, self)
  else if socketFd < 0 then some (-1, { self with fd := -1 })
  else
    match createAddress self.address self.socketName with
    | none => none
    | some (address, length) =>
        if bind inUse address length < 0 then
          some (-1, { self with fd := -1, address := address })
        else some (0, { self with fd := socketFd, address := address })

/-- `send` on a kernel that is changed by `sendto`, which is given the datagram and the
name of the peer, and gives the number of bytes it sent unless it fails.  The array
`buffer` is not initialised. -/
def sendOn {σ : Type} (self : AfUnixSocket) (message : IMessage) (dest : UnixInfo)
    (buffer : List UInt8) (sendto : List UInt8 → List UInt8 → σ → Option Nat × σ) (kernel : σ) :
    Option (Int × σ) :=
  if self.fd < 0 then some (-1, kernel)
  else
    match message.serialize buffer message.getSize with
    | none => none
    | some (buffer, result) =>
        if result = 0 then some (-2, kernel)
        else
          match createAddress .zero dest.value with
          | none => none
          | some (address, length) =>
              match sendto (buffer.take result.toNat) (nameBytes address length) kernel with
              | (none, kernel) => some (-3, kernel)
              | (some len, kernel) =>
                  if UInt32.ofNat len ≠ result then some (-4, kernel) else some (0, kernel)

def send (self : AfUnixSocket) (message : IMessage) (dest : UnixInfo) (buffer : List UInt8)
    (sendto : List UInt8 → List UInt8 → Option Nat) : Option Int :=
  (self.sendOn message dest buffer (fun bytes peer _ => (sendto bytes peer, ())) ()).map Prod.fst

/-- The name under which the kernel knows an open socket. -/
def boundName (self : AfUnixSocket) : List UInt8 :=
  nameBytes self.address (self.socketName.length + 3)

/-! ### Opening and sending -/

theorem openSocket_isSome_iff (name : StdString) (inUse : List (List UInt8)) {socketFd : Int}
    (socket : 0 ≤ socketFd) :
    ((create name).openSocket inUse socketFd).isSome = true ↔ name.length ≤ 107 := by
  rw [← createAddress_isSome_iff zero_length name]
  have closed : ¬ (0 : Int) ≤ -1 := by decide
  simp only [openSocket, create, if_neg closed, if_neg (Int.not_lt.mpr socket)]
  cases createAddress .zero name with
  | none => rfl
  | some created =>
      simp only
      split <;> rfl

theorem openSocket_fits {name : StdString} (fits : name.length ≤ 107)
    (inUse : List (List UInt8)) {socketFd : Int} (socket : 0 ≤ socketFd) :
    ∃ address, createAddress .zero name = some (address, name.length + 3) ∧
      (create name).openSocket inUse socketFd =
        if 0 :: padded name ∈ inUse then
          some (-1, { fd := -1, address := address, socketName := name })
        else some (0, { fd := socketFd, address := address, socketName := name }) := by
  have created := createAddress_zero fits
  refine ⟨_, created, ?_⟩
  have bytes := nameBytes_createAddress created
  have size : ¬ sockaddrUnSize < name.length + 3 := by
    rw [sockaddrUnSize, sunPathSize]
    omega
  have closed : ¬ (0 : Int) ≤ -1 := by decide
  simp only [openSocket, create, if_neg closed, if_neg (Int.not_lt.mpr socket), created, bind,
    bytes, size, false_or]
  by_cases taken : 0 :: padded name ∈ inUse
  · simp only [if_pos taken, show (-1 : Int) < 0 by decide, if_true]
  · simp only [if_neg taken, Int.lt_irrefl, if_false]

theorem openSocket_inv {name : StdString} {inUse : List (List UInt8)} {socketFd : Int}
    {self : AfUnixSocket} (opened : (create name).openSocket inUse socketFd = some (0, self)) :
    name.length ≤ 107 ∧ self.socketName = name ∧ 0 ≤ self.fd ∧
      createAddress .zero name = some (self.address, name.length + 3) ∧
      0 :: padded name ∉ inUse := by
  by_cases socket : 0 ≤ socketFd
  · have fits := (openSocket_isSome_iff name inUse socket).mp (by rw [opened]; rfl)
    obtain ⟨address, created, same⟩ := openSocket_fits fits inUse socket
    rw [same] at opened
    split at opened
    · cases opened
    · rename_i free
      cases opened
      exact ⟨fits, rfl, socket, created, free⟩
  · have closed : ¬ (0 : Int) ≤ -1 := by decide
    simp only [openSocket, create, if_neg closed, if_pos (Int.not_le.mp socket)] at opened
    cases opened

theorem send_closed {self : AfUnixSocket} (closed : self.fd < 0) (message : IMessage) (dest : UnixInfo)
    (buffer : List UInt8) (sendto : List UInt8 → List UInt8 → Option Nat) :
    self.send message dest buffer sendto = some (-1) := by
  simp only [send, sendOn, if_pos closed, Option.map_some]

/-- `send` of an open socket stays inside `sun_path` exactly if the name of the
peer fits. -/
theorem send_isSome_iff {self : AfUnixSocket} (opened : 0 ≤ self.fd) {message : IMessage}
    {buffer written : List UInt8} {result : UInt32}
    (serialized : message.serialize buffer message.getSize = some (written, result))
    (nonzero : result ≠ 0) (dest : UnixInfo) (sendto : List UInt8 → List UInt8 → Option Nat) :
    (self.send message dest buffer sendto).isSome = true ↔ dest.value.length ≤ 107 := by
  rw [← createAddress_isSome_iff zero_length dest.value]
  simp only [send, sendOn, if_neg (Int.not_lt.mpr opened), serialized, if_neg nonzero]
  cases createAddress .zero dest.value with
  | none => rfl
  | some created =>
      simp only
      cases sendto (written.take result.toNat) (nameBytes created.1 created.2) with
      | none => rfl
      | some len =>
          simp only
          split <;> rfl

end AfUnixSocket

/-! ### The open sockets -/

inductive SocketAction where
  | opens (name : StdString) (socketFd : Int)
  | closes (index : Nat)

def inUse (live : List AfUnixSocket) : List (List UInt8) := live.map AfUnixSocket.boundName

def socketStep (live : List AfUnixSocket) :
    SocketAction → Option (List AfUnixSocket × List Int)
  | .opens name socketFd =>
      match (AfUnixSocket.create name).openSocket (inUse live) socketFd with
      | none => none
      | some (result, socket) => some (if result = 0 then socket :: live else live, [result])
  | .closes index => some (live.eraseIdx index, [])

def sockets : Machine (List AfUnixSocket) SocketAction Int where
  step := socketStep

/-- Open sockets are bound to the address of their names, and share none. -/
structure SoundSockets (live : List AfUnixSocket) : Prop where
  bound : ∀ socket ∈ live, 0 ≤ socket.fd ∧ AfUnixSocket.createAddress .zero socket.socketName =
    some (socket.address, socket.socketName.length + 3)
  distinct : (inUse live).Nodup

theorem SoundSockets.boundName {live : List AfUnixSocket} (sound : SoundSockets live)
    {socket : AfUnixSocket} (member : socket ∈ live) :
    socket.boundName = 0 :: padded socket.socketName :=
  AfUnixSocket.nameBytes_createAddress (sound.bound socket member).2

theorem SoundSockets.opened {live : List AfUnixSocket} (sound : SoundSockets live)
    {name : StdString} {socketFd : Int} {socket : AfUnixSocket}
    (opened : (AfUnixSocket.create name).openSocket (inUse live) socketFd = some (0, socket)) :
    SoundSockets (socket :: live) := by
  obtain ⟨-, rfl, isOpen, created, free⟩ := AfUnixSocket.openSocket_inv opened
  refine ⟨List.forall_mem_cons.mpr ⟨⟨isOpen, created⟩, sound.bound⟩, ?_⟩
  rw [inUse, List.map_cons, List.nodup_cons]
  refine ⟨?_, sound.distinct⟩
  have bytes : socket.boundName = 0 :: padded socket.socketName :=
    AfUnixSocket.nameBytes_createAddress created
  rw [bytes]
  exact free

theorem SoundSockets.step {live next : List AfUnixSocket} {action : SocketAction}
    {events : List Int} (sound : SoundSockets live)
    (stepped : socketStep live action = some (next, events)) : SoundSockets next := by
  cases action with
  | opens name socketFd =>
      simp only [socketStep] at stepped
      split at stepped
      · cases stepped
      · rename_i result socket opened
        by_cases success : result = 0
        · subst success
          simp only [if_true] at stepped
          cases stepped
          exact sound.opened opened
        · simp only [if_neg success] at stepped
          cases stepped
          exact sound
  | closes index =>
      cases stepped
      have fewer := List.eraseIdx_sublist live index
      exact ⟨fun socket member => sound.bound socket (fewer.subset member),
        (fewer.map _).nodup sound.distinct⟩

theorem sockets_sound {live : List AfUnixSocket} (reachable : sockets.Reachable [] live) :
    SoundSockets live :=
  reachable.invariant ⟨List.forall_mem_nil _, List.nodup_nil⟩
    (fun _ _ _ _ sound stepped => sound.step stepped)

end LinxIpc
