import LinxIpc.Identifier

/-!
`UdpSocket::receive` and `AfUnixSocket::receive`, system call by system call.

The two functions differ in the address they ask the kernel for and in the
identifier they make of it.  A call is a tree of system calls: each node names
the call it makes, and goes on with the answer.
-/

namespace LinxIpc

variable {α ι : Type}

structure Datagram (α : Type) where
  bytes : List UInt8
  address : α
  deriving DecidableEq, Repr

def ebadf : Int := 9

inductive PollResult where
  | failed (errno : Int)
  | timedOut
  | ready
  deriving DecidableEq, Repr

/-- A successful `recvfrom` gives the bytes it copied, whose number it returns,
and the address of the sender. -/
inductive RecvResult (α : Type) where
  | failed (errno : Int)
  | received (bytes : List UInt8) (address : α)
  deriving Repr

/-- What a call returns and what it stored through `msg` and `from`. -/
structure Received (ι : Type) where
  result : Int
  stored : Option (RawMessage × ι)
  deriving DecidableEq, Repr

def Received.error (result : Int) : Received ι := { result := result, stored := none }

inductive Receive (α ι : Type) where
  | ret (received : Received ι)
  | poll (timeoutMs : Int) (next : PollResult → Receive α ι)
  /-- `ioctl(fd, FIONREAD, &bytes_available)`; it gives nothing when it fails. -/
  | fionread (next : Option Nat → Receive α ι)
  | recvfrom (size : Nat) (next : RecvResult α → Receive α ι)

/-! ### The source -/

def afterRecvfrom (identifier : α → ι) (bytesAvailable : Nat) : RecvResult α → Receive α ι
  | .failed errno => .ret (.error (if errno = ebadf then 0 else -4))
  | .received bytes address =>
      if bytes.length ≠ bytesAvailable then .ret (.error (-5))
      else
        match RawMessage.deserialize bytes with
        | none => .ret (.error (-6))
        | some ipc => .ret { result := bytes.length, stored := some (ipc, identifier address) }

/-- The part of `receive` after `ioctl`: `bytes_available` stays 0 if it fails. -/
def afterFionread (identifier : α → ι) (available : Option Nat) : Receive α ι :=
  let bytesAvailable := available.getD 0
  .recvfrom bytesAvailable (afterRecvfrom identifier bytesAvailable)

def afterPoll (identifier : α → ι) : PollResult → Receive α ι
  | .failed errno => .ret (.error (if errno = ebadf then 0 else -2))
  | .timedOut => .ret (.error 0)
  | .ready => .fionread (afterFionread identifier)

def socketReceive (identifier : α → ι) (fd timeoutMs : Int) : Receive α ι :=
  if fd < 0 then .ret (.error (-1)) else .poll timeoutMs (afterPoll identifier)

/-- `sockaddr_in` as `recvfrom` fills it, in network byte order. -/
structure SockaddrIn where
  sinAddr : UInt8 × UInt8 × UInt8 × UInt8
  sinPort : UInt8 × UInt8
  deriving DecidableEq, Repr

def inetNtoa : UInt8 × UInt8 × UInt8 × UInt8 → StdString
  | (a, b, c, d) =>
      decimal a.toNat ++ 46 :: (decimal b.toNat ++ 46 :: (decimal c.toNat ++ 46 :: decimal d.toNat))

def ntohs : UInt8 × UInt8 → UInt16
  | (high, low) => UInt16.ofNat (high.toNat * 2 ^ 8 + low.toNat)

def UdpSocket.identifier (address : SockaddrIn) : PortInfo :=
  .create (inetNtoa address.sinAddr) (ntohs address.sinPort)

def UdpSocket.receive (fd timeoutMs : Int) : Receive SockaddrIn PortInfo :=
  socketReceive UdpSocket.identifier fd timeoutMs

/-- `sockaddr_un` after `memset` and `recvfrom`. -/
structure SockaddrUn where
  sunPath : List UInt8
  deriving DecidableEq, Repr

/-- `UnixInfo(&client_address.sun_path[1])` where a NUL is left in the field. -/
def AfUnixSocket.identifier (address : SockaddrUn) : UnixInfo :=
  { value := cStr (address.sunPath.drop 1) }

def AfUnixSocket.receive (fd timeoutMs : Int) : Receive SockaddrUn UnixInfo :=
  socketReceive AfUnixSocket.identifier fd timeoutMs

/-! ### A sole reader -/

/-- The answers a sole reader gets from the kernel while the pending datagrams
stand still: the end of the call with what is left, or nothing if it blocks. -/
def Receive.runOn (pending : List (Datagram α)) :
    Receive α ι → Option (Received ι × List (Datagram α))
  | .ret received => some (received, pending)
  | .poll timeoutMs next =>
      if pending ≠ [] then (next .ready).runOn pending
      else if 0 ≤ timeoutMs then (next .timedOut).runOn pending
      else none
  | .fionread next =>
      (next (some ((pending.head?.map (fun datagram => datagram.bytes.length)).getD 0))).runOn
        pending
  | .recvfrom size next =>
      match pending with
      | [] => none
      | datagram :: rest =>
          (next (.received (datagram.bytes.take size) datagram.address)).runOn rest

def received (identifier : α → ι) (datagram : Datagram α) : Received ι :=
  match RawMessage.deserialize datagram.bytes with
  | none => .error (-6)
  | some ipc =>
      { result := datagram.bytes.length, stored := some (ipc, identifier datagram.address) }

theorem socketReceive_runOn (identifier : α → ι) {fd : Int} (opened : 0 ≤ fd) (timeoutMs : Int)
    (datagram : Datagram α) (rest : List (Datagram α)) :
    (socketReceive identifier fd timeoutMs).runOn (datagram :: rest) =
      some (received identifier datagram, rest) := by
  have all : datagram.bytes.take datagram.bytes.length = datagram.bytes := List.take_length
  simp only [socketReceive, if_neg (Int.not_lt.mpr opened), Receive.runOn, afterPoll,
    afterFionread, List.head?_cons, Option.map_some, Option.getD_some, all, afterRecvfrom,
    ne_eq, reduceCtorEq, not_false_eq_true, if_true, not_true_eq_false, if_false, received]
  cases RawMessage.deserialize datagram.bytes <;> rfl

theorem socketReceive_runOn_nil (identifier : α → ι) {fd : Int} (opened : 0 ≤ fd)
    (timeoutMs : Int) :
    (socketReceive identifier fd timeoutMs).runOn [] =
      if 0 ≤ timeoutMs then some (.error 0, []) else none := by
  simp only [socketReceive, if_neg (Int.not_lt.mpr opened), Receive.runOn, afterPoll,
    ne_eq, not_true_eq_false, if_false]

theorem ite_result_failed {γ : Type} {result : Int} (failed : result ≤ 0) (stop goOn : γ) :
    (if result = 0 then stop else if result < 0 then stop else goOn) = stop := by
  by_cases zero : result = 0
  · rw [if_pos zero]
  · rw [if_neg zero, if_pos (by omega)]

theorem ite_result_positive {γ : Type} {result : Int} (positive : 0 < result) (stop goOn : γ) :
    (if result = 0 then stop else if result < 0 then stop else goOn) = goOn := by
  rw [if_neg (Int.ne_of_gt positive), if_neg (Int.not_lt.mpr (Int.le_of_lt positive))]

def WellFormed (datagram : Datagram α) : Prop := 4 ≤ datagram.bytes.length

instance (datagram : Datagram α) : Decidable (WellFormed datagram) :=
  inferInstanceAs (Decidable (4 ≤ datagram.bytes.length))

theorem WellFormed.positive {datagram : Datagram α} (wellFormed : WellFormed datagram) :
    (0 : Int) < datagram.bytes.length := by
  have header : 4 ≤ datagram.bytes.length := wellFormed
  omega

theorem received_wellFormed (identifier : α → ι) {datagram : Datagram α}
    (wellFormed : WellFormed datagram) :
    ∃ msg, RawMessage.deserialize datagram.bytes = some msg ∧
      received identifier datagram =
        { result := datagram.bytes.length, stored := some (msg, identifier datagram.address) } := by
  obtain ⟨msg, decoded⟩ :=
    Option.isSome_iff_exists.mp ((RawMessage.deserialize_isSome_iff datagram.bytes).mpr wellFormed)
  exact ⟨msg, decoded, by rw [received, decoded]⟩

theorem received_malformed (identifier : α → ι) {datagram : Datagram α}
    (malformed : ¬ WellFormed datagram) : received identifier datagram = .error (-6) := by
  have rejected := (RawMessage.deserialize_eq_none_iff datagram.bytes).mpr (Nat.not_le.mp malformed)
  rw [received, rejected]

end LinxIpc
