import LinxIpc.Receiving.Backlog
import LinxIpc.Socket.Send
import LinxIpc.Udp.AddressText

/-!
The two directions of a conversation over UDP.

A server sends its response to the text that `receive` made of the source of a
request; a client compares that text with the one it was created for.
-/

namespace LinxIpc

namespace UdpSocket

/-! ### Where `send` sends -/

def peer? (dest : PortInfo) : Option SockaddrIn :=
  (inetPton dest.ip).map fun number => { sinAddr := inAddr number, sinPort := htons dest.port }

theorem peer?_identifier (source : SockaddrIn) : peer? (identifier source) = some source := by
  rw [peer?, identifier, PortInfo.create, inetPton_inetNtoa, Option.map_some, inAddr_hostOrder,
    htons_ntohs]

theorem peer?_eq_some_iff (dest : PortInfo) (source : SockaddrIn) :
    peer? dest = some source ↔
      cStr dest.ip = inetNtoa source.sinAddr ∧ dest.port = ntohs source.sinPort := by
  rw [peer?, Option.map_eq_some_iff]
  constructor
  · rintro ⟨number, read, rfl⟩
    obtain ⟨address, written, rfl⟩ := (inetPton_eq_some_iff _ _).mp read
    rw [inAddr_hostOrder, ntohs_htons]
    exact ⟨written, rfl⟩
  · rintro ⟨written, port⟩
    refine ⟨hostOrder source.sinAddr, (inetPton_eq_some_iff _ _).mpr ⟨_, written, rfl⟩, ?_⟩
    rw [inAddr_hostOrder, port, htons_ntohs]

theorem peer?_eq_none_iff (dest : PortInfo) :
    peer? dest = none ↔ ∀ octets, cStr dest.ip ≠ inetNtoa octets := by
  rw [peer?, Option.map_eq_none_iff]
  constructor
  · intro refused octets written
    rw [(inetPton_eq_some_iff dest.ip _).mpr ⟨octets, written, rfl⟩] at refused
    cases refused
  · intro foreign
    cases read : inetPton dest.ip with
    | none => rfl
    | some number =>
        obtain ⟨octets, written, -⟩ := (inetPton_eq_some_iff _ _).mp read
        exact absurd written (foreign octets)

theorem answer_all {size : Nat} (small : size < 4294967296) : answer size (some size) = 0 := by
  rw [answer, if_neg (not_not.mpr (Nat.mod_eq_of_lt small))]

theorem answer_ne (size : Nat) (sent : Option Nat) : answer size sent ≠ -3 := by
  cases sent with
  | none =>
      rw [answer]
      decide
  | some len =>
      rw [answer]
      split <;> decide

section
variable {self : UdpSocket} (opened : 0 ≤ self.fd) {message : IMessage}
  {payload buffer : List UInt8} (encodes : message.Encodes payload)
  (small : payload.length + 4 < 4294967296) (size : buffer.length = message.getSize.toNat)
  (dest : PortInfo)
include opened encodes small size

theorem sendOn_open {σ : Type} (sendto : List UInt8 → SockaddrIn → σ → Option Nat × σ)
    (kernel : σ) :
    self.sendOn message dest buffer sendto kernel =
      some (match peer? dest with
        | none => (-3, kernel)
        | some address =>
            (answer (payload.length + 4)
                (sendto (htonl message.reqId ++ payload) address kernel).1,
              (sendto (htonl message.reqId ++ payload) address kernel).2)) := by
  obtain ⟨result, serialized, length, nonzero⟩ := IMessage.serialize_whole encodes small size
  have whole : (htonl message.reqId ++ payload).take result.toNat =
      htonl message.reqId ++ payload := List.take_of_length_le (Nat.le_of_eq length)
  rw [List.length_append, htonl_length, Nat.add_comm] at length
  simp only [sendOn, if_neg (Int.not_lt.mpr opened), serialized, if_neg nonzero, peer?, whole]
  cases inetPton dest.ip with
  | none => rfl
  | some number =>
      simp only [Option.map_some]
      rcases sendto (htonl message.reqId ++ payload)
        { sinAddr := inAddr number, sinPort := htons dest.port } kernel with ⟨_ | len, after⟩
      · rfl
      · have same : UInt32.ofNat len = result ↔ len % 4294967296 = payload.length + 4 := by
          rw [← UInt32.toNat_inj, UInt32.toNat_ofNat', length]
        simp only [answer, ne_eq, same]
        split <;> rfl

theorem send_open (sendto : List UInt8 → SockaddrIn → Option Nat) :
    self.send message dest buffer sendto =
      some (match peer? dest with
        | none => -3
        | some address =>
            answer (payload.length + 4) (sendto (htonl message.reqId ++ payload) address)) := by
  rw [send, sendOn_open opened encodes small size]
  cases peer? dest <;> rfl

end

theorem send_reaches {self : UdpSocket} (opened : 0 ≤ self.fd) {message : IMessage}
    {payload buffer : List UInt8} (encodes : message.Encodes payload)
    (small : payload.length + 4 < 4294967296) (size : buffer.length = message.getSize.toNat)
    (dest : PortInfo) (address : SockaddrIn) :
    (∀ sendto, self.send message dest buffer sendto =
        some (answer (payload.length + 4) (sendto (htonl message.reqId ++ payload) address))) ↔
      peer? dest = some address := by
  constructor
  · intro reaches
    -- a kernel that takes the message for this address only
    have taken := reaches fun _ peer => if peer = address then some (payload.length + 4) else none
    rw [send_open opened encodes small size] at taken
    simp only [if_true, answer_all small, Option.some.injEq] at taken
    cases peer : peer? dest with
    | none =>
        rw [peer] at taken
        cases taken
    | some other =>
        rw [peer] at taken
        by_cases same : other = address
        · rw [same]
        · simp only [if_neg same] at taken
          cases taken
  · intro peer sendto
    rw [send_open opened encodes small size, peer]

/-- `send` reaches the address that its peer's text is `inet_ntoa`'s text of, at its
peer's port, and without such an address it reaches nobody. -/
theorem send_reaches_iff {self : UdpSocket} (opened : 0 ≤ self.fd) {message : IMessage}
    {payload buffer : List UInt8} (encodes : message.Encodes payload)
    (small : payload.length + 4 < 4294967296) (size : buffer.length = message.getSize.toNat)
    (dest : PortInfo) :
    (∀ address, (∀ sendto, self.send message dest buffer sendto =
        some (answer (payload.length + 4) (sendto (htonl message.reqId ++ payload) address))) ↔
      cStr dest.ip = inetNtoa address.sinAddr ∧ dest.port = ntohs address.sinPort) ∧
      ((∀ sendto, self.send message dest buffer sendto = some (-3)) ↔
        ∀ octets, cStr dest.ip ≠ inetNtoa octets) := by
  refine ⟨fun address => ?_, ?_⟩
  · rw [send_reaches opened encodes small size, peer?_eq_some_iff]
  · rw [← peer?_eq_none_iff]
    constructor
    · intro refuses
      cases peer : peer? dest with
      | none => rfl
      | some address =>
          have refused := refuses fun _ _ => none
          rw [send_open opened encodes small size, peer] at refused
          exact absurd (Option.some.inj refused) (answer_ne _ _)
    · intro nobody sendto
      rw [send_open opened encodes small size, nobody]

theorem send_reaches_localhost :
    (∀ sendto, (UdpSocket.mk 3).send (RawMessage.mk 8 []).toIMessage
        (.create (ofAscii "127.0.0.1") 1234) [0, 0, 0, 0] sendto =
      some (answer 4 (sendto [0, 0, 0, 8] { sinAddr := (127, 0, 0, 1), sinPort := (4, 210) }))) ∧
      (UdpSocket.mk 3).send (RawMessage.mk 8 []).toIMessage
        (.create (ofAscii "localhost") 1234) [0, 0, 0, 0] (fun bytes _ => some bytes.length) =
        some (-3) := by
  have encodes := RawMessage.encodes { reqId := 8, payload := [] }
  have reaches := (send_reaches_iff (show 0 ≤ (UdpSocket.mk 3).fd by decide) encodes (by decide)
    (show ([0, 0, 0, 0] : List UInt8).length = _ from rfl)
    (.create (ofAscii "127.0.0.1") 1234)).1 { sinAddr := (127, 0, 0, 1), sinPort := (4, 210) }
  exact ⟨reaches.mpr (by decide), by decide⟩

/-- What a `receive` takes from the socket has the sender to whom a `send` of any
message goes back to the address that the datagram came from. -/
theorem send_returns_to_source {self : UdpSocket} (opened : 0 ≤ self.fd) {timeoutMs : Int}
    {pending rest : List (Datagram SockaddrIn)} {found : Received PortInfo} {msg : RawMessage}
    {sender : PortInfo} (ran : (receive self.fd timeoutMs).runOn pending = some (found, rest))
    (stored : found.stored = some (msg, sender)) {message : IMessage}
    {payload buffer : List UInt8} (encodes : message.Encodes payload)
    (small : payload.length + 4 < 4294967296) (size : buffer.length = message.getSize.toNat)
    (sendto : List UInt8 → SockaddrIn → Option Nat) :
    ∃ datagram, pending = datagram :: rest ∧ self.send message sender buffer sendto =
      some (answer (payload.length + 4)
        (sendto (htonl message.reqId ++ payload) datagram.address)) := by
  rw [send_open opened encodes small size]
  cases pending with
  | nil =>
      rw [receive, socketReceive_runOn_nil _ opened] at ran
      split at ran
      · cases ran
        cases stored
      · cases ran
  | cons datagram others =>
      rw [receive, socketReceive_runOn _ opened] at ran
      cases ran
      rw [received] at stored
      split at stored
      · cases stored
      · cases stored
        exact ⟨datagram, rfl, by rw [peer?_identifier]⟩

def localSource : SockaddrIn := { sinAddr := (127, 0, 0, 1), sinPort := (4, 210) }

theorem send_returns_to_source_reply :
    ∃ datagram : Datagram SockaddrIn,
      [({ bytes := [0, 0, 0, 7, 1], address := localSource } : Datagram SockaddrIn)] =
        [datagram] ∧
      (UdpSocket.mk 3).send (RawMessage.mk 8 []).toIMessage (identifier localSource) [0, 0, 0, 0]
        (fun bytes peer => if peer = localSource then some bytes.length else none) =
        some (answer 4 (if datagram.address = localSource then some 4 else none)) := by
  have ran : (receive (UdpSocket.mk 3).fd (-1)).runOn
      [{ bytes := [0, 0, 0, 7, 1], address := localSource }] =
    some (received identifier { bytes := [0, 0, 0, 7, 1], address := localSource }, []) := rfl
  exact send_returns_to_source (by decide) ran rfl (RawMessage.encodes _) (by decide) rfl _

end UdpSocket

/-! ### Whom a client hears -/

namespace UdpSocket

/-- The ports agree, and unless either address is restricted, the client sends to the
source, with no NUL in the text of its address. -/
def Hears (dest : PortInfo) (source : SockaddrIn) : Prop :=
  dest.port = ntohs source.sinPort ∧
    ((identifier source).isRestrictedIp = true ∨ dest.isRestrictedIp = true ∨
      0 ∉ dest.ip ∧ peer? dest = some source)

instance (dest : PortInfo) (source : SockaddrIn) : Decidable (Hears dest source) :=
  inferInstanceAs (Decidable (_ ∧ _))

theorem identifier_isEqual_iff (dest : PortInfo) (source : SockaddrIn) :
    (identifier source).isEqual dest = true ↔ Hears dest source := by
  have ip : (identifier source).ip = inetNtoa source.sinAddr := rfl
  have port : (identifier source).port = ntohs source.sinPort := rfl
  rw [Hears, PortInfo.isEqual, ip, port]
  cases own : (identifier source).isRestrictedIp with
  | true =>
      rw [Bool.true_or, if_pos rfl, beq_iff_eq, eq_comm]
      exact ⟨fun same => ⟨same, .inl rfl⟩, fun both => both.1⟩
  | false =>
      cases other : dest.isRestrictedIp with
      | true =>
          rw [Bool.or_true, if_pos rfl, beq_iff_eq, eq_comm]
          exact ⟨fun same => ⟨same, .inr (.inl rfl)⟩, fun both => both.1⟩
      | false =>
          rw [Bool.or_false, if_neg Bool.false_ne_true, Bool.and_eq_true, beq_iff_eq, beq_iff_eq,
            peer?_eq_some_iff]
          constructor
          · rintro ⟨text, samePort⟩
            have noZero : 0 ∉ dest.ip := text ▸ zero_not_mem_inetNtoa source.sinAddr
            exact ⟨samePort.symm, .inr (.inr ⟨noZero, by rw [cStr_of_not_mem noZero, text],
              samePort.symm⟩)⟩
          · rintro ⟨samePort, restricted | restricted | ⟨noZero, text, -⟩⟩
            · cases restricted
            · cases restricted
            · rw [cStr_of_not_mem noZero] at text
              exact ⟨text.symm, samePort.symm⟩

def wanted (dest : PortInfo) (sigsel : List UInt32) (datagram : Datagram SockaddrIn) : Bool :=
  decide (Hears dest datagram.address) &&
    (RawMessage.deserialize datagram.bytes).any fun msg => matchesSignalSelector msg sigsel

theorem passes_iff_wanted (dest : PortInfo) (sigsel : List UInt32)
    (datagram : Datagram SockaddrIn) :
    Passes identifier (Client.Wanted dest sigsel) datagram ↔
      wanted dest sigsel datagram = true := by
  rw [wanted, Bool.and_eq_true, decide_eq_true_iff, ← identifier_isEqual_iff, Option.any_eq_true]
  constructor
  · rintro ⟨msg, decoded, heard, selected⟩
    exact ⟨heard, msg, decoded, selected⟩
  · rintro ⟨heard, msg, decoded, selected⟩
    exact ⟨msg, decoded, heard, selected⟩

end UdpSocket

theorem Filters.backlog_waits {α β ι : Type} {body : Received ι → Verdict β ι}
    {wanted : RawMessage → ι → Prop} {give : RawMessage → ι → β}
    (filters : Filters body wanted give) (created : Int) {identifier : α → ι}
    {backlog : List (Datagram α)} (wellFormed : ∀ datagram ∈ backlog, WellFormed datagram)
    (absent : ∀ datagram ∈ backlog, ¬ Passes identifier wanted datagram)
    {passes : List (Pass ι)} (reads : Reads identifier passes backlog) :
    (receiveLoop body (Deadline.create created infiniteTimeout) passes).status = .waiting := by
  have continues : ∀ pass ∈ passes,
      Continues body (Deadline.create created infiniteTimeout) pass := by
    intro pass member
    have source : pass.received ∈ passes.map Pass.received := List.mem_map_of_mem member
    rw [reads] at source
    obtain ⟨datagram, pending, same⟩ := List.mem_map.mp source
    constructor
    · rw [← same]
      exact filters.unwanted _
        (unwanted_of_not_passes (wellFormed datagram pending) (absent datagram pending))
    · rw [Deadline.create_infinite]
      rfl
  rw [receiveLoop_waits continues]
  rfl

/-- `receive` of a UDP client without a time limit returns the first datagram that is
pending from the address that the client sends to and has a wanted id; from a client of
a group or of everybody, the first from the port it sends to. -/
theorem UdpClient.receive_first_heard (dest : PortInfo) (sigsel : List UInt32) (created : Int)
    {backlog : List (Datagram SockaddrIn)}
    (wellFormed : ∀ datagram ∈ backlog, WellFormed datagram) {passes : List (Pass PortInfo)}
    (reads : Reads UdpSocket.identifier passes backlog) :
    (Client.receive dest infiniteTimeout sigsel created passes).status =
      match backlog.find? (UdpSocket.wanted dest sigsel) with
      | none => .waiting
      | some datagram => .returned (RawMessage.deserialize datagram.bytes) := by
  have filters := Client.receiveBody_filters dest sigsel
  cases found : backlog.find? (UdpSocket.wanted dest sigsel) with
  | none =>
      refine filters.backlog_waits created wellFormed ?_ reads
      intro datagram member passes
      exact List.find?_eq_none.mp found datagram member
        ((UdpSocket.passes_iff_wanted dest sigsel datagram).mp passes)
  | some datagram =>
      obtain ⟨heard, ahead, behind, rfl, others⟩ := List.find?_eq_some_iff_append.mp found
      obtain ⟨msg, decoded, passing⟩ :=
        (UdpSocket.passes_iff_wanted dest sigsel datagram).mpr heard
      have first : FirstMatch UdpSocket.identifier (Client.Wanted dest sigsel)
          (ahead ++ datagram :: behind) ahead msg (UdpSocket.identifier datagram.address) := by
        refine ⟨⟨datagram, behind, rfl, decoded, rfl⟩, passing, ?_⟩
        intro other member passes
        have wanted := (UdpSocket.passes_iff_wanted dest sigsel other).mp passes
        have unwanted := others other member
        rw [wanted] at unwanted
        cases unwanted
      have status := filters.backlog (Deadline.create created infiniteTimeout) wellFormed first reads
      rw [onTime_infinite, if_pos rfl] at status
      simp only [decoded]
      exact status

def twoSources : List (Datagram SockaddrIn) :=
  [{ bytes := [0, 0, 0, 7, 1], address := { sinAddr := (10, 0, 0, 9), sinPort := (4, 210) } },
    { bytes := [0, 0, 0, 7, 2], address := { sinAddr := (127, 0, 0, 1), sinPort := (4, 210) } }]

def twoSourcesRead : List (Pass PortInfo) :=
  twoSources.map fun datagram =>
    { now := 0, received := received UdpSocket.identifier datagram, later := 0 }

theorem receive_first_heard_second :
    (Client.receive (PortInfo.create (ofAscii "127.0.0.1") 1234) infiniteTimeout [] 0
      twoSourcesRead).status = .returned (some { reqId := 7, payload := [2] }) :=
  UdpClient.receive_first_heard (PortInfo.create (ofAscii "127.0.0.1") 1234) [] 0
    (show ∀ datagram ∈ twoSources, WellFormed datagram by decide) rfl

end LinxIpc
