import LinxIpc.Fifo.PostOffice
import LinxIpc.Socket.Send
import LinxIpc.Unix.PeerName

/-!
Unix sockets as a post office.

The processes of one host open sockets, send from them to names and receive.  The
kernel hands a datagram to the socket that is bound to the address it is sent to,
with the address of the sender; `open`, `send` and `receive` are the code of
`AfUnixSocket`.
-/

namespace LinxIpc

open PostOffice (Letter Boxes)

/-- A name that `open` takes and that a receiver reads back. -/
structure SocketName where
  value : StdString
  noZero : 0 ∉ value
  short : value.length ≤ 106

/-- A message with its destination, within the sizes that `send` can handle.  The
array that `send` serializes into is not initialised. -/
structure Outgoing where
  msg : RawMessage
  dest : UnixInfo
  buffer : List UInt8
  small : msg.payload.length + 4 < 4294967296
  size : buffer.length = msg.toIMessage.getSize.toNat
  fits : dest.value.length ≤ 107

structure Endpoint where
  socket : AfUnixSocket
  inbox : List (Datagram SockaddrUn)

inductive EndpointAction where
  | opens (name : SocketName) (socketFd : Int)
  | closes (index : Nat)
  /-- Without `room` at the receiver `sendto` fails. -/
  | sends (index : Nat) (letter : Outgoing) (room : Bool)
  | receives (index : Nat) (timeoutMs : Int)

inductive EndpointEvent where
  | opened (name : StdString) (socketFd result : Int)
  | closed (name : StdString)
  | sent (name dest : StdString) (msg : RawMessage) (room : Bool) (result : Int)
  | received (name : StdString) (received : Received UnixInfo)
  deriving DecidableEq

/-! ### The source -/

namespace Endpoint

def push (datagram : Datagram SockaddrUn) (self : Endpoint) : Endpoint :=
  { self with inbox := self.inbox ++ [datagram] }

/-- `sendto` of a socket: the datagram goes to the socket with this address. -/
def sendto (sender : AfUnixSocket) (room : Bool) (bytes peer : List UInt8)
    (live : List Endpoint) : Option Nat × List Endpoint :=
  if room && live.any (fun endpoint => endpoint.socket.boundName == peer) then
    (some bytes.length,
      live.map fun endpoint =>
        if endpoint.socket.boundName == peer then
          endpoint.push { bytes := bytes, address := sender.reportedAddress }
        else endpoint)
  else (none, live)

def step (live : List Endpoint) : EndpointAction → Option (List Endpoint × List EndpointEvent)
  | .opens name socketFd =>
      match (AfUnixSocket.create name.value).openSocket (inUse (live.map Endpoint.socket))
          socketFd with
      | none => none
      | some (result, socket) =>
          some (if result = 0 then { socket := socket, inbox := [] } :: live else live,
            [.opened name.value socketFd result])
  | .closes index =>
      match live[index]? with
      | none => none
      | some self => some (live.eraseIdx index, [.closed self.socket.socketName])
  | .sends index letter room =>
      match live[index]? with
      | none => none
      | some self =>
          match self.socket.sendOn letter.msg.toIMessage letter.dest letter.buffer
              (sendto self.socket room) live with
          | none => none
          | some (result, live) =>
              some (live, [.sent self.socket.socketName letter.dest.value letter.msg room result])
  | .receives index timeoutMs =>
      match live[index]? with
      | none => none
      | some self =>
          match (AfUnixSocket.receive self.socket.fd timeoutMs).runOn self.inbox with
          | none => none
          | some (received, inbox) =>
              some (live.set index { self with inbox := inbox },
                [.received self.socket.socketName received])

def machine : Machine (List Endpoint) EndpointAction EndpointEvent where
  step := step

/-! ### Letters as datagrams -/

def nameAddress (name : StdString) : SockaddrUn :=
  { sunPath := 0 :: (padded name ++ List.replicate (107 - name.length) 0) }

def encode (letter : Letter StdString RawMessage) : Datagram SockaddrUn :=
  { bytes := htonl letter.content.reqId ++ letter.content.payload
    address := nameAddress letter.sender }

theorem received_encode {letter : Letter StdString RawMessage} (noZero : 0 ∉ letter.sender) :
    received AfUnixSocket.identifier (encode letter) =
      { result := (letter.content.payload.length + 4 : Nat)
        stored := some (letter.content, { value := letter.sender }) } := by
  have name : cStr (padded letter.sender ++ List.replicate (107 - letter.sender.length) 0) =
      letter.sender := by
    rw [cStr_padded_append, cStr_of_not_mem noZero]
  simp only [received, encode, RawMessage.deserialize_htonl, nameAddress, AfUnixSocket.identifier,
    List.drop_succ_cons, List.drop_zero, name, List.length_append, htonl_length, Nat.add_comm]

/-- What the kernel holds is what the post office holds. -/
structure Represents (live : List Endpoint) (boxes : Boxes StdString RawMessage) : Prop where
  sound : SoundSockets (live.map Endpoint.socket)
  named : ∀ endpoint ∈ live, 0 ∉ endpoint.socket.socketName
  boxed : ∀ endpoint ∈ live, ∃ letters, boxes endpoint.socket.socketName = some letters ∧
    (∀ letter ∈ letters, 0 ∉ letter.sender) ∧ endpoint.inbox = letters.map encode
  owned : ∀ name, boxes name ≠ none → ∃ endpoint ∈ live, endpoint.socket.socketName = name

theorem represents_nil : Represents [] (fun _ => none) where
  sound := ⟨List.forall_mem_nil _, List.nodup_nil⟩
  named := List.forall_mem_nil _
  boxed := List.forall_mem_nil _
  owned := fun _ present => absurd rfl present

section Represents

variable {live : List Endpoint} {boxes : Boxes StdString RawMessage}

theorem Represents.boundName (represents : Represents live boxes) {endpoint : Endpoint}
    (member : endpoint ∈ live) :
    endpoint.socket.boundName = 0 :: endpoint.socket.socketName := by
  rw [represents.sound.boundName (List.mem_map_of_mem member),
    padded_of_not_mem (represents.named endpoint member)]

theorem Represents.distinct (represents : Represents live boxes) :
    (live.map fun endpoint => endpoint.socket.socketName).Nodup := by
  have addresses := represents.sound.distinct
  rw [inUse, List.map_map] at addresses
  have same : live.map (AfUnixSocket.boundName ∘ Endpoint.socket) =
      (live.map fun endpoint => endpoint.socket.socketName).map (List.cons 0) := by
    rw [List.map_map]
    exact List.map_congr_left fun endpoint member => represents.boundName member
  rw [same] at addresses
  exact addresses.of_map _

theorem Represents.sameIndex (represents : Represents live boxes) {index other : Nat}
    {self endpoint : Endpoint} (here : live[index]? = some self)
    (there : live[other]? = some endpoint)
    (same : endpoint.socket.socketName = self.socket.socketName) : other = index := by
  have inside : other < (live.map fun endpoint => endpoint.socket.socketName).length := by
    rw [List.length_map]
    exact (List.getElem?_eq_some_iff.mp there).1
  refine (List.getElem?_inj inside represents.distinct).mp ?_
  rw [List.getElem?_map, List.getElem?_map, there, here, Option.map_some, Option.map_some, same]

theorem Represents.reportedAddress (represents : Represents live boxes) {endpoint : Endpoint}
    (member : endpoint ∈ live) :
    endpoint.socket.reportedAddress = nameAddress endpoint.socket.socketName := by
  have created := (represents.sound.bound _ (List.mem_map_of_mem member)).2
  have fits := (AfUnixSocket.createAddress_isSome_iff AfUnixSocket.zero_length _).mp
    (by rw [created]; rfl)
  rw [AfUnixSocket.reportedAddress, AfUnixSocket.reported_createAddress created]
  rw [AfUnixSocket.createAddress_zero fits] at created
  exact (congrArg Prod.fst (Option.some.inj created)).symm

/-! ### The steps -/

theorem Represents.addressed (represents : Represents live boxes) {endpoint : Endpoint}
    (member : endpoint ∈ live) (dest : StdString) :
    (endpoint.socket.boundName == 0 :: padded dest) =
      decide (endpoint.socket.socketName = dest) := by
  rw [represents.boundName member, Bool.eq_iff_iff, beq_iff_eq, decide_eq_true_iff,
    List.cons_inj_right]
  constructor
  · intro same
    have noZero : 0 ∉ dest := by
      rw [← zero_mem_padded_iff, ← same]
      exact represents.named endpoint member
    rw [same, padded_of_not_mem noZero]
  · rintro rfl
    exact (padded_of_not_mem (represents.named endpoint member)).symm

theorem Represents.opened (represents : Represents live boxes) {name : SocketName}
    {socketFd : Int} {socket : AfUnixSocket}
    (opened : (AfUnixSocket.create name.value).openSocket (inUse (live.map Endpoint.socket))
      socketFd = some (0, socket)) (absent : boxes name.value = none) :
    Represents ({ socket := socket, inbox := [] } :: live)
      (Function.update boxes name.value (some [])) := by
  have soundNext := represents.sound.opened opened
  obtain ⟨-, sameName, -⟩ := AfUnixSocket.openSocket_inv opened
  have others : ∀ endpoint ∈ live, endpoint.socket.socketName ≠ name.value := by
    intro endpoint member same
    obtain ⟨letters, present, -⟩ := represents.boxed endpoint member
    rw [same, absent] at present
    cases present
  refine ⟨soundNext, ?_, ?_, ?_⟩
  · exact List.forall_mem_cons.mpr ⟨by rw [sameName]; exact name.noZero, represents.named⟩
  · rw [List.forall_mem_cons]
    constructor
    · exact ⟨[], by rw [sameName, Function.update_self], List.forall_mem_nil _, rfl⟩
    · intro endpoint member
      rw [Function.update_of_ne (others endpoint member)]
      exact represents.boxed endpoint member
  · intro other present
    by_cases same : other = name.value
    · exact ⟨_, List.mem_cons_self, same ▸ sameName⟩
    · rw [Function.update_of_ne same] at present
      obtain ⟨endpoint, member, named⟩ := represents.owned other present
      exact ⟨endpoint, List.mem_cons_of_mem _ member, named⟩

theorem Represents.inUse_iff (represents : Represents live boxes) (name : StdString) :
    0 :: padded name ∈ inUse (live.map Endpoint.socket) ↔ boxes name ≠ none := by
  rw [inUse, List.map_map, List.mem_map]
  constructor
  · rintro ⟨endpoint, member, same⟩
    have named := represents.addressed member name
    rw [← same, Function.comp_apply, beq_self_eq_true] at named
    obtain ⟨letters, present, -⟩ := represents.boxed endpoint member
    rw [← of_decide_eq_true named.symm, present]
    exact Option.some_ne_none letters
  · intro present
    obtain ⟨endpoint, member, named⟩ := represents.owned name present
    refine ⟨endpoint, member, ?_⟩
    have addressed := represents.addressed member name
    rw [decide_eq_true named] at addressed
    exact beq_iff_eq.mp addressed

theorem Represents.opens (represents : Represents live boxes) (name : SocketName)
    (socketFd : Int) :
    ∃ result socket after, (AfUnixSocket.create name.value).openSocket
        (inUse (live.map Endpoint.socket)) socketFd = some (result, socket) ∧
      PostOffice.step boxes (.opens name.value (decide (0 ≤ socketFd))) =
        some (after, [.opened name.value (decide (0 ≤ socketFd)) (decide (result = 0))]) ∧
      Represents (if result = 0 then { socket := socket, inbox := [] } :: live else live) after := by
  by_cases possible : 0 ≤ socketFd
  · obtain ⟨address, -, opening⟩ := AfUnixSocket.openSocket_fits
      (Nat.le_succ_of_le name.short) (inUse (live.map Endpoint.socket)) possible
    by_cases taken : 0 :: padded name.value ∈ inUse (live.map Endpoint.socket)
    · rw [if_pos taken] at opening
      obtain ⟨letters, present⟩ :=
        Option.ne_none_iff_exists'.mp ((represents.inUse_iff name.value).mp taken)
      refine ⟨_, _, boxes, opening, ?_, represents⟩
      simp only [PostOffice.step, present]
      rfl
    · rw [if_neg taken] at opening
      have absent := not_not.mp (mt (represents.inUse_iff name.value).mpr taken)
      refine ⟨_, _, _, opening, ?_, represents.opened opening absent⟩
      simp only [PostOffice.step, absent, decide_eq_true possible, decide_true]
  · have closed : ¬ (0 : Int) ≤ -1 := by decide
    have opening : (AfUnixSocket.create name.value).openSocket
        (inUse (live.map Endpoint.socket)) socketFd =
          some (-1, AfUnixSocket.create name.value) := by
      simp only [AfUnixSocket.openSocket, AfUnixSocket.create, if_neg closed,
        if_pos (Int.not_le.mp possible)]
    refine ⟨_, _, boxes, opening, ?_, represents⟩
    simp only [PostOffice.step, decide_eq_false possible]
    cases boxes name.value <;> rfl

theorem Represents.closes (represents : Represents live boxes) {index : Nat} {self : Endpoint}
    (here : live[index]? = some self) :
    Represents (live.eraseIdx index) (Function.update boxes self.socket.socketName none) := by
  have fewer := List.eraseIdx_sublist live index
  have others : ∀ endpoint ∈ live.eraseIdx index,
      endpoint.socket.socketName ≠ self.socket.socketName := by
    intro endpoint member same
    obtain ⟨other, different, there⟩ := List.mem_eraseIdx_iff_getElem?.mp member
    exact different (represents.sameIndex here there same)
  refine ⟨?_, ?_, ?_, ?_⟩
  · have smaller := fewer.map Endpoint.socket
    exact ⟨fun socket member => represents.sound.bound socket (smaller.subset member),
      (smaller.map _).nodup represents.sound.distinct⟩
  · exact fun endpoint member => represents.named endpoint (fewer.subset member)
  · intro endpoint member
    rw [Function.update_of_ne (others endpoint member)]
    exact represents.boxed endpoint (fewer.subset member)
  · intro name present
    by_cases same : name = self.socket.socketName
    · rw [same, Function.update_self] at present
      exact absurd rfl present
    · rw [Function.update_of_ne same] at present
      obtain ⟨endpoint, member, named⟩ := represents.owned name present
      obtain ⟨other, there⟩ := List.mem_iff_getElem?.mp member
      refine ⟨endpoint, List.mem_eraseIdx_iff_getElem?.mpr ⟨other, ?_, there⟩, named⟩
      rintro rfl
      rw [here] at there
      cases there
      exact same named.symm

theorem Represents.refilled (represents : Represents live boxes) {next : List Endpoint}
    {after : Boxes StdString RawMessage}
    (sockets : next.map Endpoint.socket = live.map Endpoint.socket)
    (boxed : ∀ endpoint ∈ next, ∃ letters, after endpoint.socket.socketName = some letters ∧
      (∀ letter ∈ letters, 0 ∉ letter.sender) ∧ endpoint.inbox = letters.map encode)
    (domain : ∀ name, after name ≠ none → boxes name ≠ none) : Represents next after := by
  refine ⟨sockets ▸ represents.sound, ?_, boxed, ?_⟩
  · intro endpoint member
    have kept : endpoint.socket ∈ live.map Endpoint.socket :=
      sockets ▸ List.mem_map_of_mem member
    obtain ⟨before, inLive, same⟩ := List.mem_map.mp kept
    exact same ▸ represents.named before inLive
  · intro name present
    obtain ⟨before, inLive, named⟩ := represents.owned name (domain name present)
    have kept : before.socket ∈ next.map Endpoint.socket :=
      sockets ▸ List.mem_map_of_mem inLive
    obtain ⟨endpoint, member, same⟩ := List.mem_map.mp kept
    exact ⟨endpoint, member, by rw [same, named]⟩

theorem Represents.any_addressed (represents : Represents live boxes) (dest : StdString) :
    (live.any fun endpoint => endpoint.socket.boundName == 0 :: padded dest) =
      (boxes dest).isSome := by
  rw [Bool.eq_iff_iff, List.any_eq_true, ← Option.ne_none_iff_isSome]
  constructor
  · rintro ⟨endpoint, member, same⟩
    rw [represents.addressed member, decide_eq_true_iff] at same
    obtain ⟨letters, present, -⟩ := represents.boxed endpoint member
    rw [← same, present]
    exact Option.some_ne_none letters
  · intro present
    obtain ⟨endpoint, member, same⟩ := represents.owned dest present
    exact ⟨endpoint, member, by rw [represents.addressed member, same, decide_eq_true rfl]⟩

theorem sendOn_outgoing {σ : Type} {socket : AfUnixSocket} (opened : 0 ≤ socket.fd)
    (letter : Outgoing) (sendto : List UInt8 → List UInt8 → σ → Option Nat × σ) (kernel : σ) :
    ∃ result, (htonl letter.msg.reqId ++ letter.msg.payload).length = UInt32.toNat result ∧
      socket.sendOn letter.msg.toIMessage letter.dest letter.buffer sendto kernel =
        match sendto (htonl letter.msg.reqId ++ letter.msg.payload) (0 :: padded letter.dest.value)
          kernel with
        | (none, kernel) => some (-3, kernel)
        | (some len, kernel) =>
            if UInt32.ofNat len ≠ result then some (-4, kernel) else some (0, kernel) := by
  obtain ⟨result, serialized, length, nonzero⟩ :=
    IMessage.serialize_whole letter.msg.encodes letter.small letter.size
  obtain ⟨⟨address, size⟩, created⟩ := Option.isSome_iff_exists.mp
    ((AfUnixSocket.createAddress_isSome_iff AfUnixSocket.zero_length _).mpr letter.fits)
  have bytes := AfUnixSocket.nameBytes_createAddress created
  refine ⟨result, length, ?_⟩
  simp only [AfUnixSocket.sendOn, if_neg (Int.not_lt.mpr opened), serialized, if_neg nonzero,
    created, bytes, List.take_of_length_le (Nat.le_of_eq length)]
  rfl

theorem push_socket (datagram : Datagram SockaddrUn) (self : Endpoint) :
    (self.push datagram).socket = self.socket := rfl

theorem Represents.delivered (represents : Represents live boxes) {self : Endpoint}
    (member : self ∈ live) (letter : Outgoing) {letters : List (Letter StdString RawMessage)}
    (atDest : boxes letter.dest.value = some letters) :
    Represents
      (live.map fun endpoint =>
        if endpoint.socket.boundName == 0 :: padded letter.dest.value then
          endpoint.push { bytes := htonl letter.msg.reqId ++ letter.msg.payload
                          address := self.socket.reportedAddress }
        else endpoint)
      (Function.update boxes letter.dest.value
        (some (letters ++ [⟨letter.msg, self.socket.socketName⟩]))) := by
  refine represents.refilled ?_ ?_ ?_
  · rw [List.map_map]
    refine List.map_congr_left fun endpoint _ => ?_
    rw [Function.comp_apply]
    split
    · exact push_socket _ _
    · rfl
  · intro endpoint inNext
    obtain ⟨before, inLive, rfl⟩ := List.mem_map.mp inNext
    obtain ⟨waiting, present, readable, stored⟩ := represents.boxed before inLive
    rw [represents.addressed inLive]
    by_cases same : before.socket.socketName = letter.dest.value
    · rw [decide_eq_true same, if_pos rfl, push_socket, same, Function.update_self]
      rw [same, atDest] at present
      cases present
      refine ⟨_, rfl, ?_, ?_⟩
      · rw [List.forall_mem_append, List.forall_mem_singleton]
        exact ⟨readable, represents.named self member⟩
      · rw [List.map_append, push, stored, represents.reportedAddress member]
        rfl
    · rw [decide_eq_false same, if_neg Bool.false_ne_true, Function.update_of_ne same]
      exact ⟨waiting, present, readable, stored⟩
  · intro name present
    by_cases same : name = letter.dest.value
    · rw [same, atDest]
      exact Option.some_ne_none letters
    · rwa [Function.update_of_ne same] at present

theorem Represents.sends (represents : Represents live boxes) {self : Endpoint}
    (member : self ∈ live) (letter : Outgoing) (room : Bool) :
    ∃ result next after,
      self.socket.sendOn letter.msg.toIMessage letter.dest letter.buffer
        (sendto self.socket room) live = some (result, next) ∧
      PostOffice.step boxes
          (.posts self.socket.socketName letter.dest.value letter.msg room) =
        some (after, [.posted self.socket.socketName letter.dest.value letter.msg room
          (decide (result = 0))]) ∧
      Represents next after := by
  have opened := (represents.sound.bound _ (List.mem_map_of_mem member)).1
  obtain ⟨own, present, -⟩ := represents.boxed self member
  obtain ⟨result, length, sent⟩ :=
    sendOn_outgoing opened letter (sendto self.socket room) live
  rw [sendto, represents.any_addressed] at sent
  simp only [PostOffice.step, present]
  cases atDest : boxes letter.dest.value with
  | none =>
      rw [atDest, Option.isSome_none, Bool.and_false] at sent
      exact ⟨_, _, boxes, sent, rfl, represents⟩
  | some letters =>
      rw [atDest, Option.isSome_some, Bool.and_true] at sent
      cases room with
      | false => exact ⟨_, _, boxes, sent, rfl, represents⟩
      | true =>
          have whole : UInt32.ofNat (htonl letter.msg.reqId ++ letter.msg.payload).length =
              result := by rw [length, UInt32.ofNat_toNat]
          refine ⟨0, _, _, sent.trans (if_neg (not_not.mpr whole)), rfl, ?_⟩
          exact represents.delivered member letter atDest

theorem Represents.receives (represents : Represents live boxes) {index : Nat} {self : Endpoint}
    (here : live[index]? = some self) {timeoutMs : Int} {found : Received UnixInfo}
    {inbox : List (Datagram SockaddrUn)}
    (ran : (AfUnixSocket.receive self.socket.fd timeoutMs).runOn self.inbox =
      some (found, inbox)) :
    (boxes self.socket.socketName = some [] ∧ found = .error 0 ∧
      live.set index { self with inbox := inbox } = live) ∨
    ∃ letter rest, boxes self.socket.socketName = some (letter :: rest) ∧
      found = { result := (letter.content.payload.length + 4 : Nat)
                stored := some (letter.content, { value := letter.sender }) } ∧
      Represents (live.set index { self with inbox := inbox })
        (Function.update boxes self.socket.socketName (some rest)) := by
  have member := List.mem_of_getElem? here
  have opened := (represents.sound.bound _ (List.mem_map_of_mem member)).1
  obtain ⟨letters, present, readable, stored⟩ := represents.boxed self member
  rw [AfUnixSocket.receive, stored] at ran
  cases letters with
  | nil =>
      rw [List.map_nil, socketReceive_runOn_nil _ opened] at ran
      split at ran
      · cases ran
        refine .inl ⟨present, rfl, ?_⟩
        rw [List.map_nil] at stored
        rw [← stored]
        obtain ⟨inside, there⟩ := List.getElem?_eq_some_iff.mp here
        exact there ▸ List.set_getElem_self inside
      · cases ran
  | cons letter rest =>
      rw [List.map_cons, socketReceive_runOn _ opened] at ran
      cases ran
      rw [List.forall_mem_cons] at readable
      refine .inr ⟨letter, rest, present, received_encode readable.1, ?_⟩
      refine represents.refilled ?_ ?_ ?_
      · have unchanged : (live.map Endpoint.socket)[index]? = some self.socket := by
          rw [List.getElem?_map, here, Option.map_some]
        obtain ⟨inside, there⟩ := List.getElem?_eq_some_iff.mp unchanged
        rw [List.map_set, ← there]
        exact List.set_getElem_self inside
      · intro endpoint inNext
        obtain ⟨other, there⟩ := List.mem_iff_getElem?.mp inNext
        rw [List.getElem?_set] at there
        split at there
        · split at there
          · cases there
            exact ⟨rest, Function.update_self .., readable.2, rfl⟩
          · cases there
        · rename_i different
          have different' : endpoint.socket.socketName ≠ self.socket.socketName :=
            fun same => different (represents.sameIndex here there same).symm
          rw [Function.update_of_ne different']
          exact represents.boxed endpoint (List.mem_of_getElem? there)
      · intro name nonempty
        by_cases same : name = self.socket.socketName
        · rw [same, present]
          exact Option.some_ne_none _
        · rwa [Function.update_of_ne same] at nonempty

end Represents

/-! ### The runs -/

def seen : EndpointEvent → PostOffice.Event StdString RawMessage
  | .opened name socketFd result => .opened name (decide (0 ≤ socketFd)) (decide (result = 0))
  | .closed name => .closed name
  | .sent name dest msg room result => .posted name dest msg room (decide (result = 0))
  | .received name found =>
      .took name (found.stored.map fun stored => ⟨stored.1, stored.2.value⟩)

theorem Represents.step {live next : List Endpoint} {boxes : Boxes StdString RawMessage}
    {action : EndpointAction} {events : List EndpointEvent} (represents : Represents live boxes)
    (stepped : step live action = some (next, events)) :
    ∃ act after, PostOffice.step boxes act = some (after, events.map seen) ∧
      Represents next after := by
  cases action with
  | opens name socketFd =>
      obtain ⟨result, socket, after, opened, answered, represented⟩ :=
        represents.opens name socketFd
      simp only [Endpoint.step, opened] at stepped
      cases stepped
      exact ⟨_, after, answered, represented⟩
  | closes index =>
      simp only [Endpoint.step] at stepped
      split at stepped
      · cases stepped
      · rename_i self here
        cases stepped
        obtain ⟨letters, present, -⟩ := represents.boxed self (List.mem_of_getElem? here)
        refine ⟨.closes self.socket.socketName, _, ?_, represents.closes here⟩
        simp only [PostOffice.step, present, List.map_cons, List.map_nil, seen]
  | sends index letter room =>
      simp only [Endpoint.step] at stepped
      split at stepped
      · cases stepped
      · rename_i self here
        obtain ⟨result, following, after, sent, answered, represented⟩ :=
          represents.sends (List.mem_of_getElem? here) letter room
        rw [sent] at stepped
        cases stepped
        exact ⟨_, after, answered, represented⟩
  | receives index timeoutMs =>
      simp only [Endpoint.step] at stepped
      split at stepped
      · cases stepped
      · rename_i self here
        split at stepped
        · cases stepped
        · rename_i found inbox ran
          cases stepped
          refine ⟨.takes self.socket.socketName, ?_⟩
          simp only [PostOffice.step, List.map_cons, List.map_nil, seen]
          rcases represents.receives here ran with ⟨empty, rfl, same⟩ |
            ⟨letter, rest, present, rfl, represented⟩
          · rw [empty, same]
            exact ⟨_, rfl, represents⟩
          · rw [present]
            exact ⟨_, rfl, represented⟩

def deliveries : Machine.Simulation machine (PostOffice.machine (ν := StdString) (β := RawMessage))
    (List.map seen) where
  related := Represents
  visibleNil := rfl
  visibleAppend := fun _ _ => List.map_append
  answered := by
    intro live action next events boxes represents stepped
    obtain ⟨act, after, answered, represented⟩ := represents.step stepped
    exact ⟨[act], after, PostOffice.machine.run_single answered, represented⟩

/-- Every answer that the processes get from their sockets is one that they would
get from a post office. -/
theorem sockets_answer_as_post_office {live : List Endpoint} {actions : List EndpointAction}
    {events : List EndpointEvent} (ran : machine.run [] actions = some (live, events)) :
    ∃ acts boxes, PostOffice.machine.run (fun _ => none) acts = some (boxes, events.map seen) ∧
      Represents live boxes :=
  deliveries.run_answered represents_nil ran

def hello : Outgoing where
  msg := { reqId := 7, payload := [1] }
  dest := { value := [97] }
  buffer := List.replicate 5 0
  small := by decide
  size := by decide
  fits := by decide

def nameA : SocketName := { value := [97], noZero := by decide, short := by decide }

def nameB : SocketName := { value := [98], noZero := by decide, short := by decide }

set_option maxRecDepth 4000 in
theorem talk_answers_as_post_office :
    ∃ acts boxes, PostOffice.machine.run (fun _ => none) acts =
      some (boxes, [.opened nameA.value true true, .opened nameB.value true true,
        .posted nameB.value nameA.value hello.msg true true,
        .took nameA.value (some ⟨hello.msg, nameB.value⟩)]) := by
  have ran : machine.run [] [.opens nameA 3, .opens nameB 4, .sends 0 hello true, .receives 1 0] =
    some (_, _) := rfl
  obtain ⟨acts, boxes, answered, -⟩ := sockets_answer_as_post_office ran
  exact ⟨acts, boxes, answered⟩

/-- From the time a name is opened until it is closed, the messages whose `send` to it
gave 0 are those that were received and those that are still pending, in order, with
the names of their senders. -/
theorem delivered_once_in_order {start live : List Endpoint} {front back : List EndpointAction}
    {early late : List EndpointEvent} {name : SocketName} {socketFd : Int}
    (reached : machine.run [] front = some (start, early))
    (ran : machine.run start (.opens name socketFd :: back) =
      some (live, .opened name.value socketFd 0 :: late))
    (stays : .closed name.value ∉ late) :
    ∃ left, ∃ endpoint ∈ live, endpoint.socket.socketName = name.value ∧
      endpoint.inbox = left.map encode ∧
      PostOffice.posted name.value (late.map seen) =
        PostOffice.taken name.value (late.map seen) ++ left := by
  obtain ⟨_, boxes, -, represents⟩ := deliveries.run_answered represents_nil reached
  obtain ⟨next, emitted, later, stepped, followed, split⟩ := machine.run_cons_inv ran
  obtain ⟨result, socket, after, opened, answered, represented⟩ := represents.opens name socketFd
  simp only [machine, Endpoint.step, opened] at stepped
  cases stepped
  simp only [List.singleton_append, List.cons.injEq, EndpointEvent.opened.injEq, true_and]
    at split
  obtain ⟨rfl, rfl⟩ := split
  obtain ⟨acts, boxesLast, answeredLast, representsLast⟩ :=
    deliveries.run_answered represented followed
  have staysSeen : PostOffice.Event.closed name.value ∉ late.map seen := by
    intro member
    obtain ⟨event, inLate, same⟩ := List.mem_map.mp member
    cases event with
    | closed other =>
        cases same
        exact stays inLate
    | opened other otherFd otherResult => cases same
    | sent other dest msg room otherResult => cases same
    | received other found => cases same
  obtain ⟨left, atName, conserved⟩ :=
    PostOffice.run_conserves (PostOffice.opened_empty answered) staysSeen answeredLast
  obtain ⟨endpoint, member, named⟩ :=
    representsLast.owned name.value (by rw [atName]; exact Option.some_ne_none left)
  obtain ⟨letters, present, -, stored⟩ := representsLast.boxed endpoint member
  rw [named, atName] at present
  cases present
  exact ⟨left, endpoint, member, named, stored, conserved⟩

def onlyB : List Endpoint :=
  [{ socket := { fd := 4, address := nameAddress nameB.value, socketName := nameB.value }
     inbox := [] }]

set_option maxRecDepth 4000 in
theorem delivered_once_in_order_two_messages :
    ∃ left : List (Letter StdString RawMessage),
      [⟨hello.msg, nameB.value⟩, ⟨hello.msg, nameB.value⟩] =
        [⟨hello.msg, nameB.value⟩] ++ left := by
  have reached : machine.run [] [.opens nameB 4] = some (onlyB, _) := rfl
  have ran : machine.run onlyB [.opens nameA 3, .sends 1 hello true, .sends 1 hello true,
    .receives 0 0] = some (_, .opened nameA.value 3 0 :: _) := rfl
  obtain ⟨left, _, _, _, _, conserved⟩ := delivered_once_in_order reached ran (by decide)
  exact ⟨left, conserved⟩

end Endpoint

end LinxIpc
