import LinxIpc.Unix.Address

/-!
`receive` with the two variables of its caller that it writes through `msg` and
`from`, for any answers of the kernel.

The descriptor is read once, before `poll`: a socket closed after that shows in
the answers.
-/

namespace LinxIpc

variable {α ι : Type}

/-- The answers to the system calls of one `receive`. -/
structure Kernel (α : Type) where
  polled : PollResult
  available : Option Nat
  read : Nat → RecvResult α

/-- The variables that `msg` and `from` point to; a smart pointer is null or
owns an object. -/
structure Slots (ι : Type) where
  msg : Option RawMessage
  sender : Option ι
  deriving DecidableEq

def Slots.empty : Slots ι := { msg := none, sender := none }

/-! ### The source -/

/-- The arguments `msg` and `from` of `receive` are pointers, which may be null. -/
structure Pointers where
  msg : Bool
  sender : Bool

def Pointers.both : Pointers := { msg := true, sender := true }

/-- `*from` is written only if the caller gave a pointer, and only then is the address
decoded. -/
def storeSender (identifier? : α → Option ι) (wanted : Bool) (address : α) (slots : Slots ι) :
    Option (Slots ι) :=
  if wanted then (identifier? address).map fun sender => { slots with sender := some sender }
  else some slots

/-- There is no result if decoding the sender reads past the address structure. -/
def receiveInto (identifier? : α → Option ι) (fd : Int) (pointers : Pointers)
    (kernel : Kernel α) (slots : Slots ι) : Option (Int × Slots ι) :=
  if fd < 0 then some (-1, slots)
  else
    match kernel.polled with
    | .failed errno => some (if errno = ebadf then 0 else -2, slots)
    | .timedOut => some (0, slots)
    | .ready =>
        let bytesAvailable := kernel.available.getD 0
        match kernel.read bytesAvailable with
        | .failed errno => some (if errno = ebadf then 0 else -4, slots)
        | .received buffer clientAddress =>
            if buffer.length ≠ bytesAvailable then some (-5, slots)
            else
              match RawMessage.deserialize buffer with
              | none => some (-6, slots)
              | some ipc =>
                  (storeSender identifier? pointers.sender clientAddress slots).map fun slots =>
                    (buffer.length, if pointers.msg then { slots with msg := some ipc } else slots)

def UdpSocket.receiveInto (fd : Int) (pointers : Pointers) (kernel : Kernel SockaddrIn)
    (slots : Slots PortInfo) : Option (Int × Slots PortInfo) :=
  LinxIpc.receiveInto (fun address => some (UdpSocket.identifier address)) fd pointers kernel slots

def AfUnixSocket.receiveInto (fd : Int) (pointers : Pointers) (kernel : Kernel SockaddrUn)
    (slots : Slots UnixInfo) : Option (Int × Slots UnixInfo) :=
  LinxIpc.receiveInto AfUnixSocket.identifier? fd pointers kernel slots

/-! ### The tree of system calls on these answers -/

def Receive.answered (kernel : Kernel α) : Receive α ι → Received ι
  | .ret received => received
  | .poll _ next => (next kernel.polled).answered kernel
  | .fionread next => (next kernel.available).answered kernel
  | .recvfrom size next => (next (kernel.read size)).answered kernel

def Received.storeIn (received : Received ι) (slots : Slots ι) : Slots ι :=
  match received.stored with
  | none => slots
  | some (msg, sender) => { msg := some msg, sender := some sender }

/-- The kernel gives a whole datagram that is long enough for a message. -/
structure Kernel.Took (kernel : Kernel α) (bytes : List UInt8) (address : α) : Prop where
  polled : kernel.polled = .ready
  available : kernel.available.getD 0 = bytes.length
  read : kernel.read bytes.length = .received bytes address
  header : 4 ≤ bytes.length

/-- A call on an open socket takes a whole datagram only from such an address. -/
def Kernel.Reports (kernel : Kernel α) (fd : Int) (kind : α → Prop) : Prop :=
  0 ≤ fd → ∀ bytes address, kernel.Took bytes address → kind address

theorem Kernel.Took.positive {kernel : Kernel α} {bytes : List UInt8} {address : α}
    (took : kernel.Took bytes address) : (0 : Int) < bytes.length := by
  have header := took.header
  omega

theorem Kernel.Took.given {kernel : Kernel α} {bytes : List UInt8} {address : α}
    (took : kernel.Took bytes address) :
    kernel.read (kernel.available.getD 0) = .received bytes address := by
  rw [took.available, took.read]

theorem Kernel.Took.address_eq {kernel : Kernel α} {bytes other : List UInt8}
    {address another : α} (took : kernel.Took bytes address)
    (again : kernel.Took other another) : address = another := by
  have same := took.given.symm.trans again.given
  cases same
  rfl

theorem Kernel.reports_of_polled {kernel : Kernel α} {fd : Int} {kind : α → Prop}
    (other : kernel.polled ≠ .ready) : kernel.Reports fd kind :=
  fun _ _ _ took => absurd took.polled other

theorem Kernel.reports_of_read {kernel : Kernel α} {fd : Int} {kind : α → Prop}
    (short : ∀ bytes address, kernel.read (kernel.available.getD 0) = .received bytes address →
      bytes.length ≠ kernel.available.getD 0 ∨ bytes.length < 4) : kernel.Reports fd kind := by
  intro _ bytes address took
  rcases short bytes address took.given with cut | noHeader
  · exact absurd took.available.symm cut
  · exact absurd took.header (Nat.not_le.mpr noHeader)

/-- Either the kernel gives a whole datagram with a message, or the call is over before
its sender is decoded. -/
theorem receiveInto_cases (identifier? : α → Option ι) (identifier : α → ι) (fd : Int)
    (kernel : Kernel α) :
    (∃ bytes address msg, 0 ≤ fd ∧ kernel.Took bytes address ∧
        RawMessage.deserialize bytes = some msg ∧
        (∀ timeoutMs, (socketReceive identifier fd timeoutMs).answered kernel =
          { result := bytes.length, stored := some (msg, identifier address) }) ∧
        ∀ slots, receiveInto identifier? fd .both kernel slots =
          (identifier? address).map fun sender =>
            ((bytes.length : Int), { msg := some msg, sender := some sender })) ∨
      ∃ code ≤ 0, (∀ kind, kernel.Reports fd kind) ∧
        (∀ timeoutMs, (socketReceive identifier fd timeoutMs).answered kernel = .error code) ∧
        ∀ slots, receiveInto identifier? fd .both kernel slots = some (code, slots) := by
  simp only [socketReceive, receiveInto]
  by_cases closed : fd < 0
  · refine .inr ⟨-1, by decide, fun kind opened => ?_, fun timeoutMs => ?_, fun slots => ?_⟩
    · omega
    · rw [if_pos closed]
      rfl
    · rw [if_pos closed]
  · have opened := Int.not_lt.mp closed
    simp only [if_neg closed, Receive.answered]
    cases polled : kernel.polled with
    | failed errno =>
        refine .inr ⟨if errno = ebadf then 0 else -2, by split <;> decide,
          fun kind => Kernel.reports_of_polled (by simp [polled]), fun timeoutMs => ?_,
          fun slots => rfl⟩
        simp only [afterPoll, Receive.answered]
    | timedOut =>
        exact .inr ⟨0, Int.le_refl 0, fun kind => Kernel.reports_of_polled (by simp [polled]),
          fun timeoutMs => rfl, fun slots => rfl⟩
    | ready =>
        simp only [afterPoll, Receive.answered, afterFionread]
        cases read : kernel.read (kernel.available.getD 0) with
        | failed errno =>
            refine .inr ⟨if errno = ebadf then 0 else -4, by split <;> decide,
              fun kind => Kernel.reports_of_read (by simp [read]), fun timeoutMs => ?_,
              fun slots => rfl⟩
            simp only [afterRecvfrom, Receive.answered]
        | received bytes address =>
            by_cases cut : bytes.length ≠ kernel.available.getD 0
            · refine .inr ⟨-5, by decide, fun kind => Kernel.reports_of_read ?_,
                fun timeoutMs => ?_, fun slots => ?_⟩
              · rintro _ _ same
                cases read.symm.trans same
                exact .inl cut
              · simp only [afterRecvfrom, if_pos cut]
                rfl
              · simp only [if_pos cut]
            · have whole : kernel.available.getD 0 = bytes.length :=
                (Decidable.not_not.mp cut).symm
              simp only [afterRecvfrom, if_neg cut]
              cases decoded : RawMessage.deserialize bytes with
              | none =>
                  refine .inr ⟨-6, by decide, fun kind => Kernel.reports_of_read ?_,
                    fun timeoutMs => rfl, fun slots => rfl⟩
                  rintro _ _ same
                  cases read.symm.trans same
                  exact .inr ((RawMessage.deserialize_eq_none_iff bytes).mp decoded)
              | some ipc =>
                  have header := (RawMessage.deserialize_isSome_iff bytes).mp (by rw [decoded]; rfl)
                  rw [whole] at read
                  refine .inl ⟨bytes, address, ipc, opened, ⟨polled, whole, read, header⟩, decoded,
                    fun timeoutMs => rfl, fun slots => ?_⟩
                  cases sender : identifier? address <;>
                    simp only [storeSender, Pointers.both, if_true, sender, Option.map_none,
                      Option.map_some]

section Decoding

variable {identifier? : α → Option ι} {identifier : α → ι} {kind : α → Prop}

structure Decodes (identifier? : α → Option ι) (identifier : α → ι) (kind : α → Prop) : Prop where
  inside : ∀ address, kind address → identifier? address = some (identifier address)
  past : ∀ address, ¬ kind address → identifier? address = none

theorem UdpSocket.decodes :
    Decodes (fun address => some (UdpSocket.identifier address)) UdpSocket.identifier
      (fun _ => True) where
  inside _ _ := rfl
  past _ never := absurd trivial never

/-- The reported `sun_path` has a NUL after its first byte. -/
def AfUnixSocket.Terminated (address : SockaddrUn) : Prop := 0 ∈ address.sunPath.drop 1

theorem AfUnixSocket.decodes :
    Decodes AfUnixSocket.identifier? AfUnixSocket.identifier AfUnixSocket.Terminated where
  inside _ ends := if_pos ends
  past _ endless := if_neg endless

theorem receiveInto_eq_answered (decodes : Decodes identifier? identifier kind) {fd : Int}
    {kernel : Kernel α} (reports : kernel.Reports fd kind) (timeoutMs : Int) (slots : Slots ι) :
    receiveInto identifier? fd .both kernel slots =
      some (((socketReceive identifier fd timeoutMs).answered kernel).result,
        ((socketReceive identifier fd timeoutMs).answered kernel).storeIn slots) := by
  rcases receiveInto_cases identifier? identifier fd kernel with
    ⟨bytes, address, msg, opened, took, -, answered, gives⟩ | ⟨code, -, -, answered, gives⟩
  · rw [gives, answered, decodes.inside address (reports opened bytes address took)]
    rfl
  · rw [gives, answered]
    rfl

theorem receiveInto_past (decodes : Decodes identifier? identifier kind) {fd : Int}
    {kernel : Kernel α} (past : ¬ kernel.Reports fd kind) (slots : Slots ι) :
    receiveInto identifier? fd .both kernel slots = none := by
  rcases receiveInto_cases identifier? identifier fd kernel with
    ⟨bytes, address, msg, opened, took, -, -, gives⟩ | ⟨code, -, reports, -⟩
  · have outside : ¬ kind address := fun inside => past fun _ other another again =>
      took.address_eq again ▸ inside
    rw [gives, decodes.past address outside]
    rfl
  · exact absurd (reports kind) past

end Decoding

/-- The kernel gave a datagram of this size, which holds the message, and whose
address gives the sender. -/
def Kernel.Gave (kernel : Kernel α) (identifier? : α → Option ι) (size : Nat) (msg : RawMessage)
    (sender : ι) : Prop :=
  ∃ bytes address, kernel.Took bytes address ∧ bytes.length = size ∧
    RawMessage.deserialize bytes = some msg ∧ identifier? address = some sender

/-! ### All or nothing -/

/-- The call writes these two objects, whatever the variables held. -/
def Stores (call : Slots ι → Option (Int × Slots ι)) (msg : RawMessage) (sender : ι) : Prop :=
  ∀ slots, (call slots).map Prod.snd = some { msg := some msg, sender := some sender }

structure AllOrNothing (identifier? : α → Option ι) (kernel : Kernel α)
    (call : Slots ι → Option (Int × Slots ι)) : Prop where
  defined : ∀ slots, (call slots).isSome = true
  positive_iff : ∀ slots ret after, call slots = some (ret, after) →
    (0 < ret ↔ ∃ msg sender, Stores call msg sender)
  stored : ∀ slots ret after, call slots = some (ret, after) → 0 < ret →
    ∃ (size : Nat) (msg : RawMessage) (sender : ι), ret = size ∧ 4 ≤ size ∧
      kernel.Gave identifier? size msg sender ∧ Stores call msg sender
  untouched : ∀ slots ret after, call slots = some (ret, after) → ret ≤ 0 → after = slots

theorem receiveInto_allOrNothing_iff {identifier? : α → Option ι} {identifier : α → ι}
    {kind : α → Prop} (decodes : Decodes identifier? identifier kind) (fd : Int)
    (kernel : Kernel α) :
    AllOrNothing identifier? kernel (receiveInto identifier? fd .both kernel) ↔
      kernel.Reports fd kind := by
  constructor
  · intro whole
    by_contra past
    have defined := whole.defined .empty
    rw [receiveInto_past decodes past] at defined
    cases defined
  · intro reports
    rcases receiveInto_cases identifier? identifier fd kernel with
      ⟨bytes, address, msg, opened, took, decoded, -, gives⟩ | ⟨code, notPositive, -, -, gives⟩
    · have inside := decodes.inside address (reports opened bytes address took)
      rw [inside] at gives
      have stores : Stores (receiveInto identifier? fd .both kernel) msg (identifier address) := by
        intro slots
        rw [gives]
        rfl
      refine ⟨fun slots => by rw [gives]; rfl, fun slots ret after gave => ?_,
        fun slots ret after gave _ => ?_, fun slots ret after gave failed => ?_⟩ <;>
        rw [gives] at gave <;> cases gave
      · exact ⟨fun _ => ⟨msg, identifier address, stores⟩, fun _ => took.positive⟩
      · exact ⟨bytes.length, msg, identifier address, rfl, took.header,
          ⟨bytes, address, took, rfl, decoded, inside⟩, stores⟩
      · exact absurd took.positive (Int.not_lt.mpr failed)
    · refine ⟨fun slots => by rw [gives]; rfl, fun slots ret after gave => ?_,
        fun slots ret after gave positive => ?_, fun slots ret after gave _ => ?_⟩ <;>
        rw [gives] at gave <;> cases gave
      · refine ⟨fun positive => by omega, ?_⟩
        rintro ⟨msg, sender, stores⟩
        have wrote := stores .empty
        rw [gives] at wrote
        cases wrote
      · omega
      · rfl

end LinxIpc
