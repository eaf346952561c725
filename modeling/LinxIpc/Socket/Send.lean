import LinxIpc.Udp.Sockets
import LinxIpc.Unix.Sockets
import LinxIpc.Wire.RoundTrip

/-!
Messages of every size.

`getPayloadSize` and `getSize` keep 32 bits of a size, while the payload is
copied with all its bytes.  The array that a caller of `serialize` passes is the
one with the indices below `bufferSize`.
-/

namespace LinxIpc

/-- A message with the array that `send` serializes it into, which is not
initialised. -/
structure Prepared where
  msg : RawMessage
  buffer : List UInt8
  small : msg.payload.length + 4 < 4294967296
  size : buffer.length = msg.toIMessage.getSize.toNat

/-! ### Sizes that do not fit -/

namespace IMessage

variable {self : IMessage} {payload buffer : List UInt8} {bufferSize : UInt32}

theorem getSize_mod (encodes : self.Encodes payload) :
    self.getSize.toNat = (payload.length + 4) % 4294967296 := by
  have four : (4 : UInt32).toNat = 4 := rfl
  rw [IMessage.getSize, encodes.size, UInt32.toNat_add, UInt32.toNat_ofNat', four]
  omega

theorem serialize_short (encodes : self.Encodes payload)
    (short : bufferSize.toNat < (payload.length + 4) % 4294967296) :
    self.serialize buffer bufferSize = some (buffer, 0) := by
  have less : bufferSize < self.getSize := by
    rw [UInt32.lt_iff_toNat_lt, getSize_mod encodes]
    exact short
  simp only [serialize, if_pos less]

/-- The size that is left of a message of 4 GiB or more passes the test, and the
copy of the payload leaves the array. -/
theorem serialize_escapes (encodes : self.Encodes payload)
    (size : buffer.length = bufferSize.toNat) (large : 4294967296 ≤ payload.length + 4)
    (passes : (payload.length + 4) % 4294967296 ≤ bufferSize.toNat) :
    self.serialize buffer bufferSize = none := by
  have enough : ¬ bufferSize < self.getSize := by
    rw [UInt32.lt_iff_toNat_lt, getSize_mod encodes]
    exact Nat.not_lt.mpr passes
  have bound : bufferSize.toNat < 4294967296 := bufferSize.toNat_lt
  simp only [serialize, if_neg enough]
  cases header : Buffer.write buffer 0 (htonl self.reqId) with
  | none => rfl
  | some written =>
      have same := Buffer.length_write header
      have outside : Buffer.write written 4 payload = none := by
        rw [← Option.not_isSome_iff_eq_none, Buffer.write_isSome_iff]
        omega
      simp only [encodes.writes, outside, Option.map_none]

/-- A caller of `serialize` is told of the whole message if the array holds it
and of nothing otherwise, and nothing is stored outside the array. -/
def RespectsBuffer (self : IMessage) (payload buffer : List UInt8) (bufferSize : UInt32) : Prop :=
  ∃ written value, self.serialize buffer bufferSize = some (written, value) ∧
    (value ≠ 0 ↔ payload.length + 4 ≤ bufferSize.toNat) ∧
    (value ≠ 0 → value.toNat = payload.length + 4)

theorem respectsBuffer_fits (encodes : self.Encodes payload)
    (size : buffer.length = bufferSize.toNat) (fits : payload.length + 4 ≤ bufferSize.toNat) :
    self.RespectsBuffer payload buffer bufferSize := by
  have bound : bufferSize.toNat < 4294967296 := bufferSize.toNat_lt
  have serialized := serialize_encodes encodes (by omega) (show buffer.length < 4294967296 by omega)
  have sameSize : UInt32.ofNat buffer.length = bufferSize := by
    rw [size, UInt32.ofNat_toNat]
  have value : (UInt32.ofNat (payload.length + 4)).toNat = payload.length + 4 := by
    rw [UInt32.toNat_ofNat']
    omega
  rw [sameSize] at serialized
  refine ⟨_, _, serialized, iff_of_true ?_ fits, fun _ => value⟩
  intro zero
  rw [zero] at value
  cases value

theorem respectsBuffer_iff (encodes : self.Encodes payload)
    (size : buffer.length = bufferSize.toNat) :
    self.RespectsBuffer payload buffer bufferSize ↔
      payload.length + 4 < 4294967296 ∨
        bufferSize.toNat < (payload.length + 4) % 4294967296 := by
  have bound : bufferSize.toNat < 4294967296 := bufferSize.toNat_lt
  by_cases short : bufferSize.toNat < (payload.length + 4) % 4294967296
  · refine iff_of_true ?_ (.inr short)
    have outside : ¬ payload.length + 4 ≤ bufferSize.toNat := by omega
    exact ⟨buffer, 0, serialize_short encodes short, iff_of_false (by decide) outside,
      fun nonzero => absurd rfl nonzero⟩
  · by_cases small : payload.length + 4 < 4294967296
    · rw [Nat.mod_eq_of_lt small] at short
      exact iff_of_true (respectsBuffer_fits encodes size (Nat.not_lt.mp short)) (.inl small)
    · refine iff_of_false ?_ (fun either => either.elim small short)
      rintro ⟨written, value, serialized, -⟩
      rw [serialize_escapes encodes size (Nat.not_lt.mp small) (Nat.not_lt.mp short)] at serialized
      cases serialized

end IMessage

/-! ### Sending -/

/-- However the kernel answers, a `send` has a result, and if that is 0 then the kernel
was given all these bytes.  The array that `send` makes on the stack is taken to fit
there. -/
def HandsWhole {γ : Type} (send : (List UInt8 → γ → Option Nat) → Option Int)
    (bytes : List UInt8) : Prop :=
  ∀ sendto, ∃ code, send sendto = some code ∧
    (code = 0 → ∃ peer len, sendto bytes peer = some len ∧
      len % 4294967296 = bytes.length)

theorem IMessage.serialize_whole {self : IMessage} {payload buffer : List UInt8}
    (encodes : self.Encodes payload) (small : payload.length + 4 < 4294967296)
    (size : buffer.length = self.getSize.toNat) :
    ∃ result, self.serialize buffer self.getSize = some (htonl self.reqId ++ payload, result) ∧
      (htonl self.reqId ++ payload).length = result.toNat ∧ result ≠ 0 := by
  obtain ⟨same, value⟩ := IMessage.getSize_toNat encodes small
  rw [value] at size
  have serialized := IMessage.serialize_encodes encodes (show _ ≤ buffer.length by omega)
    (show buffer.length < 4294967296 by omega)
  have nothing : buffer.drop (payload.length + 4) = [] := List.drop_eq_nil_of_le (by omega)
  rw [nothing, List.append_nil, size, ← same] at serialized
  refine ⟨_, serialized, ?_, ?_⟩
  · rw [value, List.length_append, htonl_length, Nat.add_comm]
  · intro zero
    rw [zero] at value
    cases value

theorem IMessage.serialize_own_large {self : IMessage} {payload buffer : List UInt8}
    (encodes : self.Encodes payload) (large : 4294967296 ≤ payload.length + 4)
    (size : buffer.length = self.getSize.toNat) :
    self.serialize buffer self.getSize = none :=
  serialize_escapes encodes size large (Nat.le_of_eq (getSize_mod encodes).symm)

section HandsWhole

variable {γ : Type} {send : (List UInt8 → γ → Option Nat) → Option Int} {bytes : List UInt8}

theorem handsWhole_closed (closed : ∀ sendto, send sendto = some (-1)) (bytes : List UInt8) :
    HandsWhole send bytes := by
  intro sendto
  refine ⟨-1, closed sendto, ?_⟩
  intro zero
  cases zero

theorem not_handsWhole_of_none (escapes : ∀ sendto, send sendto = none) (bytes : List UInt8) :
    ¬ HandsWhole send bytes := by
  intro hands
  obtain ⟨code, sent, -⟩ := hands (fun _ _ => none)
  rw [escapes] at sent
  cases sent

theorem counted_whole {result : UInt32} (length : bytes.length = result.toNat)
    {sendto : List UInt8 → γ → Option Nat} {peer : γ} {len : Nat}
    (handed : sendto bytes peer = some len) {cut : Int} (cutNonzero : cut ≠ 0) :
    ∃ code, Option.map Prod.fst
        (if UInt32.ofNat len ≠ result then some (cut, ()) else some (0, ())) = some code ∧
      (code = 0 → ∃ peer len, sendto bytes peer = some len ∧ len % 4294967296 = bytes.length) := by
  by_cases same : UInt32.ofNat len = result
  · rw [if_neg (not_not.mpr same)]
    refine ⟨0, rfl, fun _ => ⟨peer, len, handed, ?_⟩⟩
    rw [length, ← same, UInt32.toNat_ofNat']
  · rw [if_pos same]
    exact ⟨cut, rfl, fun zero => absurd zero cutNonzero⟩

end HandsWhole

theorem AfUnixSocket.send_handsWhole_iff (self : AfUnixSocket) {message : IMessage}
    {payload : List UInt8} (encodes : message.Encodes payload) (dest : UnixInfo)
    {buffer : List UInt8} (size : buffer.length = message.getSize.toNat) :
    HandsWhole (self.send message dest buffer) (htonl message.reqId ++ payload) ↔
      self.fd < 0 ∨ (payload.length + 4 < 4294967296 ∧ dest.value.length ≤ 107) := by
  by_cases closed : self.fd < 0
  · exact iff_of_true (handsWhole_closed (send_closed closed message dest buffer) _) (.inl closed)
  rw [or_iff_right closed]
  by_cases small : payload.length + 4 < 4294967296
  · obtain ⟨result, serialized, length, nonzero⟩ := IMessage.serialize_whole encodes small size
    rw [and_iff_right small]
    constructor
    · intro hands
      obtain ⟨code, sent, -⟩ := hands (fun _ _ => none)
      have opened : 0 ≤ self.fd := Int.not_lt.mp closed
      exact (send_isSome_iff opened serialized nonzero dest _).mp (by rw [sent]; rfl)
    · intro fits sendto
      obtain ⟨created, address⟩ := Option.isSome_iff_exists.mp
        ((createAddress_isSome_iff zero_length dest.value).mpr fits)
      have whole := List.take_of_length_le (Nat.le_of_eq length)
      simp only [send, sendOn, if_neg closed, serialized, if_neg nonzero, address, whole]
      cases handed : sendto (htonl message.reqId ++ payload)
        (nameBytes created.1 created.2) with
      | none => exact ⟨-3, rfl, fun zero => by cases zero⟩
      | some len => exact counted_whole length handed (by decide)
  · refine iff_of_false ?_ (fun both => small both.1)
    have escapes := IMessage.serialize_own_large encodes (Nat.not_lt.mp small) size
    refine not_handsWhole_of_none ?_ _
    intro sendto
    simp only [send, sendOn, if_neg closed, escapes, Option.map_none]

theorem UdpSocket.send_handsWhole_iff (self : UdpSocket) {message : IMessage}
    {payload : List UInt8} (encodes : message.Encodes payload) (dest : PortInfo)
    {buffer : List UInt8} (size : buffer.length = message.getSize.toNat) :
    HandsWhole (self.send message dest buffer) (htonl message.reqId ++ payload) ↔
      self.fd < 0 ∨ payload.length + 4 < 4294967296 := by
  by_cases closed : self.fd < 0
  · exact iff_of_true (handsWhole_closed (send_closed closed message dest buffer) _) (.inl closed)
  rw [or_iff_right closed]
  by_cases small : payload.length + 4 < 4294967296
  · obtain ⟨result, serialized, length, nonzero⟩ := IMessage.serialize_whole encodes small size
    refine iff_of_true ?_ small
    intro sendto
    have whole := List.take_of_length_le (Nat.le_of_eq length)
    simp only [send, sendOn, if_neg closed, serialized, if_neg nonzero, whole]
    cases inetPton dest.ip with
    | none => exact ⟨-3, rfl, fun zero => by cases zero⟩
    | some number =>
        simp only
        cases handed : sendto (htonl message.reqId ++ payload)
          { sinAddr := inAddr number, sinPort := htons dest.port } with
        | none => exact ⟨-4, rfl, fun zero => by cases zero⟩
        | some len => exact counted_whole length handed (by decide)
  · refine iff_of_false ?_ small
    have escapes := IMessage.serialize_own_large encodes (Nat.not_lt.mp small) size
    refine not_handsWhole_of_none ?_ _
    intro sendto
    simp only [send, sendOn, if_neg closed, escapes, Option.map_none]

/-- For which sizes `serialize` keeps to its array and tells the truth, and for
which messages a `send` that returns 0 has handed over all of the message. -/
theorem serialize_respects_buffer_iff (msg : RawMessage) :
    (∀ (buffer : List UInt8) (bufferSize : UInt32), buffer.length = bufferSize.toNat →
      (msg.toIMessage.RespectsBuffer msg.payload buffer bufferSize ↔
        msg.payload.length + 4 < 4294967296 ∨
          bufferSize.toNat < (msg.payload.length + 4) % 4294967296)) ∧
      ∀ buffer : List UInt8, buffer.length = msg.toIMessage.getSize.toNat →
        (∀ (self : AfUnixSocket) (dest : UnixInfo),
          HandsWhole (self.send msg.toIMessage dest buffer) (htonl msg.reqId ++ msg.payload) ↔
            self.fd < 0 ∨ (msg.payload.length + 4 < 4294967296 ∧ dest.value.length ≤ 107)) ∧
        ∀ (self : UdpSocket) (dest : PortInfo),
          HandsWhole (self.send msg.toIMessage dest buffer) (htonl msg.reqId ++ msg.payload) ↔
            self.fd < 0 ∨ msg.payload.length + 4 < 4294967296 := by
  refine ⟨?_, fun buffer size => ⟨?_, ?_⟩⟩
  · intro buffer bufferSize size
    exact IMessage.respectsBuffer_iff msg.encodes size
  · intro self dest
    exact self.send_handsWhole_iff msg.encodes dest size
  · intro self dest
    exact self.send_handsWhole_iff msg.encodes dest size

theorem serialize_respects_buffer_three_bytes :
    ((RawMessage.toIMessage { reqId := 258, payload := [7, 8, 9] }).RespectsBuffer [7, 8, 9]
        [255, 255, 255, 255, 255] 5 ↔ 3 + 4 < 4294967296 ∨ 5 < (3 + 4) % 4294967296) ∧
      (HandsWhole (AfUnixSocket.send { fd := 3, address := .zero, socketName := [] }
          (RawMessage.toIMessage { reqId := 258, payload := [7, 8, 9] })
          { value := ofAscii "MyServer" } [0, 0, 0, 0, 0, 0, 0]) [0, 0, 1, 2, 7, 8, 9] ↔
        (3 : Int) < 0 ∨ (3 + 4 < 4294967296 ∧ (ofAscii "MyServer").length ≤ 107)) ∧
      (HandsWhole (UdpSocket.send { fd := 3 }
          (RawMessage.toIMessage { reqId := 258, payload := [7, 8, 9] })
          (.create (ofAscii "127.0.0.1") 9) [0, 0, 0, 0, 0, 0, 0]) [0, 0, 1, 2, 7, 8, 9] ↔
        (3 : Int) < 0 ∨ 3 + 4 < 4294967296) :=
  have sends := (serialize_respects_buffer_iff { reqId := 258, payload := [7, 8, 9] }).2
    [0, 0, 0, 0, 0, 0, 0] (by decide)
  ⟨(serialize_respects_buffer_iff { reqId := 258, payload := [7, 8, 9] }).1
      [255, 255, 255, 255, 255] 5 (by decide),
    sends.1 { fd := 3, address := .zero, socketName := [] } { value := ofAscii "MyServer" },
    sends.2 { fd := 3 } (.create (ofAscii "127.0.0.1") 9)⟩

/-- A payload of 4 GiB is taken for an empty one: `serialize` leaves an array of
four bytes, and so does `send`. -/
theorem four_gigabytes_escape :
    ¬ (RawMessage.toIMessage { reqId := 7, payload := List.replicate 4294967296 0 }).RespectsBuffer
        (List.replicate 4294967296 0) [0, 0, 0, 0] 4 ∧
      ¬ HandsWhole (AfUnixSocket.send { fd := 3, address := .zero, socketName := [] }
          (RawMessage.toIMessage { reqId := 7, payload := List.replicate 4294967296 0 })
          { value := ofAscii "MyServer" } [0, 0, 0, 0])
        (htonl 7 ++ List.replicate 4294967296 0) := by
  have encodes := RawMessage.encodes { reqId := 7, payload := List.replicate 4294967296 0 }
  have length : (List.replicate 4294967296 (0 : UInt8)).length = 4294967296 :=
    List.length_replicate
  constructor
  · rw [IMessage.respectsBuffer_iff encodes rfl, length]
    decide
  · have size : ([0, 0, 0, 0] : List UInt8).length = (RawMessage.toIMessage
        { reqId := 7, payload := List.replicate 4294967296 0 }).getSize.toNat := by
      rw [IMessage.getSize_mod encodes, length]
      rfl
    intro hands
    have fits := (AfUnixSocket.send_handsWhole_iff _ encodes _ size).mp hands
    rw [length] at fits
    revert fits
    decide

end LinxIpc
