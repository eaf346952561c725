import LinxIpc.Wire.RoundTrip

/-!
`MyMessage::fromRawMessage` on datagrams from any sender.

The payload lies somewhere in memory, and `getPayloadAs<Data>()` is a pointer to
its first byte.  What lies behind the payload is not known.
-/

namespace LinxIpc

abbrev Memory := Nat → UInt8

def Memory.Holds (memory : Memory) (address : Nat) (bytes : List UInt8) : Prop :=
  ∀ index byte, bytes[index]? = some byte → memory (address + index) = byte

/-- A payload in memory, and any byte at all wherever the payload is not. -/
def Memory.filled (bytes : List UInt8) (rest : UInt8) : Memory := fun address =>
  bytes[address]?.getD rest

theorem Memory.filled_holds (bytes : List UInt8) (rest : UInt8) :
    (Memory.filled bytes rest).Holds 0 bytes := by
  intro index byte present
  rw [filled, Nat.zero_add, present, Option.getD_some]

theorem Memory.Holds.get {memory : Memory} {address : Nat} {bytes : List UInt8}
    (holds : memory.Holds address bytes) {index : Nat} (inside : index < bytes.length) :
    memory (address + index) = bytes[index] :=
  holds index bytes[index] (List.getElem?_eq_getElem inside)

namespace MyMessage

/-- `fromRawMessage` with the payload at the address `data`: it copies the eight
bytes of `Data` and never returns null. -/
def fromRawMessageAt (endian : Endian) (memory : Memory) (data : Nat) (reqId : UInt32) :
    Option MyMessage :=
  some
    { reqId := reqId
      value := ntohl (memory data) (memory (data + 1)) (memory (data + 2)) (memory (data + 3))
      temperature := endian.load (memory (data + 4)) (memory (data + 5)) (memory (data + 6))
        (memory (data + 7)) }

/-- What comes out is the same wherever the payload lies and whatever lies
around it. -/
def ReadsPayloadOnly (endian : Endian) (rawMsg : RawMessage) : Prop :=
  ∀ (memory other : Memory) (data elsewhere : Nat), memory.Holds data rawMsg.payload →
    other.Holds elsewhere rawMsg.payload →
      fromRawMessageAt endian memory data rawMsg.reqId =
        fromRawMessageAt endian other elsewhere rawMsg.reqId

/-- A message comes out of a whole `Data` only. -/
def YieldsWholeOnly (endian : Endian) (rawMsg : RawMessage) : Prop :=
  ∀ (memory : Memory) (data : Nat), memory.Holds data rawMsg.payload →
    (fromRawMessageAt endian memory data rawMsg.reqId).isSome = true →
      8 ≤ rawMsg.payload.length

end MyMessage

theorem Endian.load_inj (self : Endian) {a b c d a' b' c' d' : UInt8}
    (same : self.load a b c d = self.load a' b' c' d') : d = d' := by
  cases self with
  | big =>
      have bytes := congrArg htonl same
      simp only [load, htonl_ntohl, List.cons.injEq] at bytes
      exact bytes.2.2.2.1
  | little =>
      have bytes := congrArg htonl same
      simp only [load, htonl_ntohl, List.cons.injEq] at bytes
      exact bytes.1

namespace MyMessage

theorem fromRawMessageAt_whole {endian : Endian} {rawMsg : RawMessage} {memory : Memory}
    {data : Nat} (holds : memory.Holds data rawMsg.payload) (whole : 8 ≤ rawMsg.payload.length) :
    fromRawMessageAt endian memory data rawMsg.reqId = fromRawMessage endian rawMsg := by
  obtain ⟨reqId, payload⟩ := rawMsg
  match payload with
  | v₀ :: v₁ :: v₂ :: v₃ :: t₀ :: t₁ :: t₂ :: t₃ :: rest =>
      have first : memory data = v₀ := holds 0 v₀ rfl
      simp only [fromRawMessageAt, fromRawMessage, first, holds 1 v₁ rfl, holds 2 v₂ rfl,
        holds 3 v₃ rfl, holds 4 t₀ rfl, holds 5 t₁ rfl, holds 6 t₂ rfl, holds 7 t₃ rfl]
  | [] | [_] | [_, _] | [_, _, _] | [_, _, _, _] | [_, _, _, _, _] | [_, _, _, _, _, _]
  | [_, _, _, _, _, _, _] => simp at whole

theorem readsPayloadOnly_iff (endian : Endian) (rawMsg : RawMessage) :
    ReadsPayloadOnly endian rawMsg ↔ 8 ≤ rawMsg.payload.length := by
  constructor
  · intro readsOnly
    refine Nat.not_lt.mp ?_
    intro short
    -- the last byte of `Data` is not in the payload, so it can be 0 or 1
    have same := readsOnly _ _ 0 0 (Memory.filled_holds rawMsg.payload 0)
      (Memory.filled_holds rawMsg.payload 1)
    have missing : rawMsg.payload[7]? = none := List.getElem?_eq_none (by omega)
    have last := endian.load_inj (congrArg temperature (Option.some.inj same))
    simp [Memory.filled, missing] at last
  · intro whole memory other data elsewhere holds holdsToo
    rw [fromRawMessageAt_whole holds whole, fromRawMessageAt_whole holdsToo whole]

theorem yieldsWholeOnly_iff (endian : Endian) (rawMsg : RawMessage) :
    YieldsWholeOnly endian rawMsg ↔ 8 ≤ rawMsg.payload.length := by
  constructor
  · intro yields
    exact yields _ 0 (Memory.filled_holds rawMsg.payload 0) rfl
  · intro whole memory data _ _
    exact whole

/-- For which of the datagrams that `RawMessage::deserialize` accepts
`fromRawMessage` is safe. -/
theorem fromRawMessage_safe_iff (endian : Endian) {bytes : List UInt8} {rawMsg : RawMessage}
    (accepted : RawMessage.deserialize bytes = some rawMsg) :
    (ReadsPayloadOnly endian rawMsg ↔ 12 ≤ bytes.length) ∧
      (YieldsWholeOnly endian rawMsg ↔ 12 ≤ bytes.length) := by
  have length : bytes.length = rawMsg.payload.length + 4 := by
    rw [← RawMessage.htonl_of_deserialize accepted, List.length_append, htonl_length, Nat.add_comm]
  have whole : 8 ≤ rawMsg.payload.length ↔ 12 ≤ bytes.length := by omega
  rw [readsPayloadOnly_iff, yieldsWholeOnly_iff]
  exact ⟨whole, whole⟩

theorem fromRawMessage_safe_twelve_bytes :
    (ReadsPayloadOnly .little { reqId := 9, payload := [0, 0, 0, 5, 0, 0, 192, 65] } ↔
        12 ≤ ([0, 0, 0, 9, 0, 0, 0, 5, 0, 0, 192, 65] : List UInt8).length) ∧
      (YieldsWholeOnly .little { reqId := 9, payload := [0, 0, 0, 5, 0, 0, 192, 65] } ↔
        12 ≤ ([0, 0, 0, 9, 0, 0, 0, 5, 0, 0, 192, 65] : List UInt8).length) :=
  @fromRawMessage_safe_iff .little [0, 0, 0, 9, 0, 0, 0, 5, 0, 0, 192, 65] _ rfl

/-- A datagram that is only a header becomes a message made of what lies behind
the empty payload. -/
theorem header_only_reads_outside :
    RawMessage.deserialize [0, 0, 0, 9] = some { reqId := 9, payload := [] } ∧
      ¬ ReadsPayloadOnly .little { reqId := 9, payload := [] } ∧
      ¬ YieldsWholeOnly .little { reqId := 9, payload := [] } ∧
      fromRawMessageAt .little (fun _ => 0) 0 9 =
        some { reqId := 9, value := 0, temperature := 0 } ∧
      fromRawMessageAt .little (fun _ => 1) 0 9 =
        some { reqId := 9, value := 16843009, temperature := 16843009 } := by
  refine ⟨rfl, ?_, ?_, rfl, rfl⟩
  · rw [readsPayloadOnly_iff]
    decide
  · rw [yieldsWholeOnly_iff]
    decide

end MyMessage

end LinxIpc
