import LinxIpc.Buffer
import LinxIpc.Message

/-!
`IMessage` and its three kinds: `RawMessage`, `ILinxMessage<T>` and `MyMessage`.

A message of a type `T` is seen as the `k` bytes of its payload.  A caller of
`serialize` passes an array with its size; there is no result where the code
would write or read outside an array.
-/

namespace LinxIpc

/-! ### Byte order -/

/-- `htonl` followed by a copy of the four bytes of its result. -/
def htonl (value : UInt32) : List UInt8 :=
  [UInt8.ofNat (value.toNat / 2 ^ 24), UInt8.ofNat (value.toNat / 2 ^ 16),
    UInt8.ofNat (value.toNat / 2 ^ 8), UInt8.ofNat value.toNat]

@[simp]
theorem htonl_length (value : UInt32) : (htonl value).length = 4 := rfl

theorem ntohl_htonl (value : UInt32) :
    ntohl (UInt8.ofNat (value.toNat / 2 ^ 24)) (UInt8.ofNat (value.toNat / 2 ^ 16))
      (UInt8.ofNat (value.toNat / 2 ^ 8)) (UInt8.ofNat value.toNat) = value := by
  apply UInt32.toNat_inj.mp
  have bound : value.toNat < 4294967296 := value.toNat_lt
  simp only [ntohl, UInt32.toNat_ofNat', UInt8.toNat_ofNat', Nat.reducePow]
  omega

theorem htonl_ntohl (b₀ b₁ b₂ b₃ : UInt8) : htonl (ntohl b₀ b₁ b₂ b₃) = [b₀, b₁, b₂, b₃] := by
  have bound₀ : b₀.toNat < 256 := b₀.toNat_lt
  have bound₁ : b₁.toNat < 256 := b₁.toNat_lt
  have bound₂ : b₂.toNat < 256 := b₂.toNat_lt
  have bound₃ : b₃.toNat < 256 := b₃.toNat_lt
  have whole : (ntohl b₀ b₁ b₂ b₃).toNat =
      b₀.toNat * 16777216 + b₁.toNat * 65536 + b₂.toNat * 256 + b₃.toNat := by
    simp only [ntohl, UInt32.toNat_ofNat', Nat.reducePow]
    omega
  simp only [htonl, whole, Nat.reducePow, List.cons.injEq, and_true]
  refine ⟨?_, ?_, ?_, ?_⟩ <;>
    · apply UInt8.toNat_inj.mp
      rw [UInt8.toNat_ofNat']
      omega

inductive Endian where
  | little
  | big
  deriving DecidableEq

def Endian.store (self : Endian) (word : UInt32) : List UInt8 :=
  match self with
  | .big => htonl word
  | .little => (htonl word).reverse

def Endian.load (self : Endian) (b₀ b₁ b₂ b₃ : UInt8) : UInt32 :=
  match self with
  | .big => ntohl b₀ b₁ b₂ b₃
  | .little => ntohl b₃ b₂ b₁ b₀

/-! ### `IMessage` -/

structure IMessage where
  reqId : UInt32
  getPayloadSize : UInt32
  /-- Writes from the offset on; the size of what is left is passed beside it. -/
  serializePayload (buffer : List UInt8) (offset : Nat) (bufferSize : UInt32) :
    Option (List UInt8 × UInt32)

def IMessage.getSize (self : IMessage) : UInt32 := 4 + self.getPayloadSize

/-- The test of `ret` is made in `size_t`. -/
def IMessage.serialize (self : IMessage) (buffer : List UInt8) (bufferSize : UInt32) :
    Option (List UInt8 × UInt32) :=
  let totalSize := self.getSize
  if bufferSize < totalSize then some (buffer, 0)
  else
    match Buffer.write buffer 0 (htonl self.reqId) with
    | none => none
    | some buffer =>
        match self.serializePayload buffer 4 (bufferSize - 4) with
        | none => none
        | some (buffer, ret) =>
            some (buffer, if ret.toNat + 4 ≠ totalSize.toNat then 0 else totalSize)

/-! ### The kinds of messages -/

/-- `payload.size()` is cut down to 32 bits. -/
def RawMessage.toIMessage (self : RawMessage) : IMessage where
  reqId := self.reqId
  getPayloadSize := UInt32.ofNat self.payload.length
  serializePayload buffer offset _ :=
    (Buffer.write buffer offset self.payload).map
      (fun buffer => (buffer, UInt32.ofNat self.payload.length))

/-- `size` is `sizeof(T)`. -/
structure ILinxMessage (size : Nat) where
  reqId : UInt32
  payload : { bytes : List UInt8 // bytes.length = size }
  deriving DecidableEq

namespace ILinxMessage

def toIMessage {size : Nat} (self : ILinxMessage size) : IMessage where
  reqId := self.reqId
  getPayloadSize := UInt32.ofNat size
  serializePayload buffer offset _ :=
    (Buffer.write buffer offset self.payload.val).map (fun buffer => (buffer, UInt32.ofNat size))

def deserialize (size : Nat) (buffer : List UInt8) (bufferSize : UInt32) :
    Option (Option (ILinxMessage size)) :=
  if bufferSize.toNat < 4 + size then some none
  else
    match buffer with
    | b₀ :: b₁ :: b₂ :: b₃ :: rest =>
        if whole : size ≤ rest.length then
          some (some
            { reqId := ntohl b₀ b₁ b₂ b₃
              payload := ⟨rest.take size, List.length_take_of_le whole⟩ })
        else none
    | _ => none

end ILinxMessage

/-- `value` and `temperature` are the bits of the `int` and of the `float`. -/
structure MyMessage where
  reqId : UInt32
  value : UInt32
  temperature : UInt32
  deriving DecidableEq

namespace MyMessage

/-- The object `data` in memory: eight bytes, without padding. -/
def data (endian : Endian) (self : MyMessage) : List UInt8 :=
  htonl self.value ++ endian.store self.temperature

def toIMessage (endian : Endian) (self : MyMessage) : IMessage where
  reqId := self.reqId
  getPayloadSize := 8
  serializePayload buffer offset _ :=
    (Buffer.write buffer offset (self.data endian)).map (fun buffer => (buffer, 8))

/-- The payload is read as `Data` without a look at its size. -/
def fromRawMessage (endian : Endian) (rawMsg : RawMessage) : Option MyMessage :=
  match rawMsg.payload with
  | v₀ :: v₁ :: v₂ :: v₃ :: t₀ :: t₁ :: t₂ :: t₃ :: _ =>
      some
        { reqId := rawMsg.reqId
          value := ntohl v₀ v₁ v₂ v₃
          temperature := endian.load t₀ t₁ t₂ t₃ }
  | _ => none

end MyMessage

end LinxIpc
