import LinxIpc.Wire.Message

/-!
The encoders and decoders of the three kinds of messages are inverse.
-/

namespace LinxIpc

/-! ### What `serialize` writes -/

/-- The payload encoder writes these bytes, whose number it returns. -/
structure IMessage.Encodes (message : IMessage) (payload : List UInt8) : Prop where
  size : message.getPayloadSize = UInt32.ofNat payload.length
  writes : ∀ buffer offset bufferSize, message.serializePayload buffer offset bufferSize =
    (Buffer.write buffer offset payload).map
      (fun buffer => (buffer, UInt32.ofNat payload.length))

theorem IMessage.getSize_toNat {self : IMessage} {payload : List UInt8}
    (encodes : self.Encodes payload) (bound : payload.length + 4 < 4294967296) :
    self.getSize = UInt32.ofNat (payload.length + 4) ∧
      self.getSize.toNat = payload.length + 4 := by
  have value : self.getSize.toNat = payload.length + 4 := by
    have four : (4 : UInt32).toNat = 4 := rfl
    rw [IMessage.getSize, encodes.size, UInt32.toNat_add, UInt32.toNat_ofNat', four]
    omega
  refine ⟨UInt32.toNat_inj.mp ?_, value⟩
  rw [value, UInt32.toNat_ofNat']
  omega

theorem IMessage.serialize_encodes {self : IMessage} {payload : List UInt8}
    (encodes : self.Encodes payload) {buffer : List UInt8}
    (fits : payload.length + 4 ≤ buffer.length) (bound : buffer.length < 4294967296) :
    self.serialize buffer (UInt32.ofNat buffer.length) =
      some (htonl self.reqId ++ payload ++ buffer.drop (payload.length + 4),
        UInt32.ofNat (payload.length + 4)) := by
  obtain ⟨same, value⟩ := IMessage.getSize_toNat encodes (by omega)
  have enough : ¬ UInt32.ofNat buffer.length < self.getSize := by
    rw [UInt32.lt_iff_toNat_lt, value, UInt32.toNat_ofNat']
    omega
  have returned : ¬ (UInt32.ofNat payload.length).toNat + 4 ≠ self.getSize.toNat := by
    rw [value, UInt32.toNat_ofNat']
    omega
  have header : Buffer.write buffer 0 (htonl self.reqId) =
      some (htonl self.reqId ++ buffer.drop 4) :=
    Buffer.write_zero (by rw [htonl_length]; omega)
  have body : Buffer.write (htonl self.reqId ++ buffer.drop 4) 4 payload =
      some (htonl self.reqId ++ payload ++ (buffer.drop 4).drop payload.length) :=
    Buffer.write_next (by rw [List.length_drop]; omega)
  simp only [IMessage.serialize, if_neg enough, header, encodes.writes, body, Option.map_some,
    if_neg returned]
  rw [same, List.drop_drop, Nat.add_comm 4]

theorem RawMessage.encodes (self : RawMessage) : self.toIMessage.Encodes self.payload :=
  ⟨rfl, fun _ _ _ => rfl⟩

theorem ILinxMessage.encodes {size : Nat} (self : ILinxMessage size) :
    self.toIMessage.Encodes self.payload.val := by
  constructor
  · rw [self.payload.property]
    rfl
  · intro buffer offset bufferSize
    rw [self.payload.property]
    rfl

theorem Endian.store_length (self : Endian) (word : UInt32) : (self.store word).length = 4 := by
  cases self <;> rfl

theorem MyMessage.data_length (self : MyMessage) (endian : Endian) :
    (self.data endian).length = 8 := by
  rw [MyMessage.data, List.length_append, htonl_length, Endian.store_length]

theorem MyMessage.encodes (self : MyMessage) (endian : Endian) :
    (self.toIMessage endian).Encodes (self.data endian) := by
  constructor
  · rw [self.data_length]
    rfl
  · intro buffer offset bufferSize
    rw [self.data_length]
    rfl

/-! ### Decoding -/

theorem RawMessage.deserialize_htonl (reqId : UInt32) (payload : List UInt8) :
    RawMessage.deserialize (htonl reqId ++ payload) =
      some { reqId := reqId, payload := payload } := by
  simp only [htonl, List.cons_append, List.nil_append, RawMessage.deserialize, ntohl_htonl]

theorem RawMessage.htonl_of_deserialize {bytes : List UInt8} {msg : RawMessage}
    (decoded : RawMessage.deserialize bytes = some msg) :
    htonl msg.reqId ++ msg.payload = bytes := by
  match bytes, decoded with
  | b₀ :: b₁ :: b₂ :: b₃ :: payload, rfl =>
      simp only [htonl_ntohl, List.cons_append, List.nil_append]

theorem Endian.load_store (self : Endian) (word : UInt32) :
    ∃ b₀ b₁ b₂ b₃, self.store word = [b₀, b₁, b₂, b₃] ∧ self.load b₀ b₁ b₂ b₃ = word := by
  cases self with
  | big => exact ⟨_, _, _, _, rfl, ntohl_htonl word⟩
  | little => exact ⟨_, _, _, _, rfl, ntohl_htonl word⟩

theorem MyMessage.fromRawMessage_data (self : MyMessage) (endian : Endian) :
    MyMessage.fromRawMessage endian
      { reqId := self.reqId, payload := self.data endian } = some self := by
  obtain ⟨t₀, t₁, t₂, t₃, stored, loaded⟩ := endian.load_store self.temperature
  simp only [MyMessage.data, stored, htonl, List.cons_append, List.nil_append,
    MyMessage.fromRawMessage, ntohl_htonl, loaded]

theorem ILinxMessage.deserialize_of_raw {size : Nat} {bytes : List UInt8} {raw : RawMessage}
    (decoded : RawMessage.deserialize bytes = some raw) (long : 4 + size ≤ bytes.length)
    (bound : bytes.length < 4294967296) :
    ∃ msg, ILinxMessage.deserialize size bytes (UInt32.ofNat bytes.length) = some (some msg) ∧
      msg.reqId = raw.reqId ∧ msg.payload.val = raw.payload.take size := by
  have enough : ¬ (UInt32.ofNat bytes.length).toNat < 4 + size := by
    rw [UInt32.toNat_ofNat']
    omega
  match bytes, decoded with
  | b₀ :: b₁ :: b₂ :: b₃ :: payload, rfl =>
      simp only [List.length_cons] at long
      have whole : size ≤ payload.length := by omega
      simp only [ILinxMessage.deserialize, if_neg enough, dif_pos whole]
      exact ⟨_, rfl, rfl, rfl⟩

theorem ILinxMessage.deserialize_short {size : Nat} {bytes : List UInt8}
    (short : bytes.length < 4 + size) (bound : bytes.length < 4294967296) :
    ILinxMessage.deserialize size bytes (UInt32.ofNat bytes.length) = some none := by
  have notEnough : (UInt32.ofNat bytes.length).toNat < 4 + size := by
    rw [UInt32.toNat_ofNat']
    omega
  simp only [ILinxMessage.deserialize, if_pos notEnough]

/-! ### All kinds together -/

structure Serialized (message : IMessage) (payload buffer written : List UInt8) : Prop where
  returned : message.serialize buffer (UInt32.ofNat buffer.length) =
    some (written, UInt32.ofNat (payload.length + 4))
  length : written.length = buffer.length
  untouched : written.drop (payload.length + 4) = buffer.drop (payload.length + 4)
  bytes : written.take (payload.length + 4) = htonl message.reqId ++ payload

theorem IMessage.Encodes.serialized {message : IMessage} {payload : List UInt8}
    (encodes : message.Encodes payload) {buffer : List UInt8}
    (fits : payload.length + 4 ≤ buffer.length) (bound : buffer.length < 4294967296) :
    ∃ written, Serialized message payload buffer written ∧
      RawMessage.deserialize (written.take (payload.length + 4)) =
        some { reqId := message.reqId, payload := payload } := by
  have front : (htonl message.reqId ++ payload).length = payload.length + 4 := by
    rw [List.length_append, htonl_length, Nat.add_comm]
  have bytes : (htonl message.reqId ++ payload ++ buffer.drop (payload.length + 4)).take
      (payload.length + 4) = htonl message.reqId ++ payload := by
    rw [← front, List.take_left]
  refine ⟨_, ⟨IMessage.serialize_encodes encodes fits bound, ?_, ?_, bytes⟩, ?_⟩
  · rw [List.length_append, front, List.length_drop]
    omega
  · rw [← front, List.drop_left]
  · rw [bytes]
    exact RawMessage.deserialize_htonl message.reqId payload

theorem RawMessage.reserialized {bytes : List UInt8} {msg : RawMessage}
    (decoded : RawMessage.deserialize bytes = some msg) {buffer : List UInt8}
    (fits : bytes.length ≤ buffer.length) (bound : buffer.length < 4294967296) :
    ∃ written, msg.toIMessage.serialize buffer (UInt32.ofNat buffer.length) =
        some (written, UInt32.ofNat bytes.length) ∧ written.take bytes.length = bytes := by
  have whole := RawMessage.htonl_of_deserialize decoded
  have length : bytes.length = msg.payload.length + 4 := by
    rw [← whole, List.length_append, htonl_length, Nat.add_comm]
  rw [length] at fits ⊢
  obtain ⟨written, serialized, -⟩ := msg.encodes.serialized fits bound
  exact ⟨written, serialized.returned, serialized.bytes.trans whole⟩

theorem wire_round_trip :
    (∀ (msg : RawMessage) (buffer : List UInt8), msg.payload.length + 4 ≤ buffer.length →
      buffer.length < 4294967296 → ∃ written,
        Serialized msg.toIMessage msg.payload buffer written ∧
          RawMessage.deserialize (written.take (msg.payload.length + 4)) = some msg) ∧
      (∀ bytes : List UInt8, bytes.length < 4294967296 →
        (4 ≤ bytes.length → ∃ msg, RawMessage.deserialize bytes = some msg ∧
          ∀ buffer : List UInt8, bytes.length ≤ buffer.length → buffer.length < 4294967296 →
            ∃ written, msg.toIMessage.serialize buffer (UInt32.ofNat buffer.length) =
                some (written, UInt32.ofNat bytes.length) ∧
              written.take bytes.length = bytes) ∧
        (bytes.length < 4 → RawMessage.deserialize bytes = none)) ∧
      (∀ (size : Nat) (msg : ILinxMessage size) (buffer : List UInt8),
        size + 4 ≤ buffer.length → buffer.length < 4294967296 → ∃ written,
          Serialized msg.toIMessage msg.payload.val buffer written ∧
            RawMessage.deserialize (written.take (size + 4)) =
              some { reqId := msg.reqId, payload := msg.payload.val }) ∧
      (∀ (size : Nat) (bytes : List UInt8), bytes.length < 4294967296 →
        (4 + size ≤ bytes.length → ∃ (msg : ILinxMessage size) (raw : RawMessage),
          ILinxMessage.deserialize size bytes (UInt32.ofNat bytes.length) = some (some msg) ∧
            RawMessage.deserialize bytes = some raw ∧ msg.reqId = raw.reqId ∧
            msg.payload.val = raw.payload.take size) ∧
        (bytes.length < 4 + size →
          ILinxMessage.deserialize size bytes (UInt32.ofNat bytes.length) = some none)) ∧
      (∀ (endian : Endian) (msg : MyMessage) (buffer : List UInt8), 12 ≤ buffer.length →
        buffer.length < 4294967296 → ∃ written raw,
          Serialized (msg.toIMessage endian) (msg.data endian) buffer written ∧
            RawMessage.deserialize (written.take 12) = some raw ∧
            MyMessage.fromRawMessage endian raw = some msg) := by
  refine ⟨?_, ?_, ?_, ?_, ?_⟩
  · intro msg buffer fits bound
    exact msg.encodes.serialized fits bound
  · intro bytes bound
    refine ⟨fun header => ?_, (RawMessage.deserialize_eq_none_iff bytes).mpr⟩
    obtain ⟨msg, decoded⟩ :=
      Option.isSome_iff_exists.mp ((RawMessage.deserialize_isSome_iff bytes).mpr header)
    exact ⟨msg, decoded, fun buffer fits within => RawMessage.reserialized decoded fits within⟩
  · intro size msg buffer fits bound
    rw [← msg.payload.property] at fits
    obtain ⟨written, serialized, decoded⟩ := msg.encodes.serialized fits bound
    rw [msg.payload.property] at decoded
    exact ⟨written, serialized, decoded⟩
  · intro size bytes bound
    refine ⟨fun long => ?_, fun short => ILinxMessage.deserialize_short short bound⟩
    obtain ⟨raw, decoded⟩ := Option.isSome_iff_exists.mp
      ((RawMessage.deserialize_isSome_iff bytes).mpr (by omega))
    obtain ⟨msg, typed, sameId, samePayload⟩ :=
      ILinxMessage.deserialize_of_raw decoded long bound
    exact ⟨msg, raw, typed, decoded, sameId, samePayload⟩
  · intro endian msg buffer fits bound
    have size := msg.data_length endian
    obtain ⟨written, serialized, decoded⟩ :=
      (msg.encodes endian).serialized (by rw [size]; exact fits) bound
    rw [size] at decoded
    exact ⟨written, _, serialized, decoded, msg.fromRawMessage_data endian⟩

theorem wire_round_trip_samples :
    (∃ written, Serialized (RawMessage.toIMessage { reqId := 258, payload := [7, 8, 9] }) [7, 8, 9]
        (List.replicate 13 255) written ∧
      RawMessage.deserialize (written.take 7) = some { reqId := 258, payload := [7, 8, 9] }) ∧
      (∃ msg, RawMessage.deserialize [0, 0, 1, 2, 7] = some msg ∧
        ∀ buffer : List UInt8, 5 ≤ buffer.length → buffer.length < 4294967296 → ∃ written,
          msg.toIMessage.serialize buffer (UInt32.ofNat buffer.length) = some (written, 5) ∧
            written.take 5 = [0, 0, 1, 2, 7]) ∧
      (∃ written, Serialized (ILinxMessage.toIMessage { reqId := 3, payload := ⟨[7, 8], rfl⟩ }) [7, 8]
          (List.replicate 13 255) written ∧
        RawMessage.deserialize (written.take 6) = some { reqId := 3, payload := [7, 8] }) ∧
      (∃ (msg : ILinxMessage 2) (raw : RawMessage),
        ILinxMessage.deserialize 2 [0, 0, 1, 2, 7, 8, 9] 7 = some (some msg) ∧
          RawMessage.deserialize [0, 0, 1, 2, 7, 8, 9] = some raw ∧ msg.reqId = raw.reqId ∧
          msg.payload.val = raw.payload.take 2) ∧
      ∃ written raw, Serialized
          (MyMessage.toIMessage .little { reqId := 3, value := 5, temperature := 1103101952 })
          (MyMessage.data .little { reqId := 3, value := 5, temperature := 1103101952 })
          (List.replicate 13 255) written ∧
        RawMessage.deserialize (written.take 12) = some raw ∧
        MyMessage.fromRawMessage .little raw =
          some { reqId := 3, value := 5, temperature := 1103101952 } :=
  ⟨wire_round_trip.1 _ _ (by decide) (by decide),
    (wire_round_trip.2.1 [0, 0, 1, 2, 7] (by decide)).1 (by decide),
    wire_round_trip.2.2.1 2 _ _ (by decide) (by decide),
    (wire_round_trip.2.2.2.1 2 [0, 0, 1, 2, 7, 8, 9] (by decide)).1 (by decide),
    wire_round_trip.2.2.2.2 .little _ _ (by decide) (by decide)⟩

example : (RawMessage.toIMessage { reqId := 258, payload := [7, 8] }).serialize
    [255, 255, 255, 255, 255, 255, 255] 7 = some ([0, 0, 1, 2, 7, 8, 255], 6) := by
  decide

end LinxIpc
