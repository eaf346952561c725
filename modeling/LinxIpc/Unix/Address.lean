import LinxIpc.Buffer
import LinxIpc.Socket.Receive

/-!
Addresses of Unix sockets: `createAddress` writes a name into `sun_path`, and
`receive` reads one back.

The kernel knows an abstract socket by the bytes of `sun_path` that the length
of its address counts.
-/

namespace LinxIpc

/-- `sizeof(sockaddr_un::sun_path)`. -/
def sunPathSize : Nat := 108

def sockaddrUnSize : Nat := 2 + sunPathSize

def SockaddrUn.zero : SockaddrUn := { sunPath := List.replicate sunPathSize 0 }

/-- What `strncpy` copies: the bytes before the first NUL, and NULs after them. -/
def padded (name : StdString) : StdString :=
  cStr name ++ List.replicate (name.length - (cStr name).length) 0

/-- `strncpy(dest + offset, src, count)`, where the NUL after the string is not
copied since `count` is its length. -/
def strncpy (dest : List UInt8) (offset : Nat) (src : StdString) (count : Nat) :
    Option (List UInt8) :=
  Buffer.write dest offset (padded (src.take count))

namespace AfUnixSocket

/-- There is no result if the name is copied past the end of `sun_path`. -/
def createAddress (address : SockaddrUn) (name : StdString) : Option (SockaddrUn × Nat) :=
  (strncpy address.sunPath 1 name name.length).map fun sunPath =>
    ({ sunPath := sunPath }, 2 + name.length + 1)

/-- The bytes of an address that name its socket. -/
def nameBytes (address : SockaddrUn) (length : Nat) : List UInt8 := address.sunPath.take (length - 2)

/-- What `recvfrom` gives for a sender with this address, after `memset`. -/
def reported (address : SockaddrUn) (length : Nat) : SockaddrUn :=
  { sunPath := nameBytes address length ++
      List.replicate (sunPathSize - (nameBytes address length).length) 0 }

/-- `UnixInfo(&client_address.sun_path[1])`, which reads past the structure if
no NUL is left in it. -/
def identifier? (address : SockaddrUn) : Option UnixInfo :=
  if 0 ∈ address.sunPath.drop 1 then some (AfUnixSocket.identifier address) else none

end AfUnixSocket

/-! ### Strings with NULs -/

theorem cStr_cons (byte : UInt8) (rest : StdString) :
    cStr (byte :: rest) = if byte = 0 then [] else byte :: cStr rest := by
  by_cases zero : byte = 0
  · simp only [cStr, List.takeWhile_cons, zero, bne_self_eq_false, Bool.false_eq_true, if_false,
      if_true]
  · have nonzero : (byte != 0) = true := bne_iff_ne.mpr zero
    simp only [cStr, List.takeWhile_cons, nonzero, if_true, if_neg zero]

theorem cStr_cases (name : StdString) :
    (cStr name = name ∧ 0 ∉ name) ∨ ∃ rest, name = cStr name ++ 0 :: rest := by
  induction name with
  | nil => exact .inl ⟨rfl, List.not_mem_nil⟩
  | cons byte rest ih =>
      rw [cStr_cons]
      by_cases zero : byte = 0
      · rw [if_pos zero, zero]
        exact .inr ⟨rest, rfl⟩
      · rw [if_neg zero]
        rcases ih with ⟨same, noZero⟩ | ⟨more, split⟩
        · refine .inl ⟨by rw [same], ?_⟩
          rw [List.mem_cons, not_or]
          exact ⟨Ne.symm zero, noZero⟩
        · exact .inr ⟨more, by rw [List.cons_append, ← split]⟩

theorem zero_not_mem_cStr (name : StdString) : 0 ∉ cStr name := by
  induction name with
  | nil => exact List.not_mem_nil
  | cons byte rest ih =>
      rw [cStr_cons]
      by_cases zero : byte = 0
      · rw [if_pos zero]
        exact List.not_mem_nil
      · rw [if_neg zero, List.mem_cons, not_or]
        exact ⟨Ne.symm zero, ih⟩

theorem cStr_of_not_mem {name : StdString} (noZero : 0 ∉ name) : cStr name = name := by
  rcases cStr_cases name with ⟨same, -⟩ | ⟨rest, split⟩
  · exact same
  · rw [split] at noZero
    exact absurd (List.mem_append_right _ List.mem_cons_self) noZero

theorem cStr_append_zero {front : StdString} (noZero : 0 ∉ front) (back : StdString) :
    cStr (front ++ 0 :: back) = front := by
  induction front with
  | nil => rw [List.nil_append, cStr_cons, if_pos rfl]
  | cons byte rest ih =>
      rw [List.mem_cons, not_or] at noZero
      rw [List.cons_append, cStr_cons, if_neg (Ne.symm noZero.1), ih noZero.2]

theorem cStr_append_zeros {front : StdString} (noZero : 0 ∉ front) (count : Nat) :
    cStr (front ++ List.replicate count 0) = front := by
  cases count with
  | zero => rw [List.replicate_zero, List.append_nil, cStr_of_not_mem noZero]
  | succ count => rw [List.replicate_succ, cStr_append_zero noZero]

theorem cStr_length_le (name : StdString) : (cStr name).length ≤ name.length :=
  (List.takeWhile_sublist _).length_le

@[simp]
theorem padded_length (name : StdString) : (padded name).length = name.length := by
  have within := cStr_length_le name
  rw [padded, List.length_append, List.length_replicate]
  omega

theorem padded_of_not_mem {name : StdString} (noZero : 0 ∉ name) : padded name = name := by
  rw [padded, cStr_of_not_mem noZero, Nat.sub_self, List.replicate_zero, List.append_nil]

theorem zero_mem_padded_iff (name : StdString) : 0 ∈ padded name ↔ 0 ∈ name := by
  rcases cStr_cases name with ⟨-, noZero⟩ | ⟨rest, split⟩
  · rw [padded_of_not_mem noZero]
  · have more : name.length - (cStr name).length = rest.length + 1 := by
      have lengths := congrArg List.length split
      rw [List.length_append, List.length_cons] at lengths
      omega
    constructor
    · intro _
      rw [split]
      exact List.mem_append_right _ List.mem_cons_self
    · intro _
      rw [padded, more, List.replicate_succ]
      exact List.mem_append_right _ List.mem_cons_self

theorem cStr_padded_append (name : StdString) (count : Nat) :
    cStr (padded name ++ List.replicate count 0) = cStr name := by
  rw [padded, List.append_assoc, List.replicate_append_replicate,
    cStr_append_zeros (zero_not_mem_cStr name)]

theorem padded_eq_iff (name other : StdString) :
    padded name = padded other ↔ cStr name = cStr other ∧ name.length = other.length := by
  constructor
  · intro same
    have strings := congrArg (fun bytes => cStr (bytes ++ List.replicate 0 0)) same
    simp only [cStr_padded_append] at strings
    have lengths := congrArg List.length same
    rw [padded_length, padded_length] at lengths
    exact ⟨strings, lengths⟩
  · rintro ⟨strings, lengths⟩
    rw [padded, padded, strings, lengths]

theorem padded_inj {name other : StdString} (noZero : 0 ∉ name.dropLast)
    (same : padded name = padded other) : name = other := by
  obtain ⟨strings, lengths⟩ := (padded_eq_iff name other).mp same
  rcases cStr_cases name with ⟨whole, -⟩ | ⟨rest, split⟩
  · rcases cStr_cases other with ⟨whole', -⟩ | ⟨rest', split'⟩
    · rw [← whole, strings, whole']
    · have longer := congrArg List.length split'
      rw [List.length_append, List.length_cons, ← strings, whole] at longer
      omega
  · have last : rest = [] := by
      cases rest with
      | nil => rfl
      | cons byte rest =>
          rw [split, List.dropLast_append_cons] at noZero
          exact absurd (List.mem_append_right _ List.mem_cons_self) noZero
    subst last
    have lengthName := congrArg List.length split
    rw [List.length_append, List.length_singleton] at lengthName
    rcases cStr_cases other with ⟨whole', -⟩ | ⟨rest', split'⟩
    · have shorter := congrArg List.length whole'
      rw [← strings] at shorter
      omega
    · have lengthOther := congrArg List.length split'
      rw [List.length_append, List.length_cons, ← strings] at lengthOther
      have none : rest' = [] := List.eq_nil_of_length_eq_zero (by omega)
      rw [split, split', none, strings]

theorem exists_padded_eq {name : StdString} (zero : 0 ∈ name.dropLast) :
    ∃ other, other ≠ name ∧ other.length = name.length ∧ padded other = padded name := by
  rcases cStr_cases name with ⟨-, noZero⟩ | ⟨rest, split⟩
  · exact absurd ((List.dropLast_sublist name).subset zero) noZero
  · have noZero := zero_not_mem_cStr name
    have twin : ∀ rest', rest'.length = rest.length → rest' ≠ rest →
        ∃ other, other ≠ name ∧ other.length = name.length ∧ padded other = padded name := by
      intro rest' sameLength different
      have length : (cStr name ++ 0 :: rest').length = name.length := by
        have lengths := congrArg List.length split
        rw [List.length_append, List.length_cons] at lengths ⊢
        omega
      refine ⟨cStr name ++ 0 :: rest', fun same => ?_, length, ?_⟩
      · rw [split, cStr_append_zero noZero] at same
        exact different (List.cons.inj (List.append_cancel_left same)).2
      · rw [padded_eq_iff]
        exact ⟨cStr_append_zero noZero rest', length⟩
    cases rest with
    | nil =>
        rw [split, List.dropLast_concat] at zero
        exact absurd zero noZero
    | cons byte rest =>
        -- a byte other than the one that follows the NUL
        by_cases isZero : byte = 0
        · refine twin (1 :: rest) rfl fun same => ?_
          rw [isZero] at same
          exact absurd (List.cons.inj same).1 (by decide)
        · refine twin (0 :: rest) rfl fun same => ?_
          exact isZero (List.cons.inj same).1.symm

/-! ### Addresses -/

namespace AfUnixSocket

theorem createAddress_isSome_iff {address : SockaddrUn}
    (size : address.sunPath.length = sunPathSize) (name : StdString) :
    (createAddress address name).isSome = true ↔ name.length ≤ 107 := by
  rw [createAddress, Option.isSome_map, strncpy, Buffer.write_isSome_iff, List.take_length,
    padded_length, size, sunPathSize]
  omega

theorem zero_length : SockaddrUn.zero.sunPath.length = sunPathSize := rfl

theorem createAddress_zero {name : StdString} (fits : name.length ≤ 107) :
    createAddress .zero name =
      some ({ sunPath := 0 :: (padded name ++ List.replicate (107 - name.length) 0) },
        name.length + 3) := by
  have size : SockaddrUn.zero.sunPath.length = 108 := rfl
  have inside : 1 + (padded name).length ≤ SockaddrUn.zero.sunPath.length := by
    rw [padded_length, size]
    omega
  have front : SockaddrUn.zero.sunPath.take 1 = [0] := rfl
  have back : SockaddrUn.zero.sunPath.drop (1 + name.length) =
      List.replicate (107 - name.length) 0 := by
    rw [SockaddrUn.zero, sunPathSize, List.drop_replicate]
    congr 1
    omega
  rw [createAddress, strncpy, List.take_length, Buffer.write_of_le inside, padded_length, front,
    back]
  have length : 2 + name.length + 1 = name.length + 3 := by omega
  simp only [Option.map_some, List.cons_append, List.nil_append, length]

theorem nameBytes_createAddress {name : StdString} {address : SockaddrUn} {length : Nat}
    (created : createAddress .zero name = some (address, length)) :
    nameBytes address length = 0 :: padded name := by
  have fits := (createAddress_isSome_iff zero_length name).mp (by rw [created]; rfl)
  rw [createAddress_zero fits] at created
  cases created
  have count : name.length + 3 - 2 = (padded name).length + 1 := by
    rw [padded_length]
    omega
  rw [nameBytes, count, List.take_succ_cons, List.take_left]

theorem reported_createAddress {name : StdString} {address : SockaddrUn} {length : Nat}
    (created : createAddress .zero name = some (address, length)) :
    reported address length = address := by
  have fits := (createAddress_isSome_iff zero_length name).mp (by rw [created]; rfl)
  have bytes := nameBytes_createAddress created
  rw [createAddress_zero fits] at created
  cases created
  have rest : sunPathSize - (0 :: padded name).length = 107 - name.length := by
    rw [List.length_cons, padded_length, sunPathSize]
    omega
  rw [reported, bytes, rest, List.cons_append]

/-- A peer name is read back up to its first NUL, if there is one in the field. -/
theorem identifier_createAddress {name : StdString} {address : SockaddrUn} {length : Nat}
    (created : createAddress .zero name = some (address, length)) :
    identifier? address =
      if 0 ∈ name ∨ name.length ≤ 106 then some { value := cStr name } else none := by
  have fits := (createAddress_isSome_iff zero_length name).mp (by rw [created]; rfl)
  rw [createAddress_zero fits] at created
  cases created
  have room : 0 ∈ List.replicate (107 - name.length) (0 : UInt8) ↔ name.length ≤ 106 := by
    simp only [List.mem_replicate, and_true]
    omega
  simp only [identifier?, AfUnixSocket.identifier, List.drop_succ_cons, List.drop_zero,
    List.mem_append, zero_mem_padded_iff, room, cStr_padded_append]

end AfUnixSocket

end LinxIpc
