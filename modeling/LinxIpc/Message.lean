import Mathlib.Algebra.Group.Int.Defs
import Mathlib.Algebra.Group.Nat.Defs

/-!
Messages as the library sees them: a 32-bit request id with a byte payload, the
container in which a server hands a received message to its reader, and the
filter that every receiving call applies.

Identifiers stay abstract.  All that the filter uses of the type `ι` is the
comparison `IIdentifier::operator==`, here its `BEq` instance; no law is assumed
of it, since the one of UDP addresses is not transitive.
-/

namespace LinxIpc

def immediateTimeout : Int := 0
def infiniteTimeout : Int := -1

def ipcPingReq : UInt32 := 1
def ipcPingRsp : UInt32 := 2

structure RawMessage where
  reqId : UInt32
  payload : List UInt8
  deriving DecidableEq, Repr

/-- `memcpy` of four bytes into a host word followed by `ntohl`. -/
def ntohl (b₀ b₁ b₂ b₃ : UInt8) : UInt32 :=
  UInt32.ofNat (b₀.toNat * 2 ^ 24 + b₁.toNat * 2 ^ 16 + b₂.toNat * 2 ^ 8 + b₃.toNat)

/-- The request id is read from the first four bytes, which are then removed
from the buffer.  A shorter buffer has no header. -/
def RawMessage.deserialize : List UInt8 → Option RawMessage
  | b₀ :: b₁ :: b₂ :: b₃ :: payload => some { reqId := ntohl b₀ b₁ b₂ b₃, payload := payload }
  | _ => none

theorem RawMessage.deserialize_isSome_iff (buffer : List UInt8) :
    (RawMessage.deserialize buffer).isSome = true ↔ 4 ≤ buffer.length := by
  match buffer with
  | [] | [_] | [_, _] | [_, _, _] =>
      simp [RawMessage.deserialize]
  | b₀ :: b₁ :: b₂ :: b₃ :: payload =>
      simp [RawMessage.deserialize]

theorem RawMessage.deserialize_eq_none_iff (buffer : List UInt8) :
    RawMessage.deserialize buffer = none ↔ buffer.length < 4 := by
  rw [← Nat.not_le, ← RawMessage.deserialize_isSome_iff]
  cases RawMessage.deserialize buffer <;> simp

/-- `sender` is the field `from`; either pointer of the C++ struct owns its
object, and the identifier may be absent. -/
structure LinxReceivedMessage (ι : Type) where
  message : RawMessage
  sender : Option ι
  deriving DecidableEq, Repr

/-! ### `LinxMessageFilter` -/

def matchesSignalSelector (msg : RawMessage) (sigsel : List UInt32) : Bool :=
  sigsel.length == 0 || (sigsel.find? (fun id => id == msg.reqId)).isSome

def matchesFrom {ι : Type} [BEq ι] (sender expected : Option ι) : Bool :=
  match expected with
  | none => true
  | some expected =>
      match sender with
      | none => false
      | some sender => sender == expected

def matchesFilter {ι : Type} [BEq ι] (sigsel : List UInt32) (expected : Option ι)
    (msg : LinxReceivedMessage ι) : Bool :=
  matchesFrom msg.sender expected && matchesSignalSelector msg.message sigsel

theorem matchesSignalSelector_iff (msg : RawMessage) (sigsel : List UInt32) :
    matchesSignalSelector msg sigsel = true ↔ sigsel = [] ∨ msg.reqId ∈ sigsel := by
  simp [matchesSignalSelector]

@[simp]
theorem matchesFilter_any {ι : Type} [BEq ι] (msg : LinxReceivedMessage ι) :
    matchesFilter [] none msg = true :=
  rfl

end LinxIpc
