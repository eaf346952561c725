import LinxIpc.Unix.Sockets
import Mathlib.Data.List.Nodup

/-!
The name of a Unix socket on its way to a receiver and back.

A receiver sees the address that the sender is bound to; what it makes of it is
the peer that it sends its replies to.
-/

namespace LinxIpc

namespace AfUnixSocket

/-- The address that `recvfrom` reports for a datagram of this socket. -/
def reportedAddress (self : AfUnixSocket) : SockaddrUn :=
  reported self.address (self.socketName.length + 3)

def RepliesTo (self : AfUnixSocket) (peer : UnixInfo) : Prop :=
  ∃ address, createAddress .zero peer.value = some (address, self.socketName.length + 3) ∧
    nameBytes address (self.socketName.length + 3) = self.boundName

/-- The socket is known by its name to those who receive from it, and by its
address to no other. -/
structure NameSurvives (live : List AfUnixSocket) (self : AfUnixSocket) : Prop where
  received : ∃ sender, identifier? self.reportedAddress = some sender ∧
    sender.isEqual { value := self.socketName } = true ∧ self.RepliesTo sender
  alone : ∀ other ∈ live, other.socketName ≠ self.socketName → other.boundName ≠ self.boundName

theorem identifier_reportedAddress {self : AfUnixSocket}
    (created : createAddress .zero self.socketName =
      some (self.address, self.socketName.length + 3)) :
    identifier? self.reportedAddress =
      if 0 ∈ self.socketName ∨ self.socketName.length ≤ 106 then
        some { value := cStr self.socketName }
      else none := by
  rw [reportedAddress, reported_createAddress created, identifier_createAddress created]

/-- A name of 107 bytes leaves no NUL in `sun_path`, and a NUL in a name ends
what the receiver sees of it. -/
theorem nameSurvives_iff {live : List AfUnixSocket} (reachable : sockets.Reachable [] live)
    {self : AfUnixSocket} (member : self ∈ live) :
    NameSurvives live self ↔ 0 ∉ self.socketName ∧ self.socketName.length ≤ 106 := by
  have sound := sockets_sound reachable
  have created := (sound.bound self member).2
  have seen := identifier_reportedAddress created
  constructor
  · rintro ⟨⟨sender, identified, equal, -⟩, -⟩
    rw [seen] at identified
    split at identified
    · rename_i readable
      cases identified
      have same : cStr self.socketName = self.socketName := beq_iff_eq.mp equal
      have noZero : 0 ∉ self.socketName := by
        rw [← same]
        exact zero_not_mem_cStr _
      exact ⟨noZero, readable.resolve_left noZero⟩
    · cases identified
  · rintro ⟨noZero, short⟩
    rw [if_pos (.inr short), cStr_of_not_mem noZero] at seen
    refine ⟨⟨_, seen, beq_self_eq_true _, self.address, created, rfl⟩, ?_⟩
    intro other inLive different same
    have equal := List.inj_on_of_nodup_map sound.distinct inLive member same
    exact different (congrArg AfUnixSocket.socketName equal)

theorem shortName_survives :
    NameSurvives
        [{ fd := 3, address := { sunPath := 0 :: 97 :: List.replicate 106 0 }, socketName := [97] }]
        { fd := 3, address := { sunPath := 0 :: 97 :: List.replicate 106 0 }, socketName := [97] } ↔
      0 ∉ ([97] : StdString) ∧ ([97] : StdString).length ≤ 106 :=
  nameSurvives_iff ⟨[.opens [97] 3], [0], rfl⟩ List.mem_cons_self

/-! ### A name that is lost -/

def longName : StdString := List.replicate 107 97

def longSocket : AfUnixSocket :=
  { fd := 3, address := { sunPath := 0 :: longName }, socketName := longName }

set_option maxRecDepth 2000 in
/-- A receiver finds no end of the name in the address structure. -/
theorem longName_lost :
    sockets.run [] [.opens longName 3] = some ([longSocket], [0]) ∧
      ¬ NameSurvives [longSocket] longSocket := by
  refine ⟨rfl, ?_⟩
  rintro ⟨⟨sender, identified, -⟩, -⟩
  have unseen : identifier? longSocket.reportedAddress = none := rfl
  rw [unseen] at identified
  cases identified

end AfUnixSocket

end LinxIpc
