import LinxIpc.Socket.Receive

/-!
`UdpSocket::flush` and `AfUnixSocket::flush`.

The two functions differ in the type of an address that they do not look at.
They ask once how many bytes there are and take at most one datagram.
-/

namespace LinxIpc

variable {α ι : Type}

/-- A call without `msg` and `from`: it stores nothing. -/
def socketFlush (fd : Int) : Receive α ι :=
  if fd < 0 then .ret (.error (-1))
  else
    .fionread fun available =>
      let bytesAvailable := available.getD 0
      let returned : Receive α ι := .ret { result := bytesAvailable, stored := none }
      if 0 < bytesAvailable then .recvfrom bytesAvailable (fun _ => returned) else returned

def UdpSocket.flush (fd : Int) : Receive SockaddrIn PortInfo := socketFlush fd

def AfUnixSocket.flush (fd : Int) : Receive SockaddrUn UnixInfo := socketFlush fd

/-! ### On a backlog -/

def leftByFlush : List (Datagram α) → List (Datagram α)
  | [] => []
  | datagram :: rest => if datagram.bytes = [] then datagram :: rest else rest

theorem socketFlush_runOn {fd : Int} (opened : 0 ≤ fd) (pending : List (Datagram α)) :
    ∃ flushed : Received ι, (socketFlush fd).runOn pending = some (flushed, leftByFlush pending) ∧
      flushed.stored = none := by
  simp only [socketFlush, if_neg (Int.not_lt.mpr opened), Receive.runOn, Option.getD_some]
  cases pending with
  | nil => exact ⟨_, rfl, rfl⟩
  | cons datagram rest =>
      by_cases empty : datagram.bytes = []
      · refine ⟨{ result := 0, stored := none }, ?_, rfl⟩
        simp [empty, Receive.runOn, leftByFlush]
      · have positive : 0 < datagram.bytes.length := List.length_pos_iff.mpr empty
        refine ⟨{ result := datagram.bytes.length, stored := none }, ?_, rfl⟩
        simp [empty, positive, Receive.runOn, leftByFlush]

theorem leftByFlush_nil_iff (pending : List (Datagram α)) :
    leftByFlush pending = [] ↔
      pending = [] ∨ ∃ datagram, pending = [datagram] ∧ datagram.bytes ≠ [] := by
  cases pending with
  | nil => exact iff_of_true rfl (.inl rfl)
  | cons datagram rest =>
      by_cases empty : datagram.bytes = []
      · simp [leftByFlush, empty]
      · simp only [leftByFlush, if_neg empty, List.cons_ne_nil, List.cons.injEq, false_or]
        constructor
        · intro nothing
          exact ⟨datagram, ⟨rfl, nothing⟩, empty⟩
        · rintro ⟨-, ⟨-, nothing⟩, -⟩
          exact nothing

/-- After `flush` nothing is pending, and a `receive` that does not wait returns
0 without a message. -/
def FlushEmpties (flush receive : Receive α ι) (pending : List (Datagram α)) : Prop :=
  ∃ flushed left, flush.runOn pending = some (flushed, left) ∧ left = [] ∧
    receive.runOn left = some (.error 0, left)

theorem socketFlush_empties_iff (identifier : α → ι) {fd : Int} (opened : 0 ≤ fd)
    (pending : List (Datagram α)) :
    FlushEmpties (socketFlush fd) (socketReceive identifier fd 0) pending ↔
      pending = [] ∨ ∃ datagram, pending = [datagram] ∧ datagram.bytes ≠ [] := by
  rw [← leftByFlush_nil_iff]
  obtain ⟨flushed, flush, -⟩ := socketFlush_runOn (ι := ι) opened pending
  constructor
  · rintro ⟨other, left, ran, nothing, -⟩
    rw [flush] at ran
    cases ran
    exact nothing
  · intro nothing
    refine ⟨flushed, [], ?_, rfl, ?_⟩
    · rw [flush, nothing]
    · rw [socketReceive_runOn_nil identifier opened]
      rfl

/-- For which backlogs `flush` empties an open socket. -/
theorem flush_empties_iff {fd : Int} (opened : 0 ≤ fd) :
    (∀ pending : List (Datagram SockaddrIn),
      FlushEmpties (UdpSocket.flush fd) (UdpSocket.receive fd immediateTimeout) pending ↔
        pending = [] ∨ ∃ datagram, pending = [datagram] ∧ datagram.bytes ≠ []) ∧
      ∀ pending : List (Datagram SockaddrUn),
        FlushEmpties (AfUnixSocket.flush fd) (AfUnixSocket.receive fd immediateTimeout) pending ↔
          pending = [] ∨ ∃ datagram, pending = [datagram] ∧ datagram.bytes ≠ [] := by
  constructor
  · intro pending
    exact socketFlush_empties_iff UdpSocket.identifier opened pending
  · intro pending
    exact socketFlush_empties_iff AfUnixSocket.identifier opened pending

theorem flush_empties_one :
    FlushEmpties (UdpSocket.flush 3) (UdpSocket.receive 3 immediateTimeout)
        [⟨[0, 0, 0, 7], ⟨(127, 0, 0, 1), (0, 9)⟩⟩] ↔
      [(⟨[0, 0, 0, 7], ⟨(127, 0, 0, 1), (0, 9)⟩⟩ : Datagram SockaddrIn)] = [] ∨
        ∃ datagram : Datagram SockaddrIn,
          [⟨[0, 0, 0, 7], ⟨(127, 0, 0, 1), (0, 9)⟩⟩] = [datagram] ∧ datagram.bytes ≠ [] :=
  (flush_empties_iff (show (0 : Int) ≤ 3 by decide)).1 _

/-- Of two datagrams `flush` takes the first, and the next `receive` gets the
second; an empty one at the head keeps it from taking any. -/
theorem flush_leaves_second :
    (¬ FlushEmpties (UdpSocket.flush 3) (UdpSocket.receive 3 immediateTimeout)
        [⟨[0, 0, 0, 7], ⟨(127, 0, 0, 1), (0, 9)⟩⟩, ⟨[0, 0, 0, 8, 5], ⟨(127, 0, 0, 1), (0, 9)⟩⟩] ∧
      (UdpSocket.flush 3).runOn
          [⟨[0, 0, 0, 7], ⟨(127, 0, 0, 1), (0, 9)⟩⟩, ⟨[0, 0, 0, 8, 5], ⟨(127, 0, 0, 1), (0, 9)⟩⟩] =
        some (⟨4, none⟩, [⟨[0, 0, 0, 8, 5], ⟨(127, 0, 0, 1), (0, 9)⟩⟩]) ∧
      (UdpSocket.receive 3 immediateTimeout).runOn
          [⟨[0, 0, 0, 8, 5], ⟨(127, 0, 0, 1), (0, 9)⟩⟩] =
        some (⟨5, some (⟨8, [5]⟩, .create (ofAscii "127.0.0.1") 9)⟩, [])) ∧
    (AfUnixSocket.flush 3).runOn [⟨[], ⟨[]⟩⟩, ⟨[0, 0, 0, 7], ⟨[]⟩⟩] =
      some (⟨0, none⟩, [⟨[], ⟨[]⟩⟩, ⟨[0, 0, 0, 7], ⟨[]⟩⟩]) := by
  refine ⟨⟨?_, by decide, by decide⟩, by decide⟩
  rw [UdpSocket.flush, UdpSocket.receive, immediateTimeout,
    socketFlush_empties_iff UdpSocket.identifier (by decide)]
  simp

end LinxIpc
