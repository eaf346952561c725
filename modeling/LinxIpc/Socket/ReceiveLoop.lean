import LinxIpc.Deadline
import LinxIpc.Socket.Receive
import Mathlib.Data.Nat.Find

/-!
The `do`-`while` loop that `GenericSimpleServer::receive` and
`GenericClient::receive` share.

Each pass computes the remaining time, calls `socket->receive` with it, treats
the result, and looks at the deadline.  The passes are given: what the clock
showed and what the socket returned.  A loop that has used them all is waiting
in `socket->receive`.
-/

namespace LinxIpc

variable {β ι : Type}

structure Pass (ι : Type) where
  /-- The clock in `getRemainingTimeMs`. -/
  now : Int
  received : Received ι
  /-- The clock in `isExpired`. -/
  later : Int

inductive Verdict (β ι : Type) where
  /-- `return`, with null for none. -/
  | finish (msg : Option β)
  /-- On to the condition of the loop, after sending a `PING_RSP` if a peer is given. -/
  | goOn (pong : Option ι)
  /-- A null message would be dereferenced. -/
  | undefined

inductive LoopStatus (β : Type) where
  | waiting
  | returned (msg : Option β)
  | undefined
  deriving DecidableEq

structure LoopRun (β ι : Type) where
  status : LoopStatus β
  timeouts : List Int
  pongs : List ι
  unread : List (Pass ι)

def receiveLoop (body : Received ι → Verdict β ι) (deadline : Deadline) :
    List (Pass ι) → LoopRun β ι
  | [] => { status := .waiting, timeouts := [], pongs := [], unread := [] }
  | pass :: unread =>
      let timeout := deadline.getRemainingTimeMs pass.now
      match body pass.received with
      | .finish msg =>
          { status := .returned msg, timeouts := [timeout], pongs := [], unread := unread }
      | .undefined =>
          { status := .undefined, timeouts := [timeout], pongs := [], unread := unread }
      | .goOn pong =>
          if deadline.isExpired pass.later then
            { status := .returned none, timeouts := [timeout], pongs := pong.toList,
              unread := unread }
          else
            let more := receiveLoop body deadline unread
            { more with timeouts := timeout :: more.timeouts, pongs := pong.toList ++ more.pongs }

theorem receiveLoop_finish {body : Received ι → Verdict β ι} (deadline : Deadline)
    {pass : Pass ι} {msg : Option β} (ends : body pass.received = .finish msg)
    (unread : List (Pass ι)) :
    receiveLoop body deadline (pass :: unread) =
      { status := .returned msg, timeouts := [deadline.getRemainingTimeMs pass.now], pongs := [],
        unread := unread } := by
  simp only [receiveLoop, ends]

theorem receiveLoop_goOn {body : Received ι → Verdict β ι} {pass : Pass ι} {pong : Option ι}
    (goes : body pass.received = .goOn pong) (unread : List (Pass ι)) :
    receiveLoop body { deadline := none } (pass :: unread) =
      { status := (receiveLoop body { deadline := none } unread).status
        timeouts := infiniteTimeout :: (receiveLoop body { deadline := none } unread).timeouts
        pongs := pong.toList ++ (receiveLoop body { deadline := none } unread).pongs
        unread := (receiveLoop body { deadline := none } unread).unread } := by
  simp only [receiveLoop, goes, Deadline.isExpired, Bool.false_eq_true, if_false,
    Deadline.getRemainingTimeMs]

/-! ### The consumed prefix -/

def Continues (body : Received ι → Verdict β ι) (deadline : Deadline) (pass : Pass ι) : Prop :=
  (∃ pong, body pass.received = .goOn pong) ∧ deadline.isExpired pass.later = false

inductive Ends (body : Received ι → Verdict β ι) (deadline : Deadline) (pass : Pass ι) :
    Option β → Prop where
  | finished {msg : Option β} (finishes : body pass.received = .finish msg) :
      Ends body deadline pass msg
  | expired {pong : Option ι} (goes : body pass.received = .goOn pong)
      (late : deadline.isExpired pass.later = true) : Ends body deadline pass none

theorem continues_or_ends {body : Received ι → Verdict β ι} (deadline : Deadline) {pass : Pass ι}
    (defined : body pass.received ≠ .undefined) :
    Continues body deadline pass ∨ ∃ msg, Ends body deadline pass msg := by
  cases verdict : body pass.received with
  | finish msg => exact .inr ⟨msg, .finished verdict⟩
  | undefined => exact absurd verdict defined
  | goOn pong =>
      cases late : deadline.isExpired pass.later with
      | true => exact .inr ⟨none, .expired verdict late⟩
      | false => exact .inl ⟨⟨pong, verdict⟩, late⟩

def pong? (body : Received ι → Verdict β ι) (pass : Pass ι) : Option ι :=
  match body pass.received with
  | .goOn pong => pong
  | .finish _ | .undefined => none

def timeoutOf (deadline : Deadline) (pass : Pass ι) : Int := deadline.getRemainingTimeMs pass.now

def LoopRun.after (body : Received ι → Verdict β ι) (deadline : Deadline)
    (consumed : List (Pass ι)) (status : LoopStatus β) (unread : List (Pass ι)) : LoopRun β ι :=
  { status := status
    timeouts := consumed.map (timeoutOf deadline)
    pongs := consumed.filterMap (pong? body)
    unread := unread }

theorem receiveLoop_cons {body : Received ι → Verdict β ι} {deadline : Deadline} {pass : Pass ι}
    (continues : Continues body deadline pass) (unread : List (Pass ι)) :
    receiveLoop body deadline (pass :: unread) =
      { receiveLoop body deadline unread with
        timeouts := timeoutOf deadline pass :: (receiveLoop body deadline unread).timeouts
        pongs := (pong? body pass).toList ++ (receiveLoop body deadline unread).pongs } := by
  obtain ⟨⟨pong, goes⟩, early⟩ := continues
  simp only [receiveLoop, goes, early, Bool.false_eq_true, if_false, pong?, timeoutOf]

theorem receiveLoop_append {body : Received ι → Verdict β ι} {deadline : Deadline}
    {front : List (Pass ι)} (continues : ∀ pass ∈ front, Continues body deadline pass)
    (back : List (Pass ι)) :
    receiveLoop body deadline (front ++ back) =
      { receiveLoop body deadline back with
        timeouts := front.map (timeoutOf deadline) ++ (receiveLoop body deadline back).timeouts
        pongs := front.filterMap (pong? body) ++ (receiveLoop body deadline back).pongs } := by
  induction front with
  | nil => rfl
  | cons pass rest ih =>
      rw [List.forall_mem_cons] at continues
      rw [List.cons_append, receiveLoop_cons continues.1, ih continues.2]
      cases pong : pong? body pass <;>
        simp only [List.map_cons, List.filterMap_cons, pong, Option.toList_none,
          Option.toList_some, List.cons_append, List.nil_append]

theorem receiveLoop_ends {body : Received ι → Verdict β ι} {deadline : Deadline} {pass : Pass ι}
    {msg : Option β} (ends : Ends body deadline pass msg) (unread : List (Pass ι)) :
    receiveLoop body deadline (pass :: unread) =
      .after body deadline [pass] (.returned msg) unread := by
  cases ends with
  | finished finishes =>
      simp only [receiveLoop_finish deadline finishes, LoopRun.after, List.map_cons, List.map_nil,
        List.filterMap_cons, pong?, finishes, List.filterMap_nil, timeoutOf]
  | @expired pong goes late =>
      cases pong <;>
        simp only [receiveLoop, goes, late, if_true, LoopRun.after, List.map_cons, List.map_nil,
          List.filterMap_cons, pong?, List.filterMap_nil, timeoutOf, Option.toList_none,
          Option.toList_some]

theorem receiveLoop_of_ends {body : Received ι → Verdict β ι} {deadline : Deadline}
    {front : List (Pass ι)} (continues : ∀ pass ∈ front, Continues body deadline pass)
    {last : Pass ι} {msg : Option β} (ends : Ends body deadline last msg)
    (unread : List (Pass ι)) :
    receiveLoop body deadline (front ++ last :: unread) =
      .after body deadline (front ++ [last]) (.returned msg) unread := by
  rw [receiveLoop_append continues, receiveLoop_ends ends]
  simp only [LoopRun.after, List.map_append, List.filterMap_append]

theorem receiveLoop_waits {body : Received ι → Verdict β ι} {deadline : Deadline}
    {front : List (Pass ι)} (continues : ∀ pass ∈ front, Continues body deadline pass) :
    receiveLoop body deadline front = .after body deadline front .waiting [] := by
  have whole := receiveLoop_append continues []
  rw [List.append_nil] at whole
  rw [whole, receiveLoop, List.append_nil, List.append_nil]
  rfl

/-- How a loop that dereferences no null message treats its passes: it goes on
through a prefix of them, and then waits or returns. -/
inductive Consumes (body : Received ι → Verdict β ι) (deadline : Deadline) :
    List (Pass ι) → LoopRun β ι → Prop where
  | waits {front : List (Pass ι)} (continues : ∀ pass ∈ front, Continues body deadline pass) :
      Consumes body deadline front (.after body deadline front .waiting [])
  | returns {front : List (Pass ι)} {last : Pass ι} {msg : Option β} {unread : List (Pass ι)}
      (continues : ∀ pass ∈ front, Continues body deadline pass)
      (ends : Ends body deadline last msg) :
      Consumes body deadline (front ++ last :: unread)
        (.after body deadline (front ++ [last]) (.returned msg) unread)

theorem Consumes.cons {body : Received ι → Verdict β ι} {deadline : Deadline} {pass : Pass ι}
    {passes : List (Pass ι)} (continues : Continues body deadline pass)
    (consumes : Consumes body deadline passes (receiveLoop body deadline passes)) :
    Consumes body deadline (pass :: passes) (receiveLoop body deadline (pass :: passes)) := by
  generalize same : receiveLoop body deadline passes = run at consumes
  cases consumes with
  | waits others =>
      have all := List.forall_mem_cons.mpr ⟨continues, others⟩
      rw [receiveLoop_waits all]
      exact .waits all
  | returns others ends =>
      have all := List.forall_mem_cons.mpr ⟨continues, others⟩
      rw [← List.cons_append, receiveLoop_of_ends all ends]
      exact .returns all ends

theorem receiveLoop_consumes {body : Received ι → Verdict β ι} (deadline : Deadline)
    {passes : List (Pass ι)} (sound : ∀ pass ∈ passes, body pass.received ≠ .undefined) :
    Consumes body deadline passes (receiveLoop body deadline passes) := by
  induction passes with
  | nil => exact .waits (List.forall_mem_nil _)
  | cons pass rest ih =>
      rw [List.forall_mem_cons] at sound
      rcases continues_or_ends deadline sound.1 with continues | ⟨msg, ends⟩
      · exact .cons continues (ih sound.2)
      · rw [receiveLoop_ends ends]
        exact Consumes.returns (List.forall_mem_nil _) ends

theorem receiveLoop_defined {body : Received ι → Verdict β ι} (deadline : Deadline)
    {passes : List (Pass ι)} (sound : ∀ pass ∈ passes, body pass.received ≠ .undefined) :
    (receiveLoop body deadline passes).status ≠ .undefined := by
  have consumes := receiveLoop_consumes deadline sound
  generalize receiveLoop body deadline passes = run at consumes ⊢
  cases consumes with
  | waits => simp only [LoopRun.after, ne_eq, reduceCtorEq, not_false_eq_true]
  | returns => simp only [LoopRun.after, ne_eq, reduceCtorEq, not_false_eq_true]

/-! ### Streams of passes -/

def firstPasses (stream : Nat → Pass ι) (count : Nat) : List (Pass ι) :=
  (List.range count).map stream

theorem firstPasses_succ (stream : Nat → Pass ι) (count : Nat) :
    firstPasses stream (count + 1) = firstPasses stream count ++ [stream count] := by
  simp only [firstPasses, List.range_succ, List.map_append, List.map_cons, List.map_nil]

theorem forall_mem_firstPasses {stream : Nat → Pass ι} {count : Nat} {P : Pass ι → Prop} :
    (∀ pass ∈ firstPasses stream count, P pass) ↔ ∀ i < count, P (stream i) := by
  simp only [firstPasses, List.forall_mem_map, List.mem_range]

/-- On an endless stream the loop goes on for ever, or there is a first pass
with which it returns. -/
theorem receiveLoop_stream {body : Received ι → Verdict β ι} (deadline : Deadline)
    {stream : Nat → Pass ι} (sound : ∀ i, body (stream i).received ≠ .undefined) :
    (∀ i, Continues body deadline (stream i)) ∨
      ∃ count msg, (∀ i < count, Continues body deadline (stream i)) ∧
        Ends body deadline (stream count) msg := by
  classical
  by_cases all : ∀ i, Continues body deadline (stream i)
  · exact .inl all
  · right
    have stops := not_forall.mp all
    refine ⟨Nat.find stops, ?_⟩
    have before : ∀ i < Nat.find stops, Continues body deadline (stream i) := fun i earlier =>
      not_not.mp (Nat.find_min stops earlier)
    have here := Nat.find_spec stops
    obtain ⟨msg, ends⟩ := (continues_or_ends deadline (sound _)).resolve_left here
    exact ⟨msg, before, ends⟩

def Reads {α : Type} (identifier : α → ι) (passes : List (Pass ι))
    (datagrams : List (Datagram α)) : Prop :=
  passes.map Pass.received = datagrams.map (received identifier)

theorem reads_cons {α : Type} {identifier : α → ι} {passes : List (Pass ι)}
    {datagram : Datagram α} {rest : List (Datagram α)}
    (reads : Reads identifier passes (datagram :: rest)) :
    ∃ pass unread, passes = pass :: unread ∧ pass.received = received identifier datagram ∧
      Reads identifier unread rest := by
  cases passes with
  | nil => cases reads
  | cons pass unread =>
      obtain ⟨here, later⟩ := List.cons.inj reads
      exact ⟨pass, unread, rfl, here, later⟩

end LinxIpc
