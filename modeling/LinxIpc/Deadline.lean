import LinxIpc.Message

/-!
`Deadline`: the time at which a receiving call gives up.

Times are nanoseconds of `steady_clock`.  Every use of the clock is an argument
here, so nothing is assumed about how it moves.
-/

namespace LinxIpc

/-- No deadline stands for `time_point::max()`. -/
structure Deadline where
  deadline : Option Int
  deriving DecidableEq, Repr

namespace Deadline

def nanosecondsPerMs : Int := 1000000

def create (now timeoutMs : Int) : Deadline :=
  if timeoutMs ≠ infiniteTimeout then { deadline := some (now + timeoutMs * nanosecondsPerMs) }
  else { deadline := none }

def isExpired (self : Deadline) (now : Int) : Bool :=
  match self.deadline with
  | none => false
  | some deadline => decide (deadline < now)

/-- `duration_cast` rounds towards zero, and is reached for positive differences only. -/
def getRemainingTimeMs (self : Deadline) (now : Int) : Int :=
  match self.deadline with
  | none => infiniteTimeout
  | some deadline =>
      if deadline ≤ now then 0 else (deadline - now).tdiv nanosecondsPerMs

@[simp]
theorem create_infinite (now : Int) : create now infiniteTimeout = { deadline := none } :=
  rfl

theorem isExpired_iff {deadline now : Int} :
    isExpired { deadline := some deadline } now = true ↔ deadline < now := by
  simp only [isExpired, decide_eq_true_eq]

theorem isExpired_eq_false_iff {deadline now : Int} :
    isExpired { deadline := some deadline } now = false ↔ now ≤ deadline := by
  rw [← Bool.not_eq_true, isExpired_iff, Int.not_lt]

end Deadline

end LinxIpc
