import LinxIpc.Machine.Run
import Mathlib.Logic.Function.Basic

/-!
A post office: named boxes, each of which keeps the letters posted to its name in
the order in which they came.

Whoever opens a box gives the letters it posts its own name as sender.  A letter
for which there is no box, or no room in it, is given back.  An event is a request
with its answer.
-/

namespace PostOffice

variable {ν β : Type}

structure Letter (ν β : Type) where
  content : β
  sender : ν
  deriving DecidableEq

abbrev Boxes (ν β : Type) := ν → Option (List (Letter ν β))

inductive Act (ν β : Type) where
  | opens (name : ν) (possible : Bool)
  | closes (name : ν)
  | posts (sender dest : ν) (content : β) (room : Bool)
  | takes (name : ν)

inductive Event (ν β : Type) where
  | opened (name : ν) (possible granted : Bool)
  | closed (name : ν)
  | posted (sender dest : ν) (content : β) (room delivered : Bool)
  | took (name : ν) (letter : Option (Letter ν β))
  deriving DecidableEq

variable [DecidableEq ν]

def step (boxes : Boxes ν β) : Act ν β → Option (Boxes ν β × List (Event ν β))
  | .opens name possible =>
      match boxes name, possible with
      | none, true => some (Function.update boxes name (some []), [.opened name possible true])
      | _, _ => some (boxes, [.opened name possible false])
  | .closes name =>
      match boxes name with
      | none => none
      | some _ => some (Function.update boxes name none, [.closed name])
  | .posts sender dest content room =>
      match boxes sender with
      | none => none
      | some _ =>
          match boxes dest, room with
          | some letters, true =>
              some (Function.update boxes dest (some (letters ++ [⟨content, sender⟩])),
                [.posted sender dest content room true])
          | _, _ => some (boxes, [.posted sender dest content room false])
  | .takes name =>
      match boxes name with
      | none => none
      | some [] => some (boxes, [.took name none])
      | some (letter :: rest) =>
          some (Function.update boxes name (some rest), [.took name (some letter)])

def machine : Machine (Boxes ν β) (Act ν β) (Event ν β) where
  step := step

theorem opened_empty {boxes after : Boxes ν β} {name : ν} {possible : Bool}
    (opened : step boxes (.opens name possible) = some (after, [.opened name possible true])) :
    after name = some [] := by
  simp only [step] at opened
  split at opened
  · cases opened
    exact Function.update_self ..
  · cases opened

theorem posts_cases {boxes after : Boxes ν β} {sender dest : ν} {content : β}
    {room delivered : Bool}
    (posted : step boxes (.posts sender dest content room) =
      some (after, [.posted sender dest content room delivered])) :
    (delivered = true ∧ ∃ letters, boxes dest = some letters ∧
        after = Function.update boxes dest (some (letters ++ [⟨content, sender⟩]))) ∨
      (delivered = false ∧ after = boxes) := by
  simp only [step] at posted
  split at posted
  · cases posted
  · split at posted
    · rename_i letters present
      cases posted
      exact .inl ⟨rfl, letters, present, rfl⟩
    · cases posted
      exact .inr ⟨rfl, rfl⟩

/-! ### What goes in and comes out of one box -/

def posted (name : ν) (events : List (Event ν β)) : List (Letter ν β) :=
  events.filterMap fun
    | .posted sender dest content _ true => if dest = name then some ⟨content, sender⟩ else none
    | _ => none

def taken (name : ν) (events : List (Event ν β)) : List (Letter ν β) :=
  events.filterMap fun
    | .took owner letter => if owner = name then letter else none
    | _ => none

theorem posted_append (name : ν) (front back : List (Event ν β)) :
    posted name (front ++ back) = posted name front ++ posted name back :=
  List.filterMap_append ..

theorem taken_append (name : ν) (front back : List (Event ν β)) :
    taken name (front ++ back) = taken name front ++ taken name back :=
  List.filterMap_append ..

theorem step_conserves {boxes next : Boxes ν β} {act : Act ν β} {events : List (Event ν β)}
    {name : ν} {letters : List (Letter ν β)} (present : boxes name = some letters)
    (stays : .closed name ∉ events) (stepped : step boxes act = some (next, events)) :
    ∃ left, next name = some left ∧ letters ++ posted name events = taken name events ++ left := by
  have unchanged : next = boxes → posted name events = [] → taken name events = [] →
      ∃ left, next name = some left ∧
        letters ++ posted name events = taken name events ++ left := by
    rintro rfl noneIn noneOut
    exact ⟨letters, present, by rw [noneIn, noneOut, List.append_nil, List.nil_append]⟩
  cases act with
  | opens other possible =>
      simp only [step] at stepped
      split at stepped
      · rename_i absent
        cases stepped
        have different : name ≠ other := by
          rintro rfl
          rw [present] at absent
          cases absent
        exact ⟨letters, (Function.update_of_ne different _ _).trans present, List.append_nil _⟩
      · cases stepped
        exact unchanged rfl rfl rfl
  | closes other =>
      simp only [step] at stepped
      split at stepped
      · cases stepped
      · cases stepped
        have different : name ≠ other := by
          rintro rfl
          exact stays List.mem_cons_self
        exact ⟨letters, (Function.update_of_ne different _ _).trans present, List.append_nil _⟩
  | posts sender dest content room =>
      simp only [step] at stepped
      split at stepped
      · cases stepped
      · split at stepped
        · rename_i waiting atDest
          cases stepped
          by_cases same : dest = name
          · subst same
            rw [present] at atDest
            cases atDest
            refine ⟨_, Function.update_self .., ?_⟩
            simp only [posted, taken, List.filterMap_cons, List.filterMap_nil, if_true,
              List.nil_append]
          · refine ⟨letters, (Function.update_of_ne (Ne.symm same) _ _).trans present, ?_⟩
            simp only [posted, taken, List.filterMap_cons, List.filterMap_nil, if_neg same,
              List.append_nil, List.nil_append]
        · cases stepped
          exact unchanged rfl rfl rfl
  | takes owner =>
      simp only [step] at stepped
      split at stepped
      · cases stepped
      · cases stepped
        refine unchanged rfl rfl ?_
        simp only [taken, List.filterMap_cons, List.filterMap_nil, ite_self]
      · rename_i letter rest atOwner
        cases stepped
        by_cases same : owner = name
        · subst same
          rw [present] at atOwner
          cases atOwner
          refine ⟨_, Function.update_self .., ?_⟩
          simp only [posted, taken, List.filterMap_cons, List.filterMap_nil, if_true,
            List.append_nil, List.cons_append, List.nil_append]
        · refine ⟨letters, (Function.update_of_ne (Ne.symm same) _ _).trans present, ?_⟩
          simp only [posted, taken, List.filterMap_cons, List.filterMap_nil, if_neg same,
            List.append_nil, List.nil_append]

/-- As long as a box is not closed, what is put into it comes out in order, and
the rest is still there. -/
theorem run_conserves {boxes last : Boxes ν β} {acts : List (Act ν β)} {events : List (Event ν β)}
    {name : ν} {letters : List (Letter ν β)} (present : boxes name = some letters)
    (stays : .closed name ∉ events) (ran : machine.run boxes acts = some (last, events)) :
    ∃ left, last name = some left ∧ letters ++ posted name events = taken name events ++ left := by
  induction acts generalizing boxes letters events with
  | nil =>
      simp only [Machine.run, Option.some.injEq, Prod.mk.injEq] at ran
      obtain ⟨rfl, rfl⟩ := ran
      exact ⟨letters, present, List.append_nil _⟩
  | cons act rest ih =>
      obtain ⟨next, emitted, later, stepped, followed, rfl⟩ := machine.run_cons_inv ran
      rw [List.mem_append, not_or] at stays
      obtain ⟨kept, here, first⟩ := step_conserves present stays.1 stepped
      obtain ⟨left, there, second⟩ := ih here stays.2 followed
      refine ⟨left, there, ?_⟩
      rw [posted_append, taken_append, ← List.append_assoc, first, List.append_assoc, second,
        List.append_assoc]

end PostOffice
