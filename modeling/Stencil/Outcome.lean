import Stencil.Fault

/-! # Events and outcomes

A step that changes a state, may fail and reports events has an `Outcome`. The state and the events
survive a failure. An event is a record of one finished step; its message, its level and the part of
the library it comes from depend on the kind of step alone. `Outcome.drain` runs a step until it has
nothing more to answer.
-/

namespace Stencil

inductive Level where
  | trace
  | debug
deriving DecidableEq, Repr

inductive Event where
  /-- There is no further marker; the search had got to `cursor`. -/
  | exhausted (cursor : Nat)
  | matched (position length : Nat) (rawText : Text)
  | decoded (position : Nat) (path : Text) (stages : Nat)
  | rejected (rawText : Text) (position : Nat) (reason : Reason)
  /-- A marker was replaced by a text of `width` bytes. -/
  | spliced (position length width : Nat)
deriving DecidableEq, Repr

namespace Event

def message : Event → String
  | exhausted _ => "No further markers"
  | matched .. => "Matched marker span"
  | decoded .. => "Decoded marker"
  | rejected .. => "Failed to decode marker"
  | spliced .. => "Spliced marker"

/-- The part of the library that the event is reported under. -/
def target : Event → String
  | exhausted _ | matched .. => "placemark::scanner"
  | decoded .. | rejected .. => "placemark::parser"
  | spliced .. => "placemark::processor"

/-- A refused body is reported one level above the rest. -/
def level : Event → Level
  | rejected .. => .debug
  | _ => .trace

end Event

/-- How a step ended, the state it left, and what it reported, in order. -/
structure Outcome (ε σ α : Type) where
  result : Except ε α
  state : σ
  events : List Event := []

namespace Outcome

variable {ε σ α : Type}

/-- Runs a step while it answers something, and gives the answers and how the run ended. Every
answer makes the state smaller. -/
def drain (step : σ → Outcome ε σ (Option α)) (size : σ → Nat)
    (shrinks : ∀ state a next events, step state = ⟨.ok (some a), next, events⟩ →
      size next < size state) (state : σ) : List α × Outcome ε σ Unit :=
  match _ : step state with
  | ⟨.error e, next, events⟩ => ([], ⟨.error e, next, events⟩)
  | ⟨.ok none, next, events⟩ => ([], ⟨.ok (), next, events⟩)
  | ⟨.ok (some a), next, events⟩ =>
    let (found, rest) := drain step size shrinks next
    (a :: found, { rest with events := events ++ rest.events })
termination_by size state
decreasing_by exact shrinks state a next events ‹_›

variable {step : σ → Outcome ε σ (Option α)} {size : σ → Nat}
  {shrinks : ∀ state a next events, step state = ⟨.ok (some a), next, events⟩ →
    size next < size state} {state next : σ} {events : List Event}

theorem drain_of_error {e : ε} (h : step state = ⟨.error e, next, events⟩) :
    drain step size shrinks state = ([], ⟨.error e, next, events⟩) := by
  rw [drain]
  split <;> simp_all

theorem drain_of_none (h : step state = ⟨.ok none, next, events⟩) :
    drain step size shrinks state = ([], ⟨.ok (), next, events⟩) := by
  rw [drain]
  split <;> simp_all

theorem drain_of_some {a : α} (h : step state = ⟨.ok (some a), next, events⟩) :
    drain step size shrinks state =
      (a :: (drain step size shrinks next).1,
        { (drain step size shrinks next).2 with
          events := events ++ (drain step size shrinks next).2.events }) := by
  rw [drain]
  split <;> simp_all

end Outcome

end Stencil
