import Stencil.Scan.Markers

/-! # Sessions

A session is a scan that is driven one request at a time, with one slot for a scan that was put
aside. A failed request leaves a session that can be asked again.
-/

namespace Stencil

inductive Request where
  /-- Start over with a text. -/
  | bind (text : Text)
  | next
  | decode
  /-- Put the scan aside as it is. -/
  | save
  /-- Go on with the scan that was put aside. -/
  | restore
  | delimiters
deriving DecidableEq, Repr

inductive Answer (d : Delimiters) where
  | done
  | span (found : Option (Span d))
  | marker (found : Option Marker)
  | delimiters
deriving DecidableEq

/-- The scan in use and the one put aside. -/
structure Session (d : Delimiters) where
  scan : Scan d := {}
  saved : Scan d := {}
deriving DecidableEq

namespace Session

variable {d : Delimiters}

def proceed {α : Type} (session : Session d) (outcome : Outcome Fault (Scan d) α)
    (answer : α → Answer d) : Outcome Fault (Session d) (Answer d) where
  result := outcome.result.map answer
  state := { session with scan := outcome.state }
  events := outcome.events

def step (session : Session d) : Request → Outcome Fault (Session d) (Answer d)
  | .bind text => { result := .ok .done, state := { session with scan := { text } } }
  | .next => session.proceed session.scan.next .span
  | .decode => session.proceed session.scan.nextMarker .marker
  | .save => { result := .ok .done, state := { session with saved := session.scan } }
  | .restore => { result := .ok .done, state := { session with scan := session.saved } }
  | .delimiters => { result := .ok .delimiters, state := session }

def run (session : Session d) : List Request → List (Outcome Fault (Session d) (Answer d))
  | [] => []
  | request :: requests =>
    let outcome := session.step request
    outcome :: run outcome.state requests

end Session

end Stencil
