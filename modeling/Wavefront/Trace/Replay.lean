/-
# Replaying a path

Logs keep fingerprints only. The states along a path are found again by asking the
model: the first is the first initial state with the first fingerprint, and every
other is the first successor of the one before that has the next fingerprint.
-/

import Wavefront.Node

namespace Wavefront.Trace

variable {σ : Type}

/-- The states that follow a state along a path; `step` numbers the next of them. -/
def follow (model : Model σ) : (step : Nat) → σ → List Fingerprint → Except Stop (List σ)
  | _, _, [] => .ok []
  | step, state, wanted :: rest =>
      match model.successors state with
      | .error stop => .error stop
      | .ok successors =>
          match successors.find? (model.fingerprint · == wanted) with
          | none => .error (.failure (.expansion (.noSuccessor step wanted)))
          | some next =>
              match follow model (step + 1) next rest with
              | .error stop => .error stop
              | .ok states => .ok (next :: states)

/-- The states along a path of fingerprints. -/
def replay (model : Model σ) (initial : List σ) (path : List Fingerprint) :
    Except Stop (List σ) :=
  match path with
  | [] => .ok []
  | wanted :: rest =>
      match initial.find? (model.fingerprint · == wanted) with
      | none => .error (.failure (.expansion (.noInitialState wanted)))
      | some start =>
          match follow model 1 start rest with
          | .error stop => .error stop
          | .ok states => .ok (start :: states)

end Wavefront.Trace
