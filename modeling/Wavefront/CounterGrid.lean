/-
# The counter grid

A small model that comes with the engine. A state is a pair of counters, both of
which start at zero; each step raises one of them by one, up to its bound. A bound
on the sum of the counters can be asked for as a property, and the model then
raises a violation in every state that exceeds it.
-/

import Wavefront.Node

namespace Wavefront

/-- Two counters. -/
structure GridState where
  x : UInt32
  y : UInt32
deriving DecidableEq, Repr, Inhabited

namespace GridState

/-- The multiplier that scatters counters over fingerprints. -/
def multiplier : UInt64 := 0xf1357aea2e62a9c5

/-- A word with its bits moved so many places to the left, round the end. -/
def rotateLeft (word : UInt64) (places : UInt64) : UInt64 :=
  (word <<< places) ||| (word >>> (64 - places))

/-- Both counters scattered over 64 bits. -/
def fingerprint (state : GridState) : Fingerprint :=
  rotateLeft ((state.x.toUInt64 * multiplier + state.y.toUInt64) * multiplier) 26

/-- Four bytes for each counter. -/
def encode (state : GridState) : Written :=
  .ofBytes (Bytes.ofNat 4 state.x.toNat ++ Bytes.ofNat 4 state.y.toNat)

/-- Read both counters. -/
def decode (input : Bytes) : Except IoError (GridState × Bytes) :=
  match Bytes.take? 4 input with
  | none => .error .endOfInput
  | some (x, rest) =>
      match Bytes.take? 4 rest with
      | none => .error .endOfInput
      | some (y, rest) =>
          .ok (⟨UInt32.ofNat (Bytes.toNat x), UInt32.ofNat (Bytes.toNat y)⟩, rest)

/-- Reading undoes writing, whatever follows. -/
theorem decode_encode_append (state : GridState) (rest : Bytes) :
    decode (state.encode.bytes ++ rest) = .ok (state, rest) := by
  have first : Bytes.take? 4 (state.encode.bytes ++ rest) =
      some (Bytes.ofNat 4 state.x.toNat, Bytes.ofNat 4 state.y.toNat ++ rest) := by
    rw [Bytes.take?_eq_some_iff]
    exact ⟨Bytes.length_ofNat 4 _, by simp [encode, Written.ofBytes, List.append_assoc]⟩
  have second : Bytes.take? 4 (Bytes.ofNat 4 state.y.toNat ++ rest) =
      some (Bytes.ofNat 4 state.y.toNat, rest) := by
    rw [Bytes.take?_eq_some_iff]
    exact ⟨Bytes.length_ofNat 4 _, rfl⟩
  have left : state.x.toNat < Nat.pow 256 4 := state.x.toNat_lt
  have right : state.y.toNat < Nat.pow 256 4 := state.y.toNat_lt
  simp only [decode, first, second, Bytes.toNat_ofNat_of_lt left, Bytes.toNat_ofNat_of_lt right,
    UInt32.ofNat_toNat]

end GridState

/-- The bounds of a counter grid. -/
structure CounterGrid where
  maxX : UInt32
  maxY : UInt32
  /-- The bound on the sum of the counters, if it is to be checked. -/
  maxSum : Option UInt32
deriving DecidableEq, Repr

namespace CounterGrid

/-- Both counters at zero. -/
def initialStates (_ : CounterGrid) : List GridState := [⟨0, 0⟩]

/-- The number of reachable states, if it is a 64-bit word. -/
def stateCount (grid : CounterGrid) : Except Fault Nat :=
  let count := (grid.maxX.toNat + 1) * (grid.maxY.toNat + 1)
  if count < Text.wordLimit then .ok count else .error .multiplicationOverflow

/-- What is said about a state whose sum is too large. -/
def violationText (state : GridState) (bound : UInt32) : String :=
  "x + y = " ++ toString (state.x.toNat + state.y.toNat) ++ " exceeds " ++ toString bound.toNat ++
    " at (" ++ toString state.x.toNat ++ ", " ++ toString state.y.toNat ++ ")"

/-- Whether a state exceeds the bound on the sum. -/
def exceeds (grid : CounterGrid) (state : GridState) : Option UInt32 :=
  grid.maxSum.filter fun bound => bound.toNat < state.x.toNat + state.y.toNat

/-- The states with one counter raised: the first, then the second. -/
def neighbours (grid : CounterGrid) (state : GridState) : List GridState :=
  (if state.x < grid.maxX then [{ state with x := state.x + 1 }] else []) ++
    (if state.y < grid.maxY then [{ state with y := state.y + 1 }] else [])

/-- The successors of a state, or the violation that it is. -/
def successors (grid : CounterGrid) (state : GridState) : Except Stop (List GridState) :=
  match grid.exceeds state with
  | some bound => .error (.failure (.violation (violationText state bound)))
  | none => .ok (grid.neighbours state)

/-- The grid as a model. -/
def model (grid : CounterGrid) : Model GridState where
  fingerprint := GridState.fingerprint
  encode := GridState.encode
  decode := GridState.decode
  successors := grid.successors

/-- Every state of a grid is written without a refusal and read back whole. -/
theorem lossless_model (grid : CounterGrid) : grid.model.Lossless := by
  intro state rest
  exact ⟨rfl, GridState.decode_encode_append state rest⟩

end CounterGrid

end Wavefront
