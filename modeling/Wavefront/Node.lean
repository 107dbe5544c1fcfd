/-
# Models and nodes

The engine never looks inside a state. It needs four things of a model: a
fingerprint, a binary encoding and its inverse, and the successors of a state.
Each of the last three may refuse. A `Node` is a state in flight: the state
together with its level, which is 1 for an initial state, and the trace record
that introduced it.
-/

import Wavefront.Failure

namespace Wavefront

/-- What an encoder produced: the bytes it wrote, and why it then gave up, if it did. -/
structure Written where
  bytes : Bytes
  refusal : Option IoError
deriving DecidableEq, Repr

namespace Written

/-- Bytes written without a refusal. -/
def ofBytes (bytes : Bytes) : Written := ⟨bytes, none⟩

/-- Write one thing after another; a refusal is the end of both. -/
def append (first second : Written) : Written :=
  match first.refusal with
  | some _ => first
  | none => ⟨first.bytes ++ second.bytes, second.refusal⟩

@[simp]
theorem append_ofBytes (bytes : Bytes) (second : Written) :
    (ofBytes bytes).append second = ⟨bytes ++ second.bytes, second.refusal⟩ := rfl

end Written

/-- What the engine has to know about states. -/
structure Model (σ : Type) where
  /-- The value by which states are told apart. -/
  fingerprint : σ → Fingerprint
  /-- The binary form of a state. -/
  encode : σ → Written
  /-- Read a state, and return what follows it. -/
  decode : Bytes → Except IoError (σ × Bytes)
  /-- The states reached in one step. -/
  successors : σ → Except Stop (List σ)

/-- Every state is written without a refusal and read back whole, whatever follows it. -/
def Model.Lossless {σ : Type} (model : Model σ) : Prop :=
  ∀ state rest, (model.encode state).refusal = none ∧
    model.decode ((model.encode state).bytes ++ rest) = .ok (state, rest)

/-- A state together with its place in the explored graph. -/
structure Node (σ : Type) where
  state : σ
  /-- The number of states on the path that led here; 1 for an initial state. -/
  level : UInt32
  /-- The trace record that introduced the state. -/
  uid : Uid
deriving DecidableEq, Repr

namespace Node

variable {σ : Type}

/-- Level, reference, state: four bytes, ten bytes, and the model's own. -/
def encode (model : Model σ) (node : Node σ) : Written :=
  (Written.ofBytes (Bytes.ofNat 4 node.level.toNat ++ node.uid.encode)).append
    (model.encode node.state)

/-- Read a node, and return what follows it. -/
def decode (model : Model σ) (input : Bytes) : Except IoError (Node σ × Bytes) :=
  match Bytes.take? 4 input with
  | none => .error .endOfInput
  | some (level, rest) =>
      match Uid.decode rest with
      | .error cause => .error cause
      | .ok (uid, rest) =>
          match model.decode rest with
          | .error cause => .error cause
          | .ok (state, rest) => .ok (⟨state, UInt32.ofNat (Bytes.toNat level), uid⟩, rest)

/-- What is read of a node that was written depends on what is read of its state. -/
theorem decode_encode (model : Model σ) (node : Node σ) (rest : Bytes) :
    decode model ((node.encode model).bytes ++ rest) =
      match model.decode ((model.encode node.state).bytes ++ rest) with
      | .error cause => .error cause
      | .ok (state, rest) => .ok (⟨state, node.level, node.uid⟩, rest) := by
  have cut : Bytes.take? 4 ((node.encode model).bytes ++ rest) =
      some (Bytes.ofNat 4 node.level.toNat,
        node.uid.encode ++ ((model.encode node.state).bytes ++ rest)) := by
    rw [Bytes.take?_eq_some_iff]
    exact ⟨Bytes.length_ofNat 4 _, by simp [encode, List.append_assoc]⟩
  have small : node.level.toNat < Nat.pow 256 4 := node.level.toNat_lt
  simp only [decode, cut, Uid.decode_encode, Bytes.toNat_ofNat_of_lt small, UInt32.ofNat_toNat]

/-- Reading undoes writing, for a node whose state can be read back. -/
theorem decode_encode_append (model : Model σ) (node : Node σ) (rest : Bytes)
    (back : model.decode ((model.encode node.state).bytes ++ rest) = .ok (node.state, rest)) :
    decode model ((node.encode model).bytes ++ rest) = .ok (node, rest) := by
  rw [decode_encode, back]

end Node

end Wavefront
