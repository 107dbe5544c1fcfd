/-
# Trace records

A record says how one state was reached: the record of the state it was reached
from, and its own fingerprint. It takes eighteen bytes. An initial state was
reached from nowhere, which is written as an offset that no record has.
-/

import Wavefront.Identity

namespace Wavefront

/-- One record of a trace log, as it is written. -/
structure Record where
  /-- Where the state was reached from. -/
  origin : Uid
  fingerprint : Fingerprint
deriving DecidableEq, Repr

namespace Record

/-- The number of bytes of a record. -/
def width : Nat := 18

/-- The offset that stands for no record. -/
def nowhere : UInt64 := 0xffffffffffffffff

/-- The record of an initial state in the log of a worker. -/
def initial (worker : UInt16) (fingerprint : Fingerprint) : Record :=
  ⟨⟨worker, nowhere⟩, fingerprint⟩

/-- The record that a state was reached from, if it is not an initial one. -/
def predecessor? (record : Record) : Option Uid :=
  if record.origin.offset = nowhere then none else some record.origin

/-- Ten bytes for the origin, eight for the fingerprint. -/
def encode (record : Record) : Bytes :=
  record.origin.encode ++ Bytes.ofNat 8 record.fingerprint.toNat

/-- Read the eighteen bytes of a record. -/
def decode (input : Bytes) : Except IoError (Record × Bytes) :=
  match Uid.decode input with
  | .error cause => .error cause
  | .ok (origin, rest) =>
      match Bytes.take? 8 rest with
      | none => .error .endOfInput
      | some (word, rest) => .ok (⟨origin, UInt64.ofNat (Bytes.toNat word)⟩, rest)

/-- All records of a log's bytes, read one after another; an incomplete one at the end
is left out. -/
def decodeAll (input : Bytes) : List Record :=
  go (input.length / width) input
where
  go : Nat → Bytes → List Record
    | 0, _ => []
    | count + 1, input =>
        match decode input with
        | .error _ => []
        | .ok (record, rest) => record :: go count rest

@[simp]
theorem length_encode (record : Record) : record.encode.length = width := by simp [encode, width]

/-- Reading undoes writing, whatever follows. -/
theorem decode_encode (record : Record) (rest : Bytes) :
    decode (record.encode ++ rest) = .ok (record, rest) := by
  have cut : Bytes.take? 8 (Bytes.ofNat 8 record.fingerprint.toNat ++ rest) =
      some (Bytes.ofNat 8 record.fingerprint.toNat, rest) := by
    rw [Bytes.take?_eq_some_iff]
    exact ⟨Bytes.length_ofNat 8 _, rfl⟩
  have large : record.fingerprint.toNat < Nat.pow 256 8 := record.fingerprint.toNat_lt
  simp only [decode, encode, List.append_assoc, Uid.decode_encode, cut,
    Bytes.toNat_ofNat_of_lt large, UInt64.ofNat_toNat]

/-- An offset at which a record may lie is a multiple of the width. -/
theorem offset_of_aligned {offset : UInt64} (aligned : offset.toNat % width = 0) :
    width * (offset.toNat / width) = offset.toNat ∧
      offset = UInt64.ofNat (width * (offset.toNat / width)) := by
  have whole : width * (offset.toNat / width) = offset.toNat :=
    Nat.mul_div_cancel' (Nat.dvd_of_mod_eq_zero aligned)
  exact ⟨whole, by rw [whole, UInt64.ofNat_toNat]⟩

end Record

end Wavefront
