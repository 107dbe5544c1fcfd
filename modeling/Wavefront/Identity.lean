/-
# Fingerprints and record references

A state is told apart by its 64-bit fingerprint. A discovered state has in
addition one record in one worker's trace log, and `Uid` names that record by the
worker and the byte offset. Both have a written form, and a `Uid` has a binary one
of ten bytes.
-/

import Wavefront.Bytes
import Wavefront.IoError
import Wavefront.Text.Numeral

namespace Wavefront

/-- The 64-bit value by which states are told apart. -/
abbrev Fingerprint := UInt64

namespace Fingerprint

/-- Sixteen hexadecimal digits. -/
def text (fingerprint : Fingerprint) : String := Text.hexPadded 16 fingerprint.toNat

/-- The digits with a mark of what they are. -/
def details (fingerprint : Fingerprint) : String := "FP(" ++ fingerprint.text ++ ")"

end Fingerprint

/-- A reference to one record in one worker's trace log. -/
structure Uid where
  worker : UInt16
  offset : UInt64
deriving DecidableEq, Repr, Inhabited

namespace Uid

/-- Worker and offset, joined by an at sign. -/
def text (uid : Uid) : String := toString uid.worker.toNat ++ "@" ++ toString uid.offset.toNat

/-- Both parts under their names. -/
def details (uid : Uid) : String :=
  "Uid \x7b worker: " ++ toString uid.worker.toNat ++ ", offset: " ++ toString uid.offset.toNat ++
    " \x7d"

/-- References are ordered by worker first and by offset second. -/
def le (a b : Uid) : Bool :=
  a.worker < b.worker || (a.worker == b.worker && a.offset ≤ b.offset)

/-- Two bytes for the worker, eight for the offset. -/
def encode (uid : Uid) : Bytes :=
  Bytes.ofNat 2 uid.worker.toNat ++ Bytes.ofNat 8 uid.offset.toNat

/-- Read the ten bytes of a reference. -/
def decode (input : Bytes) : Except IoError (Uid × Bytes) :=
  match Bytes.take? 10 input with
  | none => .error .endOfInput
  | some (word, rest) =>
      .ok (⟨UInt16.ofNat (Bytes.toNat (word.take 2)),
        UInt64.ofNat (Bytes.toNat (word.drop 2))⟩, rest)

@[simp]
theorem length_encode (uid : Uid) : uid.encode.length = 10 := by simp [encode]

/-- Reading undoes writing, whatever follows. -/
theorem decode_encode (uid : Uid) (rest : Bytes) :
    decode (uid.encode ++ rest) = .ok (uid, rest) := by
  have cut : Bytes.take? 10 (uid.encode ++ rest) = some (uid.encode, rest) := by
    rw [Bytes.take?_eq_some_iff]
    exact ⟨uid.length_encode, rfl⟩
  have low : uid.encode.take 2 = Bytes.ofNat 2 uid.worker.toNat := by simp [encode]
  have high : uid.encode.drop 2 = Bytes.ofNat 8 uid.offset.toNat := by simp [encode]
  have small : uid.worker.toNat < Nat.pow 256 2 := uid.worker.toNat_lt
  have large : uid.offset.toNat < Nat.pow 256 8 := uid.offset.toNat_lt
  simp only [decode, cut, low, high, Bytes.toNat_ofNat_of_lt small, Bytes.toNat_ofNat_of_lt large,
    UInt16.ofNat_toNat, UInt64.ofNat_toNat]

end Uid

end Wavefront
