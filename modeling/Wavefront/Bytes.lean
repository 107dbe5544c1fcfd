/-
# Little-endian words in byte strings

Every number in a page file or a trace log has a fixed width and its least
significant byte first. `Bytes.ofNat` and `Bytes.toNat` are the two directions,
and `Bytes.take?` is the only way a reader consumes input: it takes exactly as
many bytes as it was asked for, or none at all.
-/

namespace Wavefront

/-- Byte strings as readers and writers see them. -/
abbrev Bytes := List UInt8

namespace Bytes

/-- The `width` low-order bytes of a number, least significant first. -/
def ofNat : (width n : Nat) → Bytes
  | 0, _ => []
  | width + 1, n => UInt8.ofNat (n % 256) :: ofNat width (n / 256)

/-- The number whose bytes are given, least significant first. -/
def toNat : Bytes → Nat
  | [] => 0
  | byte :: rest => byte.toNat + 256 * toNat rest

/-- Split off the first `count` bytes, if there are that many. -/
def take? : (count : Nat) → Bytes → Option (Bytes × Bytes)
  | 0, rest => some ([], rest)
  | _ + 1, [] => none
  | count + 1, byte :: rest =>
      (take? count rest).map fun (taken, left) => (byte :: taken, left)

@[simp]
theorem length_ofNat (width n : Nat) : (ofNat width n).length = width := by
  induction width generalizing n with
  | zero => rfl
  | succ width ih => simp [ofNat, ih]

theorem toNat_ofNat (width n : Nat) : toNat (ofNat width n) = n % Nat.pow 256 width := by
  induction width generalizing n with
  | zero => exact (Nat.mod_one n).symm
  | succ width ih =>
    have low : (UInt8.ofNat (n % 256)).toNat = n % 256 := by
      simp [UInt8.toNat_ofNat']
    have grown : Nat.pow 256 (width + 1) = 256 * Nat.pow 256 width := Nat.mul_comm _ _
    rw [ofNat, toNat, low, ih, grown, Nat.mod_mul]

/-- A number that fits its width is read back as written. -/
theorem toNat_ofNat_of_lt {width n : Nat} (fits : n < Nat.pow 256 width) :
    toNat (ofNat width n) = n := by
  rw [toNat_ofNat, Nat.mod_eq_of_lt fits]

theorem take?_append (taken rest : Bytes) :
    take? taken.length (taken ++ rest) = some (taken, rest) := by
  induction taken with
  | nil => simp [take?]
  | cons byte taken ih => simp [take?, ih]

/-- Taking succeeds exactly by cutting the input in two. -/
theorem take?_eq_some_iff {count : Nat} {input taken rest : Bytes} :
    take? count input = some (taken, rest) ↔ taken.length = count ∧ input = taken ++ rest := by
  constructor
  · intro found
    induction count generalizing input taken with
    | zero => simp_all [take?]
    | succ count ih =>
      cases input with
      | nil => simp [take?] at found
      | cons byte input =>
        simp only [take?, Option.map_eq_some_iff, Prod.exists] at found
        obtain ⟨more, left, inner, same⟩ := found
        cases same
        obtain ⟨len, cut⟩ := ih inner
        simp [len, cut]
  · rintro ⟨rfl, rfl⟩
    exact take?_append taken rest

end Bytes

end Wavefront
