/-
# Names of page files and of trace logs

All files of a run are told apart by their names. Two pages never share a name, the
name of a page file that is whole is never that of one still being written, and no
trace log can be mistaken for a page file whatever its stem. Two logs with the same
stem have different names if they belong to different workers.
-/

import Mathlib.Data.List.Basic
import Wavefront.Proofs.Disk.Changes
import Wavefront.Store.Spill
import Wavefront.Trace.Log

namespace Wavefront

/-- Decimal digits tell numbers apart. -/
theorem toDigits_injective : Function.Injective (Nat.toDigits 10) := by
  intro first second same
  rw [← Nat.ofDigitChars_ten_toDigits (n := first), same, Nat.ofDigitChars_ten_toDigits]

theorem toList_toString (n : Nat) : (toString n).toList = Nat.toDigits 10 n := by
  rw [Nat.toString_eq_repr, Nat.toList_repr]

/-- Cutting off an end succeeds exactly on lists with that end. -/
theorem cutEnd?_eq_some_iff {α : Type} [BEq α] [LawfulBEq α] {tail whole stem : List α} :
    cutEnd? tail whole = some stem ↔ whole = stem ++ tail := by
  unfold cutEnd?
  split
  · rename_i suffix
    obtain ⟨front, rfl⟩ := List.isSuffixOf_iff_suffix.mp suffix
    simp
  · rename_i other
    simp only [reduceCtorEq, false_iff]
    rintro rfl
    exact other (List.isSuffixOf_iff_suffix.mpr ⟨stem, rfl⟩)

namespace Page

theorem toList_fileName (id : PageId) :
    (fileName id).toList = Nat.toDigits 10 id ++ ['.', 'p', 'q'] := by
  rw [fileName, String.toList_append, toList_toString]
  rfl

theorem toList_temporaryName (id : PageId) :
    (temporaryName id).toList = Nat.toDigits 10 id ++ ['.', 'p', 'q', '.', 't', 'm', 'p'] := by
  rw [temporaryName, String.toList_append, toList_toString]
  rfl

theorem fileName_injective : Function.Injective fileName := by
  intro first second same
  have chars := congrArg String.toList same
  rw [toList_fileName, toList_fileName] at chars
  exact toDigits_injective (List.append_cancel_right chars)

theorem temporaryName_injective : Function.Injective temporaryName := by
  intro first second same
  have chars := congrArg String.toList same
  rw [toList_temporaryName, toList_temporaryName] at chars
  exact toDigits_injective (List.append_cancel_right chars)

/-- A page that is being written is not yet under its own name, nor under another page's. -/
theorem temporaryName_ne_fileName (first second : PageId) :
    temporaryName first ≠ fileName second := by
  intro same
  have chars := congrArg (fun name => name.toList.getLast?) same
  simp [toList_fileName, toList_temporaryName] at chars

end Page

namespace Spill

/-- Page files are named by digits, an ending, and a further ending while being written. -/
theorem isPageFile_eq_true_iff {name : String} :
    isPageFile name = true ↔
      ∃ digits, digits ≠ [] ∧ (∀ c ∈ digits, c.isDigit = true) ∧
        (name.toList = digits ++ ['.', 'p', 'q'] ∨
          name.toList = digits ++ ['.', 'p', 'q', '.', 't', 'm', 'p']) := by
  -- A name ends in at most one of the two ways, so the further ending is cut off in one case.
  cases scratch : cutEnd? ['.', 't', 'm', 'p'] name.toList with
  | some stem =>
    have whole : name.toList = stem ++ ['.', 't', 'm', 'p'] := cutEnd?_eq_some_iff.mp scratch
    simp only [isPageFile, scratch, Option.getD_some]
    constructor
    · intro accepted
      split at accepted
      · cases accepted
      · rename_i digits cut
        have front := cutEnd?_eq_some_iff.mp cut
        simp only [Bool.and_eq_true, Bool.not_eq_true', List.isEmpty_eq_false_iff,
          List.all_eq_true] at accepted
        exact ⟨digits, accepted.1, accepted.2, .inr (by simp [whole, front])⟩
    · rintro ⟨digits, nonempty, numeric, plain | temporary⟩
      · have last := congrArg List.getLast? (whole.symm.trans plain)
        simp at last
      · have both : stem ++ ['.', 't', 'm', 'p'] =
            (digits ++ ['.', 'p', 'q']) ++ ['.', 't', 'm', 'p'] := by
          rw [← whole, temporary]
          simp
        rw [cutEnd?_eq_some_iff.mpr (List.append_cancel_right both)]
        simpa [nonempty] using numeric
  | none =>
    simp only [isPageFile, scratch, Option.getD_none]
    constructor
    · intro accepted
      split at accepted
      · cases accepted
      · rename_i digits cut
        simp only [Bool.and_eq_true, Bool.not_eq_true', List.isEmpty_eq_false_iff,
          List.all_eq_true] at accepted
        exact ⟨digits, accepted.1, accepted.2, .inl (cutEnd?_eq_some_iff.mp cut)⟩
    · rintro ⟨digits, nonempty, numeric, plain | temporary⟩
      · rw [cutEnd?_eq_some_iff.mpr plain]
        simpa [nonempty] using numeric
      · have cut : cutEnd? ['.', 't', 'm', 'p'] name.toList = some (digits ++ ['.', 'p', 'q']) :=
          cutEnd?_eq_some_iff.mpr (by simp [temporary])
        rw [scratch] at cut
        cases cut

theorem isPageFile_fileName (id : PageId) : isPageFile (Page.fileName id) = true :=
  isPageFile_eq_true_iff.mpr ⟨Nat.toDigits 10 id, Nat.toDigits_ne_nil,
    fun _ digit => Nat.isDigit_of_mem_toDigits (by decide) (by decide) digit,
    .inl (Page.toList_fileName id)⟩

theorem isPageFile_temporaryName (id : PageId) : isPageFile (Page.temporaryName id) = true :=
  isPageFile_eq_true_iff.mpr ⟨Nat.toDigits 10 id, Nat.toDigits_ne_nil,
    fun _ digit => Nat.isDigit_of_mem_toDigits (by decide) (by decide) digit,
    .inr (Page.toList_temporaryName id)⟩

/-- The name of a page file begins with a digit, so it stands for itself in a path. -/
theorem plain_of_isPageFile {name : String} (named : isPageFile name = true) :
    Disk.Plain name := by
  obtain ⟨digits, nonempty, numeric, spelled⟩ := isPageFile_eq_true_iff.mp named
  obtain ⟨first, rest, rfl⟩ := List.exists_cons_of_ne_nil nonempty
  have digit := numeric first (by simp)
  have head : name.toList.head? = some first := by
    rcases spelled with spelled | spelled <;> simp [spelled]
  have starts (other : String) (start : other.toList.head? ≠ some first) : name ≠ other := by
    rintro rfl
    exact start head
  have notDot : first ≠ '.' := by
    rintro rfl
    simp at digit
  refine ⟨?_, starts ".." (by simpa [eq_comm] using notDot)⟩
  simp only [Path.isIdle, Bool.or_eq_false_iff, beq_eq_false_iff_ne]
  exact ⟨starts "" (by simp), starts "." (by simpa [eq_comm] using notDot)⟩

/-- No name with the ending of a trace log is that of a page file. -/
theorem isPageFile_eq_false_of_trace {name : String} {stem : List Char}
    (spelled : name.toList = stem ++ ".trace".toList) : isPageFile name = false := by
  rw [Bool.eq_false_iff]
  intro named
  obtain ⟨digits, -, -, other⟩ := isPageFile_eq_true_iff.mp named
  have last := congrArg List.getLast? spelled
  rcases other with other | other
  · rw [other] at last
    simp at last
  · rw [other] at last
    simp at last

end Spill

/-! ## Trace logs -/

namespace Path

/-- What follows the last slash of a text. -/
def lastPiece (cs : List Char) : List Char := ((splitSlashes cs).getLast?).getD []

theorem splitSlashes_ne_nil (cs : List Char) : splitSlashes cs ≠ [] := by
  cases cs with
  | nil => simp [splitSlashes]
  | cons c rest =>
    rw [splitSlashes]
    split
    · simp
    · split <;> simp

theorem splitSlashes_of_no_slash {cs : List Char} (free : '/' ∉ cs) : splitSlashes cs = [cs] := by
  induction cs with
  | nil => rfl
  | cons c rest ih =>
    simp only [List.mem_cons, not_or] at free
    rw [splitSlashes, if_neg (Ne.symm free.1), ih free.2]

/-- Text without slashes goes to the end of the last piece. -/
theorem splitSlashes_append (front : List Char) {back : List Char} (free : '/' ∉ back) :
    splitSlashes (front ++ back) = (splitSlashes front).dropLast ++ [lastPiece front ++ back] := by
  induction front with
  | nil => simp [splitSlashes_of_no_slash free, lastPiece, splitSlashes]
  | cons c rest ih =>
    obtain ⟨piece, more, cut⟩ := List.exists_cons_of_ne_nil (splitSlashes_ne_nil rest)
    rw [List.cons_append, splitSlashes, lastPiece, splitSlashes, ih]
    rw [lastPiece] at *
    by_cases slash : c = '/'
    · simp [if_pos slash, cut]
    · rw [if_neg slash, if_neg slash, cut]
      cases more with
      | nil => simp
      | cons next later => simp

end Path

namespace Log

/-- The name of a worker's log in the directory that holds it: slashes in the stem lead
elsewhere and are no part of it. -/
def lastName (specName : String) (worker : UInt16) : String :=
  String.ofList (Path.lastPiece specName.toList ++
    ('-' :: Nat.toDigits 10 worker.toNat ++ ".trace".toList))

theorem toList_lastName (specName : String) (worker : UInt16) :
    (lastName specName worker).toList =
      (Path.lastPiece specName.toList ++ '-' :: Nat.toDigits 10 worker.toNat) ++
        ".trace".toList := by
  simp [lastName]

theorem lastName_injective (specName : String) : Function.Injective (lastName specName) := by
  intro first second same
  have chars := congrArg String.toList same
  rw [toList_lastName, toList_lastName] at chars
  have digits := List.append_cancel_left (List.append_cancel_right chars)
  exact UInt16.toNat_inj.mp (toDigits_injective (List.cons.inj digits).2)

theorem plain_lastName (specName : String) (worker : UInt16) :
    Disk.Plain (lastName specName worker) := by
  have ends (other : String) (last : other.toList.getLast? ≠ some 'e') :
      lastName specName worker ≠ other := by
    rintro rfl
    exact last (by rw [toList_lastName, List.getLast?_append]; rfl)
  refine ⟨?_, ends ".." (by decide)⟩
  simp only [Path.isIdle, Bool.or_eq_false_iff, beq_eq_false_iff_ne]
  exact ⟨ends "" (by decide), ends "." (by decide)⟩

/-- No log has the name of a page file. -/
theorem isPageFile_lastName (specName : String) (worker : UInt16) :
    Spill.isPageFile (lastName specName worker) = false :=
  Spill.isPageFile_eq_false_of_trace (toList_lastName specName worker)

/-- The path of a log ends with the log's name, wherever its stem leads. -/
theorem pieces_join_fileName (directory : Path) (specName : String) (worker : UInt16) :
    ∃ above, (directory.join (fileName specName worker)).pieces =
      above ++ [lastName specName worker] := by
  have free : '/' ∉ '-' :: Nat.toDigits 10 worker.toNat ++ ".trace".toList := by
    simp only [List.cons_append, List.mem_cons, List.mem_append, not_or]
    refine ⟨by decide, fun digit => ?_, by decide⟩
    have numeric := Nat.isDigit_of_mem_toDigits (by decide) (by decide) digit
    revert numeric
    decide
  have spelled : (fileName specName worker).toList =
      specName.toList ++ ('-' :: Nat.toDigits 10 worker.toNat ++ ".trace".toList) := by
    simp [fileName, String.toList_append]
  have whole : (Path.ofText (fileName specName worker)).pieces =
      (Path.splitSlashes specName.toList).dropLast.map String.ofList ++
        [lastName specName worker] := by
    simp only [Path.ofText, spelled, Path.splitSlashes_append _ free, List.map_append, lastName,
      List.map_cons, List.map_nil]
  unfold Path.join
  split
  · exact ⟨_, whole⟩
  · exact ⟨directory.directoryPieces ++ (Path.splitSlashes specName.toList).dropLast.map
      String.ofList, by simp only [whole, List.append_assoc]⟩

/-- A log lies under its own name. -/
theorem place_of_locate {disk : Disk} {directory : Path} {specName : String} {worker : UInt16}
    {place : Location}
    (found : disk.locate (directory.join (fileName specName worker)) = .ok place) :
    ∃ above, place = above ++ [lastName specName worker] := by
  obtain ⟨above, pieces⟩ := pieces_join_fileName directory specName worker
  have walked := (Disk.locate_eq_ok_iff.mp found).2
  rw [pieces, Disk.walk_append] at walked
  cases reached : disk.walk [] above with
  | error cause => simp [reached] at walked
  | ok stop =>
    simp only [reached] at walked
    exact ⟨stop, (Disk.eq_of_walk_plain (plain_lastName specName worker) walked).2⟩

end Log

end Wavefront
