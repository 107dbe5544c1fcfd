/-
# When a page is written

A name in an open directory can be reached if it is not too long, nor its path. The names of
page files are short, and the name under which a page is written is longer than its final one.
So a page is written and renamed without fail if the path of its temporary file is not too
long, no directory is in the way, and the page is not too large and none of its states refuses
to be written. A path that is too long is where writing fails, whatever the disk holds.
-/

import Mathlib.Data.String.Basic
import Wavefront.Proofs.Disk.Mirrors
import Wavefront.Proofs.Disk.PageFiles

namespace Wavefront

variable {σ : Type}

/-! ## The length of names and paths -/

namespace Path

theorem foldr_utf8ByteSize (pieces : List String) (rest more : Nat) :
    pieces.foldr (·.utf8ByteSize + ·) (rest + more) =
      pieces.foldr (·.utf8ByteSize + ·) rest + more := by
  induction pieces with
  | nil => rfl
  | cons piece pieces ih => rw [List.foldr_cons, List.foldr_cons, ih, Nat.add_assoc]

/-- A name adds its length to a path. -/
theorem byteSize_child (path : Path) (name : String) :
    (path.child name).byteSize = (path.child "").byteSize + name.utf8ByteSize := by
  simp only [byteSize, child, List.foldr_append, List.foldr_cons, List.foldr_nil,
    List.length_append, List.length_singleton, Nat.add_sub_cancel, String.utf8ByteSize_empty]
  rw [Nat.add_comm name.utf8ByteSize, foldr_utf8ByteSize, Nat.zero_add]

/-- Slashes at the end of a path take a byte each. -/
theorem byteSize_slashes (name : String) (slashes : Nat) :
    (⟨name :: List.replicate slashes ""⟩ : Path).byteSize = name.utf8ByteSize + slashes := by
  have blank (count rest : Nat) :
      (List.replicate count "").foldr (·.utf8ByteSize + ·) rest = rest := by
    induction count with
    | zero => rfl
    | succ count ih =>
      rw [List.replicate_succ, List.foldr_cons, ih, String.utf8ByteSize_empty, Nat.zero_add]
  rw [byteSize, List.foldr_cons, blank, List.length_cons, List.length_replicate,
    Nat.add_sub_cancel]

/-- Nothing put under a path that ends with a slash is that path. -/
theorem child_empty {path : Path} (trailing : path.pieces.getLast? = some "") :
    path.child "" = path := by
  obtain ⟨initial, same⟩ := List.getLast?_eq_some_iff.mp trailing
  rw [child, directoryPieces, if_pos trailing, same, List.dropLast_concat, ← same]

theorem hasNul_child {path : Path} {name : String} (clean : path.hasNul = false)
    (plain : '\x00' ∉ name.toList) : (path.child name).hasNul = false := by
  simp only [hasNul, child, List.any_eq_false, List.mem_append, List.mem_singleton] at clean ⊢
  rintro piece (inside | rfl)
  · refine clean piece ?_
    unfold directoryPieces at inside
    split at inside
    · exact List.dropLast_subset _ inside
    · exact inside
  · simpa using plain

end Path

namespace Page

/-- Digits take one byte each. -/
theorem utf8Len_of_digits {digits : List Char} (numeric : ∀ c ∈ digits, c.isDigit = true) :
    String.utf8Len digits = digits.length := by
  induction digits with
  | nil => rfl
  | cons c rest ih =>
    have one : c.utf8Size = 1 := by
      have digit := numeric c List.mem_cons_self
      simp only [Char.isDigit, Bool.and_eq_true, decide_eq_true_eq] at digit
      have small : c.val ≤ 0x7f := UInt32.le_trans digit.2 (by decide)
      simp [Char.utf8Size, small]
    rw [String.utf8Len_cons, ih fun other member => numeric other (List.mem_cons_of_mem _ member),
      one, List.length_cons]

/-- The names of the files of a page take a byte for each digit, and those of the ending. -/
theorem utf8ByteSize_names (id : PageId) :
    (fileName id).utf8ByteSize = (Nat.toDigits 10 id).length + 3 ∧
      (temporaryName id).utf8ByteSize = (Nat.toDigits 10 id).length + 7 := by
  have digits := utf8Len_of_digits fun (c : Char) (member : c ∈ Nat.toDigits 10 id) =>
    Nat.isDigit_of_mem_toDigits (by decide) (by decide) member
  constructor
  · rw [← String.utf8Len_toList, toList_fileName, String.utf8Len_append, digits]
    rfl
  · rw [← String.utf8Len_toList, toList_temporaryName, String.utf8Len_append, digits]
    rfl

/-- The numbers of pages have twenty digits at most. -/
theorem utf8ByteSize_temporaryName_le {id : PageId} (small : id ≤ 2 ^ 64) :
    (temporaryName id).utf8ByteSize ≤ 27 := by
  have digits : (Nat.toDigits 10 id).length ≤ 20 :=
    (Nat.length_toDigits_le_iff (by decide) (by decide)).mpr (Nat.lt_of_le_of_lt small (by decide))
  rw [(utf8ByteSize_names id).2]
  omega

theorem nul_notMem_toList {name : String} (named : Spill.isPageFile name = true) :
    '\x00' ∉ name.toList := by
  obtain ⟨digits, -, numeric, spelled | spelled⟩ := Spill.isPageFile_eq_true_iff.mp named
  all_goals
    rw [spelled, List.mem_append]
    rintro (member | member)
    · exact absurd (numeric _ member) (by decide)
    · exact absurd member (by decide)

end Page

/-! ## Reaching names -/

namespace Disk

variable {disk : Disk} {path : Path} {place : Location} {name : String}

/-- A path that will do has no zero in it. -/
theorem hasNul_of_check (checked : disk.check path = .ok ()) : path.hasNul = false := by
  unfold check at checked
  split at checked
  · cases checked
  · rename_i none
    simpa using none

/-- A short name under a path that will do can be reached unless its path is too long. -/
theorem reach_eq_ok (checked : disk.check path = .ok ()) (clean : '\x00' ∉ name.toList)
    (fits : (path.child name).byteSize ≤ disk.pathLimit) (short : name.utf8ByteSize ≤ nameLimit) :
    disk.reach path name = .ok () := by
  have checked' : disk.check (path.child name) = .ok () := by
    rw [check, Path.hasNul_child (hasNul_of_check checked) clean, if_neg (by simp),
      if_neg (by omega)]
  simp only [reach, checked']
  rw [if_neg (by omega)]

theorem locate_eq_error (clean : path.hasNul = false) (long : disk.pathLimit < path.byteSize) :
    disk.locate path = .error .nameTooLong := by
  simp [locate, check, clean, long, bind, Except.bind]

/-- A file is made wherever no directory is in the way. -/
theorem exists_create (located : disk.locate path = .ok place)
    (clear : disk.get? place ≠ some .directory) :
    ∃ handle after, disk.create path = .ok (handle, after) := by
  cases held : disk.get? place with
  | none => exact ⟨_, _, by simp [create, located, held, bind, Except.bind]; exact ⟨rfl, rfl⟩⟩
  | some entry =>
    cases entry with
    | directory => exact absurd held clear
    | file stamp bytes =>
      exact ⟨_, _, by simp [create, located, held, bind, Except.bind]; exact ⟨rfl, rfl⟩⟩

/-- Bytes are put at the end of any file that a path leads to. -/
theorem exists_append {stamp : Nat} {old : Bytes} (located : disk.locate path = .ok place)
    (held : disk.get? place = some (.file stamp old)) (bytes : Bytes) :
    ∃ after, disk.append path bytes = .ok after :=
  ⟨_, by simp only [append, lookup_eq_ok_iff.mpr ⟨located, held⟩, bind, Except.bind]; rfl⟩

/-- A file is renamed unless a directory is in the way. -/
theorem exists_rename {source target : Path} {origin : Location} {entry : Entry}
    (located : disk.locate source = .ok origin) (held : disk.get? origin = some entry)
    (aimed : disk.locate target = .ok place) (clear : disk.get? place ≠ some .directory) :
    ∃ after, disk.rename source target = .ok after := by
  simp only [rename, lookup_eq_ok_iff.mpr ⟨located, held⟩, aimed, bind, Except.bind]
  exact ⟨_, rfl⟩

end Disk

/-! ## Writing -/

namespace Page

variable {model : Model σ} {directory : Path} {place : Location} {disk : Disk} {page : Page σ}

/-- Both files of a page can be reached if the path of the temporary one is not too long. -/
theorem locate_names {id : PageId} (found : disk.lookup directory = .ok (place, .directory))
    (numbered : id ≤ 2 ^ 64)
    (fits : (directory.child (temporaryName id)).byteSize ≤ disk.pathLimit) :
    disk.locate (directory.child (temporaryName id)) = .ok (place ++ [temporaryName id]) ∧
      disk.locate (directory.child (fileName id)) = .ok (place ++ [fileName id]) := by
  have opens := Disk.opens_of_lookup found
  have checked := (Disk.locate_eq_ok_iff.mp (Disk.lookup_eq_ok_iff.mp found).1).1
  have short := utf8ByteSize_temporaryName_le numbered
  obtain ⟨size, size'⟩ := utf8ByteSize_names id
  have reached {name : String} (named : Spill.isPageFile name = true)
      (least : name.utf8ByteSize ≤ (temporaryName id).utf8ByteSize) :
      disk.locate (directory.child name) = .ok (place ++ [name]) := by
    rw [Path.byteSize_child] at fits
    have fits' : (directory.child name).byteSize ≤ disk.pathLimit := by
      rw [Path.byteSize_child]
      omega
    rw [opens.locate_eq (Spill.plain_of_isPageFile named),
      Disk.reach_eq_ok checked (nul_notMem_toList named) fits' (by rw [Disk.nameLimit]; omega)]
    rfl
  exact ⟨reached (Spill.isPageFile_temporaryName id) le_rfl,
    reached (Spill.isPageFile_fileName id) (by omega)⟩

/-- A page whose states can all be restored is written without a refusal. -/
theorem refusal_image (restores : ∀ node ∈ page.nodes, model.Restores node.state) :
    (page.image model).refusal = none := by
  have nodes : ∀ nodes : List (Node σ), (∀ node ∈ nodes, model.Restores node.state) →
      (encodeNodes model nodes).refusal = none := by
    intro nodes each
    induction nodes with
    | nil => rfl
    | cons node rest ih =>
      exact refusal_encodeNodes_cons.mpr ⟨(each node List.mem_cons_self []).1,
        ih fun other member => each other (List.mem_cons_of_mem _ member)⟩
  exact nodes _ fun node member => restores node (Array.mem_toList_iff.mp member)

/-- The temporary file of a page is written up to its end or to what refuses to be written. -/
theorem exists_begun (model : Model σ) (opens : disk.Opens directory place)
    (draft : disk.locate (directory.child (temporaryName page.id)) =
      .ok (place ++ [temporaryName page.id]))
    (clear : disk.get? (place ++ [temporaryName page.id]) ≠ some .directory) :
    ∃ handle first second,
      disk.create (directory.child (temporaryName page.id)) = .ok (handle, first) ∧
      first.append (directory.child (temporaryName page.id)) (page.image model).bytes =
        .ok second ∧
      page.Begun directory place disk [(page.image model).bytes] second := by
  obtain ⟨handle, first, made⟩ := Disk.exists_create draft clear
  obtain ⟨located, changes, empty⟩ := Disk.create_eq_ok made
  obtain ⟨second, appended⟩ := Disk.exists_append (changes.locate_iff.mpr located) empty
    (page.image model).bytes
  refine ⟨handle, first, second, made, appended, begun_of_perform opens ?_⟩
  simp only [List.map_cons, List.map_nil, Plan.perform, FileStep.perform, made, Except.map,
    appended]

/-- A page is written if both of its files can be, and it is neither too large nor refused. -/
theorem exists_write_eq_ok (opens : disk.Opens directory place)
    (draft : disk.locate (directory.child (temporaryName page.id)) =
      .ok (place ++ [temporaryName page.id]))
    (final : disk.locate (directory.child (fileName page.id)) = .ok (place ++ [fileName page.id]))
    (clear : disk.get? (place ++ [temporaryName page.id]) ≠ some .directory)
    (clear' : disk.get? (place ++ [fileName page.id]) ≠ some .directory)
    (small : page.size < countLimit) (accepted : (page.image model).refusal = none) :
    ∃ after, page.write model directory disk =
      (.ok (directory.child (fileName page.id)), after) := by
  obtain ⟨handle, first, second, made, appended, changes, located, stamp, drafted⟩ :=
    exists_begun model opens draft clear
  obtain ⟨third, renamed⟩ := Disk.exists_rename (changes.locate_iff.mpr located) drafted
    (changes.locate_iff.mpr final) fun there => clear' ((changes.directories _).mp there)
  refine ⟨third, ?_⟩
  rw [write, if_neg (by omega)]
  simp only [writePlan, closingPlan, Plan.perform, FileStep.perform, made, Except.map, appended,
    accepted, renamed]

/-- A page with a state that refuses to be written leaves its temporary file behind. -/
theorem exists_write_refused {cause : IoError} (opens : disk.Opens directory place)
    (draft : disk.locate (directory.child (temporaryName page.id)) =
      .ok (place ++ [temporaryName page.id]))
    (clear : disk.get? (place ++ [temporaryName page.id]) ≠ some .directory)
    (small : page.size < countLimit) (refused : (page.image model).refusal = some cause) :
    ∃ after, page.write model directory disk =
        (.error (.pageWrite (directory.child (temporaryName page.id)) (.io cause)), after) ∧
      after.get? (place ++ [temporaryName page.id]) ≠ none := by
  obtain ⟨handle, first, second, made, appended, -, -, stamp, drafted⟩ :=
    exists_begun model opens draft clear
  refine ⟨second, ?_, by simp [drafted]⟩
  rw [write, if_neg (by omega)]
  simp only [writePlan, closingPlan, Plan.perform, FileStep.perform, FileStep.blamed, made,
    Except.map, appended, refused]

/-- A page whose temporary file has a path that is too long is not written. -/
theorem write_of_long (clean : directory.hasNul = false) (small : page.size < countLimit)
    (long : disk.pathLimit < (directory.child (temporaryName page.id)).byteSize) :
    page.write model directory disk =
      (.error (.pageWrite (directory.child (temporaryName page.id)) (.io .nameTooLong)), disk) := by
  have located := Disk.locate_eq_error (Path.hasNul_child clean
    (nul_notMem_toList (Spill.isPageFile_temporaryName page.id))) long
  have refused : disk.create (directory.child (temporaryName page.id)) = .error .nameTooLong := by
    simp only [Disk.create, located, bind, Except.bind]
  rw [write, if_neg (by omega)]
  simp only [writePlan, Plan.perform, FileStep.perform, FileStep.blamed, refused, Except.map]

end Page

end Wavefront
