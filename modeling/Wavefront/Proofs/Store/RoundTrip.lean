/-
# Pages survive a trip through a file

Writing a page into a directory and reading it back gives the page, with whatever capacity it
is asked for that has room for its nodes, and leaves the directory as it was but for the two
files of the page, which are gone. What the directory held before does not matter unless a
directory is in the way; the length of its path does.
-/

import Wavefront.Proofs.Disk.Images
import Wavefront.Proofs.Store.Refinement

namespace Wavefront.Page

variable {σ : Type} {model : Model σ} {page : Page σ} {directory path : Path} {place : Location}
  {disk after : Disk} {capacity stamp : Nat}

/-- A page of at least one node, not too large, is written wherever its files can be made, and read
back from the path that writing it answers with. What comes back is the page with the capacity
that was asked for; both of its files are gone, and nothing else has changed. -/
theorem read_of_write (writable : Writable page.id directory place disk)
    (restores : ∀ node ∈ page.nodes, model.Restores node.state)
    (nonempty : 0 < page.size) (small : page.size < countLimit) (room : page.size ≤ capacity) :
    ∃ path after final, page.write model directory disk = (.ok path, after) ∧
      Page.read model path page.id capacity after =
        (.ok ⟨page.id, capacity, page.nodes⟩, final) ∧
      final.get? (place ++ [fileName page.id]) = none ∧
      final.get? (place ++ [temporaryName page.id]) = none ∧
      ∀ target, target ≠ place ++ [fileName page.id] →
        target ≠ place ++ [temporaryName page.id] → final.get? target = disk.get? target := by
  obtain ⟨after, stamp, written, changes, located, stored, gone⟩ :=
    writable.write small (refusal_image restores)
  have read := read_of_image restores nonempty small room located stored
  have apart := (temporary_ne place page.id page.id).symm
  refine ⟨_, after, _, written, read, Disk.get?_unset_self (by simp) _, ?_, ?_⟩
  · rw [Disk.get?_unset_of_ne apart, gone]
  · intro target own temporary
    rw [Disk.get?_unset_of_ne own.symm]
    exact changes.elsewhere target (not_or.mpr ⟨temporary, own⟩)

/-- A page of one node is read back with a larger capacity; an old page file and a file that was
left behind under the temporary name are no matter. -/
theorem read_of_write_over_leftovers :
    let disk := ((Disk.empty.set ["runs"] .directory).set ["runs", "7.pq"] (.file 0 [9])).set
      ["runs", "7.pq.tmp"] (.file 1 [9, 9])
    let model := (⟨1, 1, none⟩ : CounterGrid).model
    let page : Page GridState := ⟨7, 1, #[⟨⟨0, 1⟩, 2, ⟨0, 18⟩⟩]⟩
    Writable 7 ⟨["runs"]⟩ ["runs"] disk ∧
      ∃ path after final, page.write model ⟨["runs"]⟩ disk = (.ok path, after) ∧
        Page.read model path 7 5 after = (.ok ⟨7, 5, page.nodes⟩, final) ∧
        final.get? ["runs", "7.pq"] = none ∧ final.get? ["runs", "7.pq.tmp"] = none ∧
        final.get? ["runs"] = some .directory := by
  intro disk model page
  have held : disk.get? ["runs", "7.pq"] = some (.file 0 [9]) := by
    rw [Disk.get?_set_of_ne (by decide), Disk.get?_set_self (by decide)]
  have left : disk.get? ["runs", "7.pq.tmp"] = some (.file 1 [9, 9]) :=
    Disk.get?_set_self (by decide) _ _
  have above : disk.get? ["runs"] = some .directory := by
    rw [Disk.get?_set_of_ne (by decide), Disk.get?_set_of_ne (by decide),
      Disk.get?_set_self (by decide)]
  have writable : Writable 7 ⟨["runs"]⟩ ["runs"] disk := by
    refine ⟨Disk.lookup_eq_ok_iff.mpr ⟨rfl, above⟩, by decide, by decide +kernel, ?_, ?_⟩
    · exact fun there => by cases left.symm.trans there
    · exact fun there => by cases held.symm.trans there
  have restores : ∀ node ∈ page.nodes, model.Restores node.state :=
    fun _ _ => CounterGrid.lossless_model _ _
  obtain ⟨path, after, final, written, read, gone, gone', kept⟩ :=
    @read_of_write _ model page _ _ _ 5 writable restores (by decide) (by decide) (by decide)
  have name : fileName page.id = "7.pq" := by decide +kernel
  have name' : temporaryName page.id = "7.pq.tmp" := by decide +kernel
  rw [name] at gone
  rw [name'] at gone'
  exact ⟨writable, path, after, final, written, read, gone, gone',
    (kept _ (by decide) (by decide)).trans above⟩

/-- In a directory with nothing in it whose path is barely short enough a page is not written. -/
theorem write_eq_error_of_long_path :
    let disk := Disk.empty.set ["runs"] .directory
    let directory : Path := ⟨"runs" :: List.replicate 4090 ""⟩
    let model := (⟨1, 1, none⟩ : CounterGrid).model
    let page : Page GridState := ⟨7, 1, #[⟨⟨0, 1⟩, 2, ⟨0, 18⟩⟩]⟩
    disk.children directory = .ok [] ∧ model.Lossless ∧ page.size = 1 ∧
      page.write model directory disk =
        (.error (.pageWrite (directory.child (temporaryName 7)) (.io .nameTooLong)), disk) := by
  intro disk directory model page
  have trailing : directory.child "" = directory := by
    refine Path.child_empty ?_
    rw [List.getLast?_cons, List.getLast?_replicate]
    rfl
  obtain ⟨size, clean, -, listed⟩ : directory.byteSize = 4094 ∧ directory.hasNul = false ∧
      Spill.establish directory disk = (.ok ⟨directory⟩, disk) ∧
      disk.children directory = .ok [] := Spill.bare_directory (by decide)
  clear_value directory
  have long : disk.pathLimit < (directory.child (temporaryName page.id)).byteSize := by
    rw [Path.byteSize_child, trailing, size, (utf8ByteSize_names page.id).2]
    show 4095 < 4094 + (_ + 7)
    omega
  exact ⟨listed, CounterGrid.lossless_model _, rfl, write_of_long clean (by decide) long⟩

end Wavefront.Page
