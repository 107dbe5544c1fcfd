/-
# Directories without page files

A directory is clear if it can be listed and no name in it is that of a page file. Dropping the
pages of a frontier leaves its directory clear, whatever lay there, and so does opening a frontier
there. A directory that was just made is clear to begin with: opening a frontier in it does not
fail and leaves the disk as it is.
-/

import Wavefront.Proofs.Disk.Trees
import Wavefront.Proofs.Frontier.Stock

namespace Wavefront

variable {σ : Type}

/-- A directory can be listed, and nothing in it has the name of a page file. -/
def Disk.IsClear (disk : Disk) (directory : Path) : Prop :=
  ∃ names, disk.children directory = .ok names ∧ ∀ name ∈ names, Spill.isPageFile name = false

namespace Disk

variable {disk after : Disk} {directory : Path} {place : Location}

theorem isClear_iff (found : disk.lookup directory = .ok (place, .directory)) :
    disk.IsClear directory ↔
      ∀ name, Spill.isPageFile name = true → disk.get? (place ++ [name]) = none := by
  obtain ⟨names, listed⟩ := exists_children found
  constructor
  · rintro ⟨names', listed', clear⟩ name named
    cases held : disk.get? (place ++ [name]) with
    | none => rfl
    | some entry =>
      have other := clear name ((mem_children_iff found listed').mpr ⟨entry, held⟩)
      rw [named] at other
      cases other
  · intro vacant
    refine ⟨names, listed, fun name member => ?_⟩
    obtain ⟨entry, held⟩ := (mem_children_iff found listed).mp member
    cases named : Spill.isPageFile name with
    | false => rfl
    | true => simp [vacant name named] at held

/-- Nothing is listed for a directory in which nothing lies. -/
theorem children_of_bare (found : disk.lookup directory = .ok (place, .directory))
    (bare : ∀ name, disk.get? (place ++ [name]) = none) : disk.children directory = .ok [] := by
  obtain ⟨names, listed⟩ := exists_children found
  obtain rfl : names = [] := by
    refine List.eq_nil_iff_forall_not_mem.mpr fun name member => ?_
    obtain ⟨entry, held⟩ := (mem_children_iff found listed).mp member
    simp [bare name] at held
  exact listed

/-- Changes to other files leave a directory clear. -/
theorem IsClear.of_changes {touched : Location → Prop} (clear : disk.IsClear directory)
    (found : disk.lookup directory = .ok (place, .directory)) (changes : disk.Changes touched after)
    (apart : ∀ target, Spill.PageFileIn place target → ¬ touched target) :
    after.IsClear directory := by
  rw [isClear_iff found] at clear
  rw [isClear_iff (changes.lookup_directory found)]
  intro name named
  rw [changes.elsewhere _ (apart _ ⟨name, named, rfl⟩)]
  exact clear name named

end Disk

/-! ## Clearing and opening -/

namespace Spill

variable {disk after : Disk} {spill : Spill} {directory : Path} {place : Location}

theorem isClear_of_clear {dropped : Nat} (cleared : spill.clear disk = (.ok dropped, after)) :
    after.IsClear spill.directory := by
  obtain ⟨place, found, changes, vacant⟩ := clear_eq_ok cleared
  exact (Disk.isClear_iff (changes.lookup_directory found)).mpr vacant

/-- Opening a directory in which nothing lies does not fail and changes nothing. -/
theorem establish_of_bare (found : disk.lookup directory = .ok (place, .directory))
    (bare : ∀ name, disk.get? (place ++ [name]) = none) :
    establish directory disk = (.ok ⟨directory⟩, disk) := by
  simp only [establish, Disk.mkdirAll_of_lookup found, clear, Disk.children_of_bare found bare,
    List.filter_nil, removeFiles]

end Spill

namespace Frontier

variable {frontier after : Frontier σ} {disk final : Disk} {settings : Settings} {place : Location}

/-- When the pages that wait have been dropped, the directory is clear. -/
theorem isClear_of_discard {dropped : Nat}
    (discarded : frontier.discard disk = (.ok dropped, after, final)) :
    final.IsClear frontier.spill.directory := by
  unfold discard at discarded
  split at discarded
  · rcases cleared : frontier.spill.clear disk with ⟨failure | count, disk'⟩
    · simp [cleared, Except.mapError, Except.map] at discarded
    · simp only [cleared, Prod.mk.injEq] at discarded
      obtain ⟨-, -, rfl⟩ := discarded
      exact Spill.isClear_of_clear cleared
  · simp at discarded

/-- Opening a frontier in a directory in which nothing lies does not fail and changes nothing. -/
theorem exists_establish_of_bare (valid : settings.validate = .ok ())
    (found : disk.lookup settings.directory = .ok (place, .directory))
    (bare : ∀ name, disk.get? (place ++ [name]) = none) :
    ∃ frontier : Frontier σ, establish settings disk = (.ok frontier, disk) ∧
      frontier.spill.directory = settings.directory := by
  simp only [establish, valid, Spill.establish_of_bare found bare]
  exact ⟨_, rfl, rfl⟩

end Frontier

end Wavefront
