/-
# Pages stay in their directory

Writing a page, reading one and clearing a directory of pages change page files in one directory
only, however they turn out: it does not matter what else the disk holds, or what has become of the
pages in the meantime. All that is needed is that the path of the directory leads there.
-/

import Wavefront.Proofs.Frontier.Access
import Wavefront.Proofs.Store.Clearing

namespace Wavefront

variable {σ : Type} {model : Model σ} {place : Location} {disk after : Disk} {directory : Path}
  {page : Page σ}

/-! ## Files -/

namespace Page

/-- Writing a page touches its own two files at most. -/
theorem changes_write {result : Except Failure Path} (opens : disk.Opens directory place)
    (written : page.write model directory disk = (result, after)) :
    disk.Changes (page.Touched place) after := by
  obtain ⟨done, stops, -⟩ := exists_stops_of_write opens written
  exact changes_of_stops opens stops

/-- Reading a page removes its file at most. -/
theorem changes_read {name : String} {id : PageId} {capacity : Nat}
    {result : Except Failure (Page σ)} (plain : Disk.Plain name)
    (opens : disk.Opens directory place)
    (read : Page.read model (directory.child name) id capacity disk = (result, after)) :
    disk.Changes (· = place ++ [name]) after := by
  unfold Page.read at read
  split at read
  · obtain ⟨-, rfl⟩ := Prod.mk.inj read
    exact .refl _ _
  · split at read
    · obtain ⟨-, rfl⟩ := Prod.mk.inj read
      exact .refl _ _
    · split at read
      · obtain ⟨-, rfl⟩ := Prod.mk.inj read
        exact .refl _ _
      · rename_i removed
        obtain ⟨-, rfl⟩ := Prod.mk.inj read
        obtain ⟨target, stamp, bytes, located, held, rfl⟩ := Disk.remove_eq_ok_iff.mp removed
        obtain rfl := opens.eq_of_locate plain located
        exact Disk.changes_unset (by simp [held])

end Page

/-! ## Directories of pages -/

namespace Spill

variable {spill : Spill}

theorem changes_put {result : Except Failure Unit} (opens : disk.Opens spill.directory place)
    (put : spill.put model page disk = (result, after)) :
    disk.Changes (PageFileIn place) after := by
  unfold Spill.put at put
  rcases written : page.write model spill.directory disk with ⟨failure | path, final⟩
  all_goals
    simp only [written, Prod.mk.injEq] at put
    obtain ⟨-, rfl⟩ := put
    exact (Page.changes_write opens written).mono fun _ => .of_touched

theorem changes_take {id : PageId} {capacity : Nat} {result : Except Failure (Option (Page σ))}
    (opens : disk.Opens spill.directory place)
    (taken : spill.take model id capacity disk = (result, after)) :
    disk.Changes (PageFileIn place) after := by
  have named := isPageFile_fileName id
  unfold Spill.take at taken
  dsimp only at taken
  split at taken
  · rcases read : Page.read model (spill.directory.child (Page.fileName id)) id capacity disk with
      ⟨failure | page, final⟩
    all_goals
      rw [read] at taken
      obtain ⟨-, rfl⟩ := Prod.mk.inj taken
      exact (Page.changes_read (plain_of_isPageFile named) opens read).mono fun _ same =>
        ⟨_, named, same⟩
  · obtain ⟨-, rfl⟩ := Prod.mk.inj taken
    exact .refl _ _

/-- Removing files takes some of the named ones away, even if it does not come to its end. -/
theorem changes_removeFiles {names : List String} {result : Except Failure Unit}
    (opens : disk.Opens directory place) (named : ∀ name ∈ names, isPageFile name = true)
    (removed : removeFiles directory names disk = (result, after)) :
    disk.Changes (PageFileIn place) after := by
  induction names generalizing disk with
  | nil =>
    obtain ⟨-, rfl⟩ := Prod.mk.inj removed
    exact .refl _ _
  | cons name rest ih =>
    have here := named name List.mem_cons_self
    have there : ∀ other ∈ rest, isPageFile other = true :=
      fun other member => named other (List.mem_cons_of_mem _ member)
    simp only [removeFiles] at removed
    cases step : disk.remove (directory.child name) with
    | ok next =>
      simp only [step] at removed
      obtain ⟨target, stamp, bytes, located, held, rfl⟩ := Disk.remove_eq_ok_iff.mp step
      obtain rfl := opens.eq_of_locate (plain_of_isPageFile here) located
      have changes := Disk.changes_unset
        (show disk.get? (place ++ [name]) ≠ some .directory by simp [held])
      exact (changes.mono fun _ same => ⟨name, here, same⟩).trans
        (ih (opens.of_changes changes) there removed)
    | error cause =>
      by_cases gone : cause = .notFound
      · subst gone
        simp only [step] at removed
        exact ih opens there removed
      · cases cause <;> simp_all [Disk.Changes.refl]

theorem changes_clear {result : Except Failure Nat} (opens : disk.Opens spill.directory place)
    (cleared : spill.clear disk = (result, after)) : disk.Changes (PageFileIn place) after := by
  unfold Spill.clear at cleared
  split at cleared
  · obtain ⟨-, rfl⟩ := Prod.mk.inj cleared
    exact .refl _ _
  · rename_i names listed
    dsimp only at cleared
    rcases removed : removeFiles spill.directory (names.filter isPageFile) disk with
      ⟨failure | done, final⟩
    all_goals
      simp only [removed, Prod.mk.injEq] at cleared
      obtain ⟨-, rfl⟩ := cleared
      exact changes_removeFiles opens (fun name member => (List.mem_filter.mp member).2) removed

theorem nextStamp_removeFiles {names : List String} {result : Except Failure Unit}
    (removed : removeFiles directory names disk = (result, after)) :
    after.nextStamp = disk.nextStamp := by
  induction names generalizing disk with
  | nil => rw [(Prod.mk.inj removed).2]
  | cons name rest ih =>
    simp only [removeFiles] at removed
    cases step : disk.remove (directory.child name) with
    | ok next =>
      simp only [step] at removed
      obtain ⟨target, stamp, bytes, -, -, rfl⟩ := Disk.remove_eq_ok_iff.mp step
      have later := ih removed
      exact later
    | error cause =>
      by_cases gone : cause = .notFound
      · subst gone
        simp only [step] at removed
        exact ih removed
      · cases cause <;> simp_all

theorem nextStamp_clear {result : Except Failure Nat}
    (cleared : spill.clear disk = (result, after)) : after.nextStamp = disk.nextStamp := by
  unfold Spill.clear at cleared
  split at cleared
  · rw [(Prod.mk.inj cleared).2]
  · rename_i names listed
    dsimp only at cleared
    rcases removed : removeFiles spill.directory (names.filter isPageFile) disk with
      ⟨failure | done, final⟩
    all_goals
      simp only [removed, Prod.mk.injEq] at cleared
      obtain ⟨-, rfl⟩ := cleared
      exact nextStamp_removeFiles removed

end Spill

/-! ## Frontiers -/

namespace Frontier

variable {frontier later : Frontier σ}

theorem changes_enqueue {result : Except Stop Unit}
    (opens : disk.Opens frontier.spill.directory place)
    (enqueued : frontier.enqueue model page disk = (result, later, after)) :
    disk.Changes (Spill.PageFileIn place) after := by
  unfold enqueue at enqueued
  split at enqueued
  · simp only [Prod.mk.injEq] at enqueued
    exact enqueued.2.2 ▸ .refl _ _
  · split at enqueued
    · simp only [Prod.mk.injEq] at enqueued
      exact enqueued.2.2 ▸ .refl _ _
    · simp only [Prod.mk.injEq] at enqueued
      exact Spill.changes_put opens (Prod.ext rfl enqueued.2.2)

theorem changes_enqueueNode {node : Node σ} {result : Except Stop Unit}
    (opens : disk.Opens frontier.spill.directory place)
    (enqueued : frontier.enqueueNode model node disk = (result, later, after)) :
    disk.Changes (Spill.PageFileIn place) after := by
  unfold enqueueNode at enqueued
  dsimp only at enqueued
  split at enqueued
  · simp only [Prod.mk.injEq] at enqueued
    exact enqueued.2.2 ▸ .refl _ _
  · have still : disk.Opens frontier.claim.2.spill.directory place := opens
    exact changes_enqueue still enqueued

theorem changes_take {id : PageId} {result : Except Failure (Option (Page σ))}
    (opens : disk.Opens frontier.spill.directory place)
    (taken : frontier.take model id disk = (result, later, after)) :
    disk.Changes (Spill.PageFileIn place) after := by
  unfold take at taken
  split at taken
  · simp only [Prod.mk.injEq] at taken
    exact taken.2.2 ▸ .refl _ _
  · simp only [Prod.mk.injEq] at taken
    exact Spill.changes_take opens (Prod.ext rfl taken.2.2)

theorem changes_discard {result : Except Stop Nat}
    (opens : disk.Opens frontier.spill.directory place)
    (discarded : frontier.discard disk = (result, later, after)) :
    disk.Changes (Spill.PageFileIn place) after := by
  unfold discard at discarded
  split at discarded
  · simp only [Prod.mk.injEq] at discarded
    exact Spill.changes_clear opens (Prod.ext rfl discarded.2.2)
  · simp only [Prod.mk.injEq] at discarded
    exact discarded.2.2 ▸ .refl _ _

/-- When the pages that wait have been dropped, nothing is left that has the name of a page file. -/
theorem get?_of_discard {dropped : Nat} {name : String}
    (opens : disk.Opens frontier.spill.directory place)
    (discarded : frontier.discard disk = (.ok dropped, later, after))
    (named : Spill.isPageFile name = true) : after.get? (place ++ [name]) = none := by
  obtain ⟨names, listed, clear⟩ := isClear_of_discard discarded
  obtain ⟨other, found⟩ := Disk.exists_lookup_of_children listed
  have same : place = other := by
    have there := (opens.of_changes (changes_discard opens discarded)).walk
    exact Except.ok.inj (there.symm.trans (Disk.opens_of_lookup found).walk)
  subst same
  exact (Disk.isClear_iff found).mp ⟨names, listed, clear⟩ name named

/-- Dropping pages uses up no stamps. -/
theorem nextStamp_discard {result : Except Stop Nat}
    (discarded : frontier.discard disk = (result, later, after)) :
    after.nextStamp = disk.nextStamp := by
  unfold discard at discarded
  split at discarded
  · simp only [Prod.mk.injEq] at discarded
    exact Spill.nextStamp_clear (Prod.ext rfl discarded.2.2)
  · simp only [Prod.mk.injEq] at discarded
    rw [discarded.2.2]

end Frontier

/-- An access of a call changes page files at most. -/
theorem Wait.Turn.changes {held : Option (Page σ)} {frontier : Frontier σ} {wait : Wait σ}
    {accessed : Accessed σ} {events : History σ}
    (turn : Turn model held frontier disk wait accessed events)
    (opens : disk.Opens frontier.spill.directory place) :
    disk.Changes (Spill.PageFileIn place) accessed.disk := by
  cases turn with
  | misses taken | receives taken | chokes taken => exact Frontier.changes_take opens taken
  | donates enqueued | refuses enqueued => exact Frontier.changes_enqueue opens enqueued
  | closed | reads | draws | outrun | rereads | ends | exhausts | breaks | retries | yields
    | latches => exact .refl _ _

end Wavefront
