/-
# A directory as a set of pages

Seen from outside, a directory that pages are spilled to is a set of pages. `Keeps`
ties the two together: every page of the set is stored under its own name as its
image, no other page number has a file, and whatever else is named like a page file
can be removed. Opening, putting, taking and clearing act on the set as one expects.
-/

import Mathlib.Data.Set.Basic
import Mathlib.Data.Set.Insert
import Wavefront.Proofs.Disk.PageFiles

namespace Wavefront.Spill

variable {σ : Type} {model : Model σ} {spill : Spill} {place : Location} {disk after : Disk}
  {pages : Set (Page σ)}

/-- The pages that lie in the directory of a spill are exactly those of a set. -/
structure Keeps (model : Model σ) (spill : Spill) (place : Location) (pages : Set (Page σ))
    (disk : Disk) : Prop where
  found : disk.lookup spill.directory = .ok (place, .directory)
  located : ∀ page ∈ pages, disk.locate (spill.directory.child (Page.fileName page.id)) =
    .ok (place ++ [Page.fileName page.id])
  stored : ∀ page ∈ pages, ∃ stamp, disk.get? (place ++ [Page.fileName page.id]) =
    some (.file stamp (page.image model).bytes)
  whole : ∀ page ∈ pages, page.size < Page.countLimit
  written : ∀ page ∈ pages, (page.image model).refusal = none
  vacant : ∀ id, (∀ page ∈ pages, page.id ≠ id) →
    disk.get? (place ++ [Page.fileName id]) = none
  tidy : ∀ name, isPageFile name = true → Page.Removable spill.directory place disk name

/-- A location directly below a directory, with the name of a page file. -/
def PageFileIn (place target : Location) : Prop :=
  ∃ name, isPageFile name = true ∧ target = place ++ [name]

theorem PageFileIn.of_touched {page : Page σ} {target : Location}
    (touched : page.Touched place target) : PageFileIn place target := by
  rcases touched with rfl | rfl
  · exact ⟨_, isPageFile_temporaryName _, rfl⟩
  · exact ⟨_, isPageFile_fileName _, rfl⟩

theorem PageFileIn.of_temporary {id : PageId} {target : Location}
    (temporary : target = place ++ [Page.temporaryName id]) : PageFileIn place target :=
  ⟨_, isPageFile_temporaryName id, temporary⟩

namespace Keeps

theorem opens (keeps : Keeps model spill place pages disk) : disk.Opens spill.directory place :=
  Disk.opens_of_lookup keeps.found

/-- Changes to other files do not matter to the pages. -/
theorem of_changes {touched : Location → Prop} (keeps : Keeps model spill place pages disk)
    (changes : disk.Changes touched after)
    (apart : ∀ target, PageFileIn place target → ¬ touched target) :
    Keeps model spill place pages after where
  found := changes.lookup_directory keeps.found
  located page member := changes.locate_iff.mpr (keeps.located page member)
  stored page member := by
    rw [changes.elsewhere _ (apart _ ⟨_, isPageFile_fileName _, rfl⟩)]
    exact keeps.stored page member
  whole := keeps.whole
  written := keeps.written
  vacant id absent := by
    rw [changes.elsewhere _ (apart _ ⟨_, isPageFile_fileName _, rfl⟩)]
    exact keeps.vacant id absent
  tidy name named := (keeps.tidy name named).of_changes changes (apart _ ⟨name, named, rfl⟩)

/-- No directory is in the way of a page whose number is free. -/
theorem clear_names {id : PageId} (keeps : Keeps model spill place pages disk)
    (free : ∀ page ∈ pages, page.id ≠ id) :
    disk.get? (place ++ [Page.temporaryName id]) ≠ some .directory ∧
      disk.get? (place ++ [Page.fileName id]) ≠ some .directory := by
  constructor
  · rcases keeps.tidy _ (isPageFile_temporaryName id) with empty | ⟨stamp, bytes, file, -⟩
    · simp [empty]
    · simp [file]
  · simp [keeps.vacant id free]

end Keeps

/-! ## Putting -/

/-- A page whose number is free joins the set when it is put. -/
theorem put_eq_ok {page : Page σ} (keeps : Keeps model spill place pages disk)
    (free : ∀ other ∈ pages, other.id ≠ page.id)
    (put : spill.put model page disk = (.ok (), after)) :
    Keeps model spill place (insert page pages) after ∧
      disk.Changes (PageFileIn place) after := by
  unfold Spill.put at put
  cases written : page.write model spill.directory disk with
  | mk result final =>
    cases result with
    | error failure => simp [written] at put
    | ok path =>
      simp only [written, Prod.mk.injEq, true_and] at put
      subst put
      obtain ⟨small, accepted, changes, located, stored, gone⟩ :=
        Page.write_eq_ok keeps.opens written
      refine ⟨⟨changes.lookup_directory keeps.found, ?_, ?_, ?_, ?_, ?_, ?_⟩,
        changes.mono fun _ => PageFileIn.of_touched⟩
      · rintro other (rfl | member)
        · exact changes.locate_iff.mpr located
        · exact changes.locate_iff.mpr (keeps.located other member)
      · rintro other (rfl | member)
        · exact stored
        · rw [changes.elsewhere _ (Page.not_touched (free other member))]
          exact keeps.stored other member
      · rintro other (rfl | member)
        · exact small
        · exact keeps.whole other member
      · rintro other (rfl | member)
        · exact accepted
        · exact keeps.written other member
      · intro id absent
        have other : id ≠ page.id := fun same => absent page (Set.mem_insert _ _) same.symm
        rw [changes.elsewhere _ (Page.not_touched other)]
        exact keeps.vacant id fun present member => absent present (Set.mem_insert_of_mem _ member)
      · intro name named
        by_cases own : name = Page.fileName page.id
        · subst own
          obtain ⟨stamp, held⟩ := stored
          exact .inr ⟨stamp, _, held, changes.locate_iff.mpr located⟩
        · by_cases temporary : name = Page.temporaryName page.id
          · subst temporary
            exact .inl gone
          · refine (keeps.tidy name named).of_changes changes ?_
            rintro (same | same)
            · exact temporary (by simpa using same)
            · exact own (by simpa using same)

/-- A temporary file does not matter to the pages. -/
theorem Keeps.of_drafted {page : Page σ} (keeps : Keeps model spill place pages disk)
    (drafted : page.Drafted spill.directory place disk after) :
    Keeps model spill place pages after ∧ disk.Changes (PageFileIn place) after := by
  obtain ⟨changes, removable⟩ := drafted
  have apart (id : PageId) := (Page.temporary_ne place page.id id).symm
  refine ⟨⟨changes.lookup_directory keeps.found, ?_, ?_, keeps.whole, keeps.written, ?_, ?_⟩,
    changes.mono fun _ => PageFileIn.of_temporary⟩
  · exact fun other member => changes.locate_iff.mpr (keeps.located other member)
  · intro other member
    rw [changes.elsewhere _ (apart other.id)]
    exact keeps.stored other member
  · intro id absent
    rw [changes.elsewhere _ (apart id)]
    exact keeps.vacant id absent
  · intro name named
    by_cases temporary : name = Page.temporaryName page.id
    · exact temporary ▸ removable
    · exact (keeps.tidy name named).of_changes changes (by simpa using temporary)

/-- A page that cannot be put leaves the set as it was. -/
theorem put_eq_error {page : Page σ} {failure : Failure}
    (keeps : Keeps model spill place pages disk)
    (put : spill.put model page disk = (.error failure, after)) :
    Keeps model spill place pages after ∧ disk.Changes (PageFileIn place) after := by
  unfold Spill.put at put
  cases written : page.write model spill.directory disk with
  | mk result final =>
    cases result with
    | ok path => simp [written] at put
    | error cause =>
      simp only [written, Prod.mk.injEq] at put
      obtain ⟨-, rfl⟩ := put
      exact keeps.of_drafted (Page.write_eq_error keeps.opens
        (keeps.tidy _ (isPageFile_temporaryName page.id)) written)

/-! ## Taking -/

/-- A page file can be seen exactly if a page of that number is in the set. -/
theorem Keeps.exists?_iff {id : PageId} (keeps : Keeps model spill place pages disk) :
    disk.exists? (spill.directory.child (Page.fileName id)) = true ↔
      ∃ page ∈ pages, page.id = id := by
  rw [Disk.exists?_eq_true_iff]
  constructor
  · rintro ⟨target, entry, located, held⟩
    by_contra absent
    have plain := plain_of_isPageFile (isPageFile_fileName id)
    obtain rfl := keeps.opens.eq_of_locate plain located
    have empty := keeps.vacant id fun page member same => absent ⟨page, member, same⟩
    rw [held] at empty
    cases empty
  · rintro ⟨page, member, rfl⟩
    obtain ⟨stamp, held⟩ := keeps.stored page member
    exact ⟨_, _, keeps.located page member, held⟩

/-- Taking a number that no page of the set has changes nothing. -/
theorem take_of_absent {id : PageId} (capacity : Nat) (keeps : Keeps model spill place pages disk)
    (absent : ∀ page ∈ pages, page.id ≠ id) :
    spill.take model id capacity disk = (.ok none, disk) := by
  have hidden : ¬ disk.exists? (spill.directory.child (Page.fileName id)) = true := by
    rw [keeps.exists?_iff]
    rintro ⟨page, member, same⟩
    exact absent page member same
  simp [Spill.take, hidden]

/-- The set without the page of a number keeps all that the directory without its file holds. -/
theorem Keeps.remove {page : Page σ} (keeps : Keeps model spill place pages disk)
    (member : page ∈ pages) :
    Keeps model spill place {other | other ∈ pages ∧ other.id ≠ page.id}
        (disk.unset (place ++ [Page.fileName page.id])) ∧
      disk.Changes (PageFileIn place) (disk.unset (place ++ [Page.fileName page.id])) := by
  obtain ⟨stamp, held⟩ := keeps.stored page member
  have changes := Disk.changes_unset
    (show disk.get? (place ++ [Page.fileName page.id]) ≠ some .directory by simp [held])
  have apart {id : PageId} (other : id ≠ page.id) :
      ¬ place ++ [Page.fileName id] = place ++ [Page.fileName page.id] := by
    simpa using fun same => other (Page.fileName_injective same)
  refine ⟨⟨changes.lookup_directory keeps.found, ?_, ?_, ?_, ?_, ?_, ?_⟩,
    changes.mono fun target same => ⟨_, isPageFile_fileName page.id, same⟩⟩
  · exact fun other kept => changes.locate_iff.mpr (keeps.located other kept.1)
  · intro other kept
    rw [changes.elsewhere _ (apart kept.2)]
    exact keeps.stored other kept.1
  · exact fun other kept => keeps.whole other kept.1
  · exact fun other kept => keeps.written other kept.1
  · intro id absent
    by_cases same : id = page.id
    · subst same
      exact Disk.get?_unset_self (by simp) disk
    · rw [changes.elsewhere _ (apart same)]
      exact keeps.vacant id fun other kept own => absent other ⟨kept, own ▸ same⟩ own
  · intro name named
    by_cases own : name = Page.fileName page.id
    · subst own
      exact .inl (Disk.get?_unset_self (by simp) disk)
    · exact (keeps.tidy name named).of_changes changes (by simpa using own)

/-- Taking the number of a page in the set reads its image, and removes the file if that can
be read as a page. -/
theorem take_of_mem {page : Page σ} (capacity : Nat) (keeps : Keeps model spill place pages disk)
    (member : page ∈ pages) :
    spill.take model page.id capacity disk =
      match Page.ofImage model page.id capacity (page.image model).bytes with
      | .error reason =>
          (.error (.pageRead (spill.directory.child (Page.fileName page.id)) reason), disk)
      | .ok found => (.ok (some found), disk.unset (place ++ [Page.fileName page.id])) := by
  obtain ⟨stamp, held⟩ := keeps.stored page member
  exact take_of_file model capacity (keeps.located page member) held

/-! ## Clearing and opening -/

/-- Removing files takes the named ones away and nothing else. -/
theorem removeFiles_eq_ok {directory : Path} {names : List String}
    (opens : disk.Opens directory place) (named : ∀ name ∈ names, isPageFile name = true)
    (removed : removeFiles directory names disk = (.ok (), after)) :
    disk.Changes (PageFileIn place) after ∧
      (∀ name ∈ names, after.get? (place ++ [name]) = none) ∧
      ∀ target, disk.get? target = none → after.get? target = none := by
  induction names generalizing disk with
  | nil =>
    simp only [removeFiles, Prod.mk.injEq, true_and] at removed
    subst removed
    exact ⟨.refl _ _, by simp, fun _ vacant => vacant⟩
  | cons name rest ih =>
    have here := named name List.mem_cons_self
    have there : ∀ other ∈ rest, isPageFile other = true :=
      fun other member => named other (List.mem_cons_of_mem _ member)
    have plain := plain_of_isPageFile here
    simp only [removeFiles] at removed
    cases step : disk.remove (directory.child name) with
    | ok next =>
      simp only [step] at removed
      obtain ⟨target, stamp, bytes, located, held, rfl⟩ := Disk.remove_eq_ok_iff.mp step
      obtain rfl := opens.eq_of_locate plain located
      have changes := Disk.changes_unset
        (show disk.get? (place ++ [name]) ≠ some .directory by simp [held])
      obtain ⟨more, gone, vacant⟩ := ih (opens.of_changes changes) there removed
      have clear : (disk.unset (place ++ [name])).get? (place ++ [name]) = none :=
        Disk.get?_unset_self (by simp) disk
      refine ⟨(changes.mono fun _ same => ⟨name, here, same⟩).trans more, ?_, ?_⟩
      · rintro other (_ | ⟨_, member⟩)
        · exact vacant _ clear
        · exact gone other member
      · intro target empty
        apply vacant
        by_cases same : place ++ [name] = target
        · exact same ▸ clear
        · rw [Disk.get?_unset_of_ne same, empty]
    | error cause =>
      cases cause <;> simp only [step, Prod.mk.injEq, reduceCtorEq, false_and] at removed
      obtain ⟨changes, gone, vacant⟩ := ih opens there removed
      refine ⟨changes, ?_, vacant⟩
      rintro other (_ | ⟨_, member⟩)
      · exact vacant _ (opens.get?_of_remove_notFound plain step)
      · exact gone other member

/-- Removing files that their paths lead to does not fail. -/
theorem exists_removeFiles_eq_ok {directory : Path} {names : List String}
    (removable : ∀ name ∈ names, disk.locate (directory.child name) = .ok (place ++ [name]) ∧
      disk.get? (place ++ [name]) ≠ some .directory) :
    ∃ after, removeFiles directory names disk = (.ok (), after) := by
  induction names generalizing disk with
  | nil => exact ⟨disk, rfl⟩
  | cons name rest ih =>
    obtain ⟨located, clear⟩ := removable name List.mem_cons_self
    have later : ∀ other ∈ rest, disk.locate (directory.child other) = .ok (place ++ [other]) ∧
        disk.get? (place ++ [other]) ≠ some .directory :=
      fun other member => removable other (List.mem_cons_of_mem _ member)
    cases held : disk.get? (place ++ [name]) with
    | none =>
      have missing : disk.remove (directory.child name) = .error .notFound := by
        simp [Disk.remove, Disk.lookup, located, held, bind, Except.bind]
      obtain ⟨after, done⟩ := ih later
      exact ⟨after, by simp only [removeFiles, missing, done]⟩
    | some entry =>
      cases entry with
      | directory => exact absurd held clear
      | file stamp bytes =>
        have step := Disk.remove_eq_ok_iff.mpr ⟨_, _, _, located, held, rfl⟩
        have changes := Disk.changes_unset clear
        obtain ⟨after, done⟩ := ih fun other member =>
          ⟨changes.locate_iff.mpr (later other member).1,
            fun directory => (later other member).2 ((changes.directories _).mp directory)⟩
        exact ⟨after, by simp only [removeFiles, step, done]⟩

/-- After a directory has been cleared it holds nothing that is named like a page file. -/
theorem clear_eq_ok {dropped : Nat} (cleared : spill.clear disk = (.ok dropped, after)) :
    ∃ place, disk.lookup spill.directory = .ok (place, .directory) ∧
      disk.Changes (PageFileIn place) after ∧
      ∀ name, isPageFile name = true → after.get? (place ++ [name]) = none := by
  unfold Spill.clear at cleared
  cases listed : disk.children spill.directory with
  | error cause => simp [listed] at cleared
  | ok names =>
    obtain ⟨place, found⟩ := Disk.exists_lookup_of_children listed
    cases removed : removeFiles spill.directory (names.filter isPageFile) disk with
    | mk result final =>
      cases result with
      | error failure => simp [listed, removed] at cleared
      | ok done =>
        simp only [listed, removed, Prod.mk.injEq] at cleared
        obtain ⟨-, rfl⟩ := cleared
        obtain ⟨changes, gone, vacant⟩ := removeFiles_eq_ok (Disk.opens_of_lookup found)
          (fun name member => (List.mem_filter.mp member).2) removed
        refine ⟨place, found, changes, fun name named => ?_⟩
        cases held : disk.get? (place ++ [name]) with
        | none => exact vacant _ held
        | some entry =>
          have member := (Disk.mem_children_iff found listed).mpr ⟨entry, held⟩
          exact gone name (List.mem_filter.mpr ⟨member, named⟩)

/-- A directory without page files keeps no pages. -/
theorem keeps_empty (found : disk.lookup spill.directory = .ok (place, .directory))
    (vacant : ∀ name, isPageFile name = true → disk.get? (place ++ [name]) = none) :
    Keeps model spill place ∅ disk where
  found := found
  located := by simp
  stored := by simp
  whole := by simp
  written := by simp
  vacant id _ := vacant _ (isPageFile_fileName id)
  tidy name named := .inl (vacant name named)

/-- Clearing a directory of pages does not fail, and leaves no pages. -/
theorem Keeps.clear (keeps : Keeps model spill place pages disk) :
    ∃ dropped after, spill.clear disk = (.ok dropped, after) ∧
      Keeps model spill place ∅ after ∧ disk.Changes (PageFileIn place) after := by
  obtain ⟨names, listed⟩ := Disk.exists_children keeps.found
  have removable : ∀ name ∈ names.filter isPageFile,
      disk.locate (spill.directory.child name) = .ok (place ++ [name]) ∧
        disk.get? (place ++ [name]) ≠ some .directory := by
    intro name member
    obtain ⟨inside, named⟩ := List.mem_filter.mp member
    obtain ⟨entry, held⟩ := (Disk.mem_children_iff keeps.found listed).mp inside
    rcases keeps.tidy name named with vacant | ⟨stamp, bytes, file, located⟩
    · simp [held] at vacant
    · exact ⟨located, by simp [file]⟩
  obtain ⟨after, removed⟩ := exists_removeFiles_eq_ok removable
  have cleared : spill.clear disk = (.ok (names.filter isPageFile).length, after) := by
    simp only [Spill.clear, listed, removed]
  obtain ⟨other, found, changes, vacant⟩ := clear_eq_ok cleared
  obtain rfl : place = other := by
    have same := keeps.found.symm.trans found
    simp only [Except.ok.injEq, Prod.mk.injEq, and_true] at same
    exact same
  exact ⟨_, after, cleared, keeps_empty (changes.lookup_directory found) vacant, changes⟩

variable (model) in
/-- A directory that was opened for spilling keeps no pages, whatever it held before. -/
theorem establish_eq_ok {directory : Path}
    (established : Spill.establish directory disk = (.ok spill, after)) :
    spill.directory = directory ∧ ∃ place, Keeps model spill place ∅ after := by
  unfold Spill.establish at established
  cases made : Disk.mkdirAll directory disk with
  | mk result ready =>
    cases result with
    | error cause => simp [made] at established
    | ok done =>
      cases cleared : Spill.clear ⟨directory⟩ ready with
      | mk result final =>
        cases result with
        | error failure => simp [made, cleared] at established
        | ok dropped =>
          simp only [made, cleared, Prod.mk.injEq, Except.ok.injEq] at established
          obtain ⟨rfl, rfl⟩ := established
          obtain ⟨place, found, changes, vacant⟩ := clear_eq_ok cleared
          exact ⟨rfl, place, keeps_empty (changes.lookup_directory found) vacant⟩

end Wavefront.Spill
