/-
# What opening a directory takes away

A directory that is opened for pages is cleared of everything that is named like a page file, and
of nothing else. All files that pages are ever written to have such names, so no page of an earlier
run is taken for one of this run; and no trace log has such a name, so none is lost. Clearing fails
if a directory has the name of a page file, or if the path of a page file is longer than the file
system follows.
-/

import Wavefront.Proofs.Disk.Writing
import Wavefront.Proofs.Frontier.Balance
import Wavefront.Proofs.Store.Refinement

namespace Wavefront

variable {σ : Type}

/-! ## Names -/

/-- One or more digits, and then the ending of a page file that is whole or still being written. -/
def Spill.SpellsPage (name : String) : Prop :=
  ∃ digits, digits ≠ [] ∧ (∀ c ∈ digits, c.isDigit = true) ∧
    (name.toList = digits ++ ['.', 'p', 'q'] ∨
      name.toList = digits ++ ['.', 'p', 'q', '.', 't', 'm', 'p'])

theorem Spill.isPageFile_iff_spellsPage {name : String} :
    isPageFile name = true ↔ SpellsPage name :=
  isPageFile_eq_true_iff

/-- The path of a log ends with the log's name, wherever its stem leads. -/
theorem Log.fileName_join (directory : Path) (specName : String) (worker : UInt16) :
    (directory.join (fileName specName worker)).fileName = lastName specName worker := by
  obtain ⟨above, pieces⟩ := pieces_join_fileName directory specName worker
  rw [Path.fileName, pieces, List.getLast?_concat, Option.getD_some]

/-! ## Sweeping -/

namespace Spill

variable {directory : Path} {place : Location} {disk made after : Disk}

/-- Everything with the name of a page file is gone from a directory, and all else is there. -/
structure Sweeps (place : Location) (before after : Disk) : Prop where
  gone : ∀ name, SpellsPage name → after.get? (place ++ [name]) = none
  others : ∀ target, (∀ name, SpellsPage name → target ≠ place ++ [name]) →
    after.get? target = before.get? target

/-- A log survives, wherever it lies. -/
theorem Sweeps.get?_log {base : Path} {specName : String} {worker : UInt16} {target : Location}
    (sweeps : Sweeps place disk after)
    (located : disk.locate (base.join (Log.fileName specName worker)) = .ok target) :
    after.get? target = disk.get? target := by
  obtain ⟨above, rfl⟩ := Log.place_of_locate located
  refine sweeps.others _ fun name spells same => ?_
  have alike := List.singleton_inj.mp (List.append_inj' same rfl).2
  have named := isPageFile_iff_spellsPage.mpr spells
  rw [← alike, Log.isPageFile_lastName] at named
  cases named

/-- A directory is cleared if every file named like a page file is one, and can be reached. -/
theorem exists_clear_eq_ok (found : disk.lookup directory = .ok (place, .directory))
    (files : ∀ name, SpellsPage name → disk.get? (place ++ [name]) ≠ some .directory)
    (fits : ∀ name, SpellsPage name → disk.get? (place ++ [name]) ≠ none →
      name.utf8ByteSize ≤ Disk.nameLimit ∧ (directory.child name).byteSize ≤ disk.pathLimit) :
    ∃ dropped after, clear ⟨directory⟩ disk = (.ok dropped, after) ∧ Sweeps place disk after := by
  have opens := Disk.opens_of_lookup found
  have checked := (Disk.locate_eq_ok_iff.mp (Disk.lookup_eq_ok_iff.mp found).1).1
  obtain ⟨names, listed⟩ := Disk.exists_children found
  have removable : ∀ name ∈ names.filter isPageFile,
      disk.locate (directory.child name) = .ok (place ++ [name]) ∧
        disk.get? (place ++ [name]) ≠ some .directory := by
    intro name member
    obtain ⟨inside, named⟩ := List.mem_filter.mp member
    obtain ⟨entry, held⟩ := (Disk.mem_children_iff found listed).mp inside
    have spells := isPageFile_iff_spellsPage.mp named
    obtain ⟨short, within⟩ := fits name spells (by simp [held])
    refine ⟨?_, files name spells⟩
    rw [opens.locate_eq (plain_of_isPageFile named),
      Disk.reach_eq_ok checked (Page.nul_notMem_toList named) within short]
    rfl
  obtain ⟨after, removed⟩ := exists_removeFiles_eq_ok removable
  have cleared : clear ⟨directory⟩ disk = (.ok (names.filter isPageFile).length, after) := by
    simp only [clear, listed, removed]
  refine ⟨_, after, cleared, ?_⟩
  obtain ⟨other, found', changes, vacant⟩ := clear_eq_ok cleared
  obtain rfl : place = other := (Prod.mk.inj (Except.ok.inj (found.symm.trans found'))).1
  refine ⟨fun name spells => vacant name (isPageFile_iff_spellsPage.mpr spells),
    fun target apart => changes.elsewhere target ?_⟩
  rintro ⟨name, named, same⟩
  exact apart name (isPageFile_iff_spellsPage.mp named) same

/-- Opening a directory removes exactly the page files. Let the directory be there, or be made; let
no directory in it have the name of a page file, and let every file that has such a name have a path
that the file system follows. Then opening the directory succeeds, and so does clearing it, and
both remove what is named by one or more digits and `.pq` or `.pq.tmp`, and leave all else on the
disk alone, trace logs in particular. After that no page can be taken from the directory, whatever
its number, nor from a frontier that was opened there.

The files that any page is written to have such names, and different pages have different ones. The
log of no worker has such a name, for no spec name. -/
theorem removes_exactly_page_files (model : Model σ)
    (ready : Disk.mkdirAll directory disk = (.ok (), made))
    (found : made.lookup directory = .ok (place, .directory))
    (files : ∀ name, SpellsPage name → made.get? (place ++ [name]) ≠ some .directory)
    (fits : ∀ name, SpellsPage name → made.get? (place ++ [name]) ≠ none →
      name.utf8ByteSize ≤ Disk.nameLimit ∧ (directory.child name).byteSize ≤ made.pathLimit) :
    (∃ dropped after, establish directory disk = (.ok ⟨directory⟩, after) ∧
      clear ⟨directory⟩ made = (.ok dropped, after) ∧ Sweeps place made after ∧
      (∀ (base : Path) specName worker target,
        made.locate (base.join (Log.fileName specName worker)) = .ok target →
        after.get? target = made.get? target) ∧
      (∀ id capacity, take ⟨directory⟩ model id capacity after = (.ok none, after)) ∧
      ∀ settings : Settings, settings.directory = directory → settings.validate = .ok () →
        ∃ frontier : Frontier σ, Frontier.establish settings disk = (.ok frontier, after) ∧
          ∀ id, ∃ next, frontier.take model id after = (.ok none, next, after)) ∧
    (∀ id, SpellsPage (Page.fileName id) ∧ SpellsPage (Page.temporaryName id)) ∧
    Function.Injective Page.fileName ∧ Function.Injective Page.temporaryName ∧
    (∀ first second, Page.temporaryName first ≠ Page.fileName second) ∧
    ∀ (base : Path) specName worker,
      ¬ SpellsPage (Path.fileName (base.join (Log.fileName specName worker))) := by
  refine ⟨?_, fun id => ⟨isPageFile_iff_spellsPage.mp (isPageFile_fileName id),
    isPageFile_iff_spellsPage.mp (isPageFile_temporaryName id)⟩, Page.fileName_injective,
    Page.temporaryName_injective, Page.temporaryName_ne_fileName, ?_⟩
  · obtain ⟨dropped, after, cleared, sweeps⟩ := exists_clear_eq_ok found files fits
    have established : establish directory disk = (.ok ⟨directory⟩, after) := by
      simp only [establish, ready, cleared]
    obtain ⟨-, other, keeps⟩ := establish_eq_ok model established
    refine ⟨dropped, after, established, cleared, sweeps, fun _ _ _ _ => sweeps.get?_log,
      fun id capacity => take_of_absent capacity keeps (by simp), ?_⟩
    rintro settings rfl valid
    obtain ⟨frontier, opened⟩ : ∃ frontier : Frontier σ,
        Frontier.establish settings disk = (.ok frontier, after) := by
      simp only [Frontier.establish, valid, established]
      exact ⟨_, rfl⟩
    obtain ⟨-, -, -, -, -, elsewhere, books⟩ := Frontier.establish_eq_ok model opened
    refine ⟨frontier, opened, fun id => ?_⟩
    have absent : ∀ page ∈ {page : Page σ | page ∈ History.waiting []}, page.id ≠ id := by simp
    obtain ⟨memory, missed, -⟩ := books.stocks.take_of_absent absent
    exact ⟨_, missed⟩
  · intro base specName worker spells
    have named := isPageFile_iff_spellsPage.mpr spells
    rw [Log.fileName_join, Log.isPageFile_lastName] at named
    cases named

/-- Two page files are removed, one of them unfinished; a log and a directory stay. -/
theorem removes_exactly_page_files_of_two :
    let disk := ((((Disk.empty.set ["runs"] .directory).set ["runs", "2.pq"] (.file 0 [1])).set
      ["runs", "3.pq.tmp"] (.file 1 [])).set ["runs", "spec-0.trace"] (.file 2 [7])).set
        ["runs", "old"] .directory
    let model := (⟨1, 1, none⟩ : CounterGrid).model
    ∃ after, establish ⟨["runs"]⟩ disk = (.ok ⟨⟨["runs"]⟩⟩, after) ∧
      after.get? ["runs", "2.pq"] = none ∧ after.get? ["runs", "3.pq.tmp"] = none ∧
      after.get? ["runs", "spec-0.trace"] = some (.file 2 [7]) ∧
      after.get? ["runs", "old"] = some .directory ∧
      take ⟨⟨["runs"]⟩⟩ model 2 1 after = (.ok none, after) := by
  intro disk model
  have found : disk.lookup ⟨["runs"]⟩ = .ok (["runs"], .directory) := by decide +kernel
  have held : ∀ name, disk.get? (["runs"] ++ [name]) ≠ none →
      name ∈ ["2.pq", "3.pq.tmp", "spec-0.trace", "old"] := by
    intro name there
    by_contra absent
    simp only [List.mem_cons, List.not_mem_nil, or_false, not_or] at absent
    obtain ⟨first, second, third, fourth⟩ := absent
    refine there ?_
    rw [Disk.get?_set_of_ne (by simpa using Ne.symm fourth),
      Disk.get?_set_of_ne (by simpa using Ne.symm third),
      Disk.get?_set_of_ne (by simpa using Ne.symm second),
      Disk.get?_set_of_ne (by simpa using Ne.symm first), Disk.get?_set_of_ne (by simp)]
    rfl
  have each : ∀ name ∈ ["2.pq", "3.pq.tmp", "spec-0.trace", "old"], isPageFile name = true →
      disk.get? (["runs"] ++ [name]) ≠ some .directory ∧ name.utf8ByteSize ≤ Disk.nameLimit ∧
        (Path.child ⟨["runs"]⟩ name).byteSize ≤ disk.pathLimit := by decide +kernel
  have spelled {name : String} (spells : SpellsPage name) := isPageFile_iff_spellsPage.mpr spells
  obtain ⟨⟨dropped, after, established, -, sweeps, -, missed, -⟩, names, -⟩ :=
    removes_exactly_page_files model (Disk.mkdirAll_of_lookup found) found
      (fun name spells there =>
        (each name (held name (there ▸ Option.some_ne_none _)) (spelled spells)).1 there)
      (fun name spells there => (each name (held name there) (spelled spells)).2)
  have apart {name : String} (other : isPageFile name = false) : ∀ page, SpellsPage page →
      ["runs", name] ≠ ["runs"] ++ [page] := by
    rintro page spells same
    have alike : name = page := by simpa using same
    rw [alike, spelled spells] at other
    cases other
  refine ⟨after, established, sweeps.gone _ (isPageFile_iff_spellsPage.mp (by decide)),
    sweeps.gone _ (isPageFile_iff_spellsPage.mp (by decide)), ?_, ?_, missed 2 1⟩
  · rw [sweeps.others _ (apart (by decide))]
    decide +kernel
  · rw [sweeps.others _ (apart (by decide))]
    decide +kernel

/-- A page file whose path is too long cannot be removed, so a directory with such a path can
neither be opened nor cleared. -/
theorem establish_eq_error_of_long_path :
    let disk := (Disk.empty.set ["runs"] .directory).set ["runs", "7.pq"] (.file 0 [])
    let directory : Path := ⟨"runs" :: List.replicate 4090 ""⟩
    let failure := Failure.pageWrite (directory.child "7.pq") (.io .nameTooLong)
    disk.lookup directory = .ok (["runs"], .directory) ∧
      (∀ name, SpellsPage name → disk.get? (["runs"] ++ [name]) ≠ some .directory) ∧
      establish directory disk = (.error failure, disk) ∧
      clear ⟨directory⟩ disk = (.error failure, disk) := by
  intro disk directory failure
  have trailing : directory.child "" = directory := by
    refine Path.child_empty ?_
    rw [List.getLast?_cons, List.getLast?_replicate]
    rfl
  obtain ⟨size, clean, found⟩ : directory.byteSize = 4094 ∧ directory.hasNul = false ∧
      disk.lookup directory = .ok (["runs"], .directory) :=
    lookup_slashes (by decide +kernel) (by decide)
  have listed : disk.children directory = .ok ["7.pq"] := by
    simp only [Disk.children, found, bind, Except.bind]
    rfl
  clear_value directory
  have long : disk.pathLimit < (directory.child "7.pq").byteSize := by
    rw [Path.byteSize_child, trailing, size]
    decide
  have stuck : disk.remove (directory.child "7.pq") = .error .nameTooLong := by
    have located := Disk.locate_eq_error (Path.hasNul_child clean (by decide)) long
    simp only [Disk.remove, Disk.lookup, located, bind, Except.bind]
  have uncleared : clear ⟨directory⟩ disk = (.error failure, disk) := by
    have named : ["7.pq"].filter isPageFile = ["7.pq"] := by decide
    simp only [clear, listed, named, removeFiles, stuck]
    rfl
  refine ⟨found, fun name _ there => ?_, ?_, uncleared⟩
  · by_cases same : name = "7.pq"
    · subst same
      revert there
      decide +kernel
    · rw [Disk.get?_set_of_ne (by simpa using Ne.symm same), Disk.get?_set_of_ne (by simp)] at there
      cases there
  · simp only [establish, Disk.mkdirAll_of_lookup found, uncleared]

end Spill

end Wavefront
