/-
# Spilling is transparent

A store is asked to keep pages, to give them back, to say how many it has, and to drop them
all. Pages that are kept in memory and pages that are kept in a directory are two stores, and
whoever asks cannot tell them apart: as long as each page that is put has a number that is not
there yet, states that can be restored, and a file with a path that is not too long, and is
taken with its own capacity, both give the same answers. A path that is too long gives the
directory away, since only there can a page not be put.
-/

import Mathlib.Data.List.Nodup
import Wavefront.CounterGrid
import Wavefront.Proofs.Disk.Writing
import Wavefront.Proofs.Store.Clearing
import Wavefront.Store.Memory

namespace Wavefront

variable {σ : Type}

/-! ## Requests and answers -/

/-- What a store is asked to do. -/
inductive Request (σ : Type) where
  | put (page : Page σ)
  | take (id : PageId) (capacity : Nat)
  | resident
  | clear

/-- What a store answers. -/
inductive Answer (σ : Type) where
  /-- A page is kept. -/
  | done
  | found (page : Option (Page σ))
  | count (number : Nat)
  /-- The request could not be met. -/
  | stopped (stop : Stop)

/-- Pages in memory answer a request. -/
def Memory.answer (memory : Memory σ) : Request σ → Answer σ × Memory σ
  | .put page =>
      match memory.put page with
      | (.error fault, memory) => (.stopped (.fault fault), memory)
      | (.ok (), memory) => (.done, memory)
  | .take id _ =>
      let (page, memory) := memory.take id
      (.found page, memory)
  | .resident => (.count memory.resident, memory)
  | .clear =>
      let (dropped, memory) := memory.clear
      (.count dropped, memory)

/-- Pages in a directory answer a request. -/
def Spill.answer (spill : Spill) (model : Model σ) (disk : Disk) : Request σ → Answer σ × Disk
  | .put page =>
      match spill.put model page disk with
      | (.error failure, disk) => (.stopped (.failure failure), disk)
      | (.ok (), disk) => (.done, disk)
  | .take id capacity =>
      match spill.take model id capacity disk with
      | (.error failure, disk) => (.stopped (.failure failure), disk)
      | (.ok page, disk) => (.found page, disk)
  | .resident => (.count (spill.resident disk), disk)
  | .clear =>
      match spill.clear disk with
      | (.error failure, disk) => (.stopped (.failure failure), disk)
      | (.ok dropped, disk) => (.count dropped, disk)

/-- The answers of pages in memory to one request after the other. -/
def Memory.answers (memory : Memory σ) : List (Request σ) → List (Answer σ)
  | [] => []
  | request :: rest => (memory.answer request).1 :: (memory.answer request).2.answers rest

/-- The answers of pages in a directory to one request after the other. -/
def Spill.answers (spill : Spill) (model : Model σ) (disk : Disk) :
    List (Request σ) → List (Answer σ)
  | [] => []
  | request :: rest =>
      (spill.answer model disk request).1 ::
        spill.answers model (spill.answer model disk request).2 rest

/-- A page that holds something, but not more than it may or than can be said, and states that can
be restored. -/
structure Page.Storable (model : Model σ) (page : Page σ) : Prop where
  nonempty : 0 < page.size
  room : page.size ≤ page.capacity
  small : page.size < Page.countLimit
  restores : ∀ node ∈ page.nodes, model.Restores node.state

namespace Request

/-- What may be asked of a store that has certain pages: to keep a page whose number is not there,
and to give back a page of the capacity that it has. -/
def Proper (model : Model σ) (memory : Memory σ) : Request σ → Prop
  | put page => page.Storable model ∧ page.id < 2 ^ 64 ∧ memory.pages[page.id]? = none
  | take id capacity => ∀ page, memory.pages[id]? = some page → page.capacity = capacity
  | resident => True
  | clear => True

/-- Requests that are proper one after the other. -/
def AllProper (model : Model σ) : Memory σ → List (Request σ) → Prop
  | _, [] => True
  | memory, request :: rest =>
      request.Proper model memory ∧ AllProper model (memory.answer request).2 rest

/-- The file that a page is first written to has a path that is not too long. -/
def Fits (directory : Path) (pathLimit : Nat) : Request σ → Prop
  | put page => (directory.child (Page.temporaryName page.id)).byteSize ≤ pathLimit
  | _ => True

end Request

namespace Memory

variable {memory : Memory σ} {model : Model σ} {page : Page σ}

/-- A page whose number is free is kept. -/
theorem answer_put (free : memory.pages[page.id]? = none) :
    memory.answer (.put page) = (.done, ⟨memory.pages.insert page.id page⟩) := by
  have new : memory.pages.contains page.id = false := by
    rw [Std.ExtTreeMap.contains_eq_isSome_getElem?, free]
    rfl
  simp [answer, put, new]

/-- Pages in memory meet every request that is proper. -/
theorem stopped_notMem_answers {requests : List (Request σ)}
    (proper : Request.AllProper model memory requests) (stop : Stop) :
    .stopped stop ∉ memory.answers requests := by
  induction requests generalizing memory with
  | nil => exact List.not_mem_nil
  | cons request rest ih =>
    rw [answers, List.mem_cons, not_or]
    refine ⟨?_, ih proper.2⟩
    cases request with
    | put page => simp [answer_put proper.1.2.2]
    | take id capacity => simp [answer]
    | resident => simp [answer]
    | clear => simp [answer]

/-- The pages that a memory has under their own numbers. -/
def held (memory : Memory σ) : Set (Page σ) := {page | memory.pages[page.id]? = some page}

theorem mem_held : page ∈ memory.held ↔ memory.pages[page.id]? = some page := Iff.rfl

theorem held_empty : (empty : Memory σ).held = ∅ := by
  ext page
  simp [mem_held, empty]

/-- No page that a memory has is numbered like one that it has not. -/
theorem id_ne_of_free {other : Page σ} {id : PageId} (free : memory.pages[id]? = none)
    (kept : other ∈ memory.held) : other.id ≠ id := by
  rintro rfl
  rw [mem_held, free] at kept
  cases kept

/-- A page whose number is free is one more page. -/
theorem held_insert (free : memory.pages[page.id]? = none) :
    (⟨memory.pages.insert page.id page⟩ : Memory σ).held = insert page memory.held := by
  ext other
  rw [Set.mem_insert_iff, mem_held, mem_held, Std.ExtTreeMap.getElem?_insert]
  split
  · rename_i same
    rw [← Std.LawfulEqCmp.eq_of_compare same, free]
    simp [eq_comm]
  · rename_i apart
    refine ⟨.inr, Or.rec (fun same => ?_) id⟩
    subst same
    exact absurd Std.ReflCmp.compare_self apart

/-- Without a number, a memory has the other pages. -/
theorem held_erase (id : PageId) :
    (⟨memory.pages.erase id⟩ : Memory σ).held = {other | other ∈ memory.held ∧ other.id ≠ id} := by
  ext other
  show (memory.pages.erase id)[other.id]? = some other ↔ other ∈ memory.held ∧ other.id ≠ id
  rw [mem_held, Std.ExtTreeMap.getElem?_erase]
  split
  · rename_i same
    simp [Std.LawfulEqCmp.eq_of_compare same]
  · rename_i apart
    exact ⟨fun kept => ⟨kept, fun same => apart (same ▸ Std.ReflCmp.compare_self)⟩, And.left⟩

/-- A number that is not there is erased for nothing. -/
theorem erase_of_free {id : PageId} (free : memory.pages[id]? = none) :
    memory.pages.erase id = memory.pages := by
  refine Std.ExtTreeMap.ext_getElem? fun other => ?_
  rw [Std.ExtTreeMap.getElem?_erase]
  split
  · rename_i same
    rw [← Std.LawfulEqCmp.eq_of_compare same, free]
  · rfl

end Memory

/-! ## Counting names -/

namespace Disk

variable {disk : Disk} {path : Path} {place : Location} {names : List String}

/-- No name is listed twice for a directory. -/
theorem nodup_children (listed : disk.children path = .ok names) : names.Nodup := by
  obtain ⟨place, found⟩ := exists_lookup_of_children listed
  have same : names = disk.entries.toList.filterMap fun pair =>
      if pair.1.dropLast = place then pair.1.getLast? else none := by
    simpa [children, found, bind, Except.bind, eq_comm] using listed
  rw [same]
  refine List.pairwise_filterMap.mpr (Std.ExtTreeMap.distinct_keys_toList.imp ?_)
  rintro ⟨first, _⟩ ⟨second, _⟩ apart name chosen other chosen' rfl
  refine apart ?_
  simp only [Option.ite_none_right_eq_some] at chosen chosen'
  obtain ⟨front, same⟩ := List.getLast?_eq_some_iff.mp chosen.2
  obtain ⟨front', same'⟩ := List.getLast?_eq_some_iff.mp chosen'.2
  subst same same'
  have above := chosen.1.trans chosen'.1.symm
  rw [List.dropLast_concat, List.dropLast_concat] at above
  rw [above]
  exact Std.ReflCmp.compare_self

end Disk

/-! ## A directory that stands for a memory -/

namespace Spill

variable {model : Model σ} {spill : Spill} {place : Location} {memory : Memory σ}
  {disk after : Disk} {page : Page σ} {id : PageId}

/-- A directory keeps the pages that a memory has, and nothing else in it has the name of a page
file or the extension of one. -/
structure StandsFor (model : Model σ) (spill : Spill) (place : Location) (memory : Memory σ)
    (disk : Disk) : Prop where
  keeps : Keeps model spill place memory.held disk
  filed : ∀ (id : PageId) page, memory.pages[id]? = some page →
    page.id = id ∧ page.Storable model
  alone : ∀ name, isPageFile name = true ∨ hasPageExtension name = true →
    disk.get? (place ++ [name]) ≠ none → ∃ id : PageId, id ∈ memory.pages ∧ name = Page.fileName id

/-- A page whose number is free is written, if it is neither too large nor refused and the path of
its temporary file is not too long. -/
theorem Keeps.exists_write_eq_ok {pages : Set (Page σ)}
    (keeps : Keeps model spill place pages disk) (free : ∀ other ∈ pages, other.id ≠ page.id)
    (numbered : page.id ≤ 2 ^ 64)
    (fits : (spill.directory.child (Page.temporaryName page.id)).byteSize ≤ disk.pathLimit)
    (small : page.size < Page.countLimit) (accepted : (page.image model).refusal = none) :
    ∃ after, page.write model spill.directory disk =
      (.ok (spill.directory.child (Page.fileName page.id)), after) := by
  obtain ⟨draft, final⟩ := Page.locate_names keeps.found numbered fits
  obtain ⟨clear, clear'⟩ := keeps.clear_names free
  exact Page.exists_write_eq_ok keeps.opens draft final clear clear' small accepted

theorem hasPageExtension_fileName (id : PageId) : hasPageExtension (Page.fileName id) = true := by
  rw [hasPageExtension, cutEnd?_eq_some_iff.mpr (Page.toList_fileName id)]
  simp [Nat.toDigits_ne_nil]

theorem hasPageExtension_temporaryName (id : PageId) :
    hasPageExtension (Page.temporaryName id) = false := by
  rw [hasPageExtension]
  split
  · rfl
  · rename_i stem cut
    have last := congrArg List.getLast? (cutEnd?_eq_some_iff.mp cut)
    simp [Page.toList_temporaryName] at last

theorem isClear_of_establish {directory : Path}
    (established : establish directory disk = (.ok spill, after)) :
    after.IsClear spill.directory := by
  unfold establish at established
  split at established
  · cases established
  · split at established
    · cases established
    · rename_i cleared
      simp only [Prod.mk.injEq, Except.ok.injEq] at established
      obtain ⟨rfl, rfl⟩ := established
      exact isClear_of_clear cleared

theorem length_of_clear {names : List String} {dropped : Nat}
    (listed : disk.children spill.directory = .ok names)
    (cleared : spill.clear disk = (.ok dropped, after)) :
    (names.filter isPageFile).length = dropped := by
  simp only [Spill.clear, listed] at cleared
  split at cleared
  · cases cleared
  · exact Except.ok.inj (Prod.mk.inj cleared).1

namespace StandsFor

theorem mem_held (stands : StandsFor model spill place memory disk)
    (found : memory.pages[id]? = some page) : page ∈ memory.held := by
  rwa [Memory.mem_held, (stands.filed id page found).1]

/-- The files that are counted are those of the pages that the memory has, however they are told
apart from others. -/
theorem length_filter (stands : StandsFor model spill place memory disk) {names : List String}
    (listed : disk.children spill.directory = .ok names) {counts : String → Bool}
    (whole : ∀ id, counts (Page.fileName id) = true)
    (only : ∀ name, counts name = true → isPageFile name = true ∨ hasPageExtension name = true) :
    (names.filter counts).length = memory.pages.size := by
  have same : (names.filter counts).Perm (memory.pages.keys.map Page.fileName) := by
    rw [List.perm_ext_iff_of_nodup ((Disk.nodup_children listed).filter _)
      (List.Nodup.map Page.fileName_injective Std.ExtTreeMap.nodup_keys)]
    intro name
    rw [List.mem_filter, Disk.mem_children_iff stands.keeps.found listed, List.mem_map]
    constructor
    · rintro ⟨⟨entry, held⟩, counted⟩
      obtain ⟨id, member, rfl⟩ := stands.alone name (only name counted) (by simp [held])
      exact ⟨id, Std.ExtTreeMap.mem_keys.mpr member, rfl⟩
    · rintro ⟨id, member, rfl⟩
      obtain ⟨page, found⟩ := Option.isSome_iff_exists.mp
        (Std.ExtTreeMap.isSome_getElem?_iff_mem.mpr (Std.ExtTreeMap.mem_keys.mp member))
      obtain ⟨stamp, held⟩ := stands.keeps.stored page (stands.mem_held found)
      rw [(stands.filed id page found).1] at held
      exact ⟨⟨_, held⟩, whole id⟩
  rw [same.length_eq, List.length_map, Std.ExtTreeMap.length_keys]

/-- Both stores have as many pages. -/
theorem resident_eq (stands : StandsFor model spill place memory disk) :
    spill.resident disk = memory.resident := by
  obtain ⟨names, listed⟩ := Disk.exists_children stands.keeps.found
  simp only [resident, listed]
  exact stands.length_filter listed hasPageExtension_fileName fun _ => .inr

/-- A page that may be put is kept by both stores. -/
theorem put (stands : StandsFor model spill place memory disk) (storable : page.Storable model)
    (free : memory.pages[page.id]? = none) (numbered : page.id < 2 ^ 64)
    (fits : (spill.directory.child (Page.temporaryName page.id)).byteSize ≤ disk.pathLimit) :
    ∃ after, spill.put model page disk = (.ok (), after) ∧
      StandsFor model spill place ⟨memory.pages.insert page.id page⟩ after ∧
      disk.Changes (PageFileIn place) after := by
  have absent : ∀ other ∈ memory.held, other.id ≠ page.id :=
    fun other kept => Memory.id_ne_of_free free kept
  obtain ⟨after, written⟩ := stands.keeps.exists_write_eq_ok absent numbered.le fits storable.small
    (Page.refusal_image storable.restores)
  have done : spill.put model page disk = (.ok (), after) := by simp only [Spill.put, written]
  obtain ⟨keeps, changes⟩ := put_eq_ok stands.keeps absent done
  obtain ⟨-, -, touches, -, -, gone⟩ := Page.write_eq_ok stands.keeps.opens written
  refine ⟨after, done, ⟨(Memory.held_insert free).symm ▸ keeps, ?_, ?_⟩, changes⟩
  · intro id other found
    rw [Std.ExtTreeMap.getElem?_insert] at found
    split at found
    · rename_i same
      obtain rfl := Option.some.inj found
      exact ⟨Std.LawfulEqCmp.eq_of_compare same, storable⟩
    · exact stands.filed id other found
  · intro name counts held
    by_cases own : name = Page.fileName page.id
    · exact ⟨page.id, Std.ExtTreeMap.mem_insert_self, own⟩
    · by_cases temporary : name = Page.temporaryName page.id
      · exact absurd (temporary ▸ gone) held
      · rw [touches.elsewhere _ (by simp [Page.Touched, own, temporary])] at held
        obtain ⟨id, member, same⟩ := stands.alone name counts held
        exact ⟨id, Std.ExtTreeMap.mem_insert.mpr (.inr member), same⟩

/-- A page that both stores have is given back by both, and then neither has it. -/
theorem take_of_found (stands : StandsFor model spill place memory disk)
    (found : memory.pages[id]? = some page) :
    ∃ after, spill.take model id page.capacity disk = (.ok (some page), after) ∧
      StandsFor model spill place ⟨memory.pages.erase id⟩ after ∧
      disk.Changes (PageFileIn place) after := by
  obtain ⟨rfl, storable⟩ := stands.filed id page found
  have taken := take_of_mem page.capacity stands.keeps found
  rw [Page.ofImage_image storable.restores storable.nonempty storable.room storable.small] at taken
  obtain ⟨keeps, changes⟩ := stands.keeps.remove found
  refine ⟨_, taken, ⟨(Memory.held_erase page.id).symm ▸ keeps, ?_, ?_⟩, changes⟩
  · intro id other kept
    rw [Std.ExtTreeMap.getElem?_erase] at kept
    split at kept
    · cases kept
    · exact stands.filed id other kept
  · intro name counts held
    by_cases own : name = Page.fileName page.id
    · subst own
      exact absurd (Disk.get?_unset_self (by simp) disk) held
    · rw [Disk.get?_unset_of_ne (by simpa using Ne.symm own)] at held
      obtain ⟨id, member, rfl⟩ := stands.alone name counts held
      refine ⟨id, Std.ExtTreeMap.mem_erase.mpr ⟨fun same => own ?_, member⟩, rfl⟩
      rw [Std.LawfulEqCmp.eq_of_compare same]

/-- Both stores drop as many pages, and then have none. -/
theorem clear (stands : StandsFor model spill place memory disk) :
    ∃ after, spill.clear disk = (.ok memory.resident, after) ∧
      StandsFor model spill place Memory.empty after ∧ disk.Changes (PageFileIn place) after := by
  obtain ⟨dropped, after, cleared, keeps, changes⟩ := stands.keeps.clear
  obtain ⟨other, found, -, vacant⟩ := clear_eq_ok cleared
  obtain rfl : place = other := by
    have same := stands.keeps.found.symm.trans found
    simp only [Except.ok.injEq, Prod.mk.injEq, and_true] at same
    exact same
  obtain ⟨names, listed⟩ := Disk.exists_children found
  have counted : dropped = memory.resident := by
    rw [← length_of_clear listed cleared]
    exact stands.length_filter listed isPageFile_fileName fun _ => .inl
  refine ⟨after, counted ▸ cleared, ⟨Memory.held_empty.symm ▸ keeps, ?_, ?_⟩, changes⟩
  · simp [Memory.empty]
  · intro name counts held
    exfalso
    by_cases named : isPageFile name = true
    · exact held (vacant name named)
    · rw [changes.elsewhere] at held
      · obtain ⟨id, -, rfl⟩ := stands.alone name counts held
        exact named (isPageFile_fileName id)
      · rintro ⟨other, named', same⟩
        exact named (by simp_all)

/-- One request is answered alike, and the directory stands for what the memory has then. -/
theorem answer (stands : StandsFor model spill place memory disk) {request : Request σ}
    (proper : request.Proper model memory) (fits : request.Fits spill.directory disk.pathLimit) :
    (spill.answer model disk request).1 = (memory.answer request).1 ∧
      StandsFor model spill place (memory.answer request).2 (spill.answer model disk request).2 ∧
      disk.Changes (PageFileIn place) (spill.answer model disk request).2 := by
  cases request with
  | put page =>
    obtain ⟨storable, numbered, free⟩ := proper
    obtain ⟨after, done, stands', changes⟩ := stands.put storable free numbered fits
    simp only [Spill.answer, done, Memory.answer_put free, true_and]
    exact ⟨stands', changes⟩
  | take id capacity =>
    cases found : memory.pages[id]? with
    | some page =>
      obtain ⟨after, taken, stands', changes⟩ := stands.take_of_found found
      rw [proper page found] at taken
      simp only [Spill.answer, taken, Memory.answer, Memory.take, found, true_and]
      exact ⟨stands', changes⟩
    | none =>
      have taken := take_of_absent capacity stands.keeps
        fun page kept => Memory.id_ne_of_free found kept
      simp only [Spill.answer, taken, Memory.answer, Memory.take, found,
        Memory.erase_of_free found, true_and]
      exact ⟨stands, .refl _ _⟩
  | resident =>
    simp only [Spill.answer, stands.resident_eq, Memory.answer, true_and]
    exact ⟨stands, .refl _ _⟩
  | clear =>
    obtain ⟨after, cleared, stands', changes⟩ := stands.clear
    simp only [Spill.answer, cleared, Memory.answer, Memory.clear, true_and]
    exact ⟨stands', changes⟩

/-- Requests are answered alike one after the other. -/
theorem answers (stands : StandsFor model spill place memory disk) {requests : List (Request σ)}
    (proper : Request.AllProper model memory requests)
    (fits : ∀ request ∈ requests, request.Fits spill.directory disk.pathLimit) :
    spill.answers model disk requests = memory.answers requests := by
  induction requests generalizing memory disk with
  | nil => rfl
  | cons request rest ih =>
    obtain ⟨here, later⟩ := proper
    obtain ⟨same, stands', changes⟩ := stands.answer here (fits request List.mem_cons_self)
    rw [Spill.answers, Memory.answers, same, ih stands' later]
    rw [changes.pathLimit]
    exact fun other member => fits other (List.mem_cons_of_mem _ member)

end StandsFor

/-! ## From an open directory on -/

/-- A directory that was opened stands for a memory without pages, if nothing in it has the
extension of a page file. -/
theorem standsFor_of_establish {directory : Path} {opened : Disk} {names : List String}
    (established : establish directory disk = (.ok spill, opened))
    (listed : opened.children directory = .ok names)
    (alone : ∀ name ∈ names, hasPageExtension name = false) :
    ∃ place, StandsFor model spill place Memory.empty opened := by
  obtain ⟨rfl, place, keeps⟩ := establish_eq_ok model established
  have clear := (Disk.isClear_iff keeps.found).mp (isClear_of_establish established)
  refine ⟨place, Memory.held_empty.symm ▸ keeps, by simp [Memory.empty], ?_⟩
  rintro name (named | extended) held
  · exact absurd (clear name named) held
  · have member := (Disk.mem_children_iff keeps.found listed).mpr
      (Option.ne_none_iff_exists'.mp held)
    rw [alone name member] at extended
    cases extended

/-- Pages in a directory that was opened for them, and in which nothing else has the extension of
a page file, are kept, given back, counted and dropped as they are in memory, one request after
the other, and no request fails. -/
theorem answers_eq_answers_empty {directory : Path} {opened : Disk} {names : List String}
    {requests : List (Request σ)}
    (established : establish directory disk = (.ok spill, opened))
    (listed : opened.children directory = .ok names)
    (alone : ∀ name ∈ names, hasPageExtension name = false)
    (proper : Request.AllProper model Memory.empty requests)
    (fits : ∀ request ∈ requests, request.Fits directory opened.pathLimit) :
    spill.answers model opened requests = Memory.empty.answers requests ∧
      ∀ stop, .stopped stop ∉ spill.answers model opened requests := by
  obtain ⟨rfl, -⟩ := establish_eq_ok model established
  obtain ⟨place, stands⟩ := standsFor_of_establish established listed alone
  have same := stands.answers proper fits
  exact ⟨same, same ▸ Memory.stopped_notMem_answers proper⟩

/-! ## Where the path is too long -/

/-- A directory is found under its name with slashes after it. -/
theorem lookup_slashes {slashes : Nat} (there : disk.get? ["runs"] = some .directory)
    (short : slashes + 4 ≤ disk.pathLimit) :
    let directory : Path := ⟨"runs" :: List.replicate slashes ""⟩
    directory.byteSize = slashes + 4 ∧ directory.hasNul = false ∧
      disk.lookup directory = .ok (["runs"], .directory) := by
  intro directory
  have idle : ∀ piece ∈ List.replicate slashes "", Path.isIdle piece = true := by
    intro piece member
    rw [List.eq_of_mem_replicate member]
    rfl
  have size : directory.byteSize = slashes + 4 :=
    (Path.byteSize_slashes "runs" slashes).trans (Nat.add_comm 4 slashes)
  have clean : directory.hasNul = false := by
    simp [directory, Path.hasNul]
  refine ⟨size, clean, Disk.lookup_eq_ok_iff.mpr ⟨Disk.locate_eq_ok_iff.mpr ⟨?_, ?_⟩, there⟩⟩
  · rw [Disk.check, if_neg (by simp [clean]), if_neg]
    rw [size]
    exact Nat.not_lt.mpr short
  · show disk.walk [] (["runs"] ++ List.replicate slashes "") = _
    rw [Disk.walk_append]
    exact Disk.walk_idle there idle

/-- A directory named with slashes after it, and nothing in it. -/
theorem bare_directory {slashes : Nat} (short : slashes + 4 ≤ Disk.standardPathLimit) :
    let disk := Disk.empty.set ["runs"] .directory
    let directory : Path := ⟨"runs" :: List.replicate slashes ""⟩
    directory.byteSize = slashes + 4 ∧ directory.hasNul = false ∧
      establish directory disk = (.ok ⟨directory⟩, disk) ∧ disk.children directory = .ok [] := by
  intro disk directory
  obtain ⟨size, clean, found⟩ := @lookup_slashes disk slashes rfl short
  have bare (name : String) : disk.get? (["runs"] ++ [name]) = none := by
    rw [Disk.get?_set_of_ne (by simp)]
    rfl
  exact ⟨size, clean, establish_of_bare found bare, Disk.children_of_bare found bare⟩

/-- A page that waits in a directory is counted there, and given back once. -/
theorem answers_of_one_page :
    let disk := Disk.empty.set ["runs"] .directory
    let model := (⟨1, 1, none⟩ : CounterGrid).model
    let page : Page GridState := ⟨7, 2, #[⟨⟨0, 1⟩, 2, ⟨0, 18⟩⟩]⟩
    let requests := [.take 7 2, .put page, .resident, .take 7 2, .take 7 2, .clear]
    Spill.establish ⟨["runs"]⟩ disk = (.ok ⟨⟨["runs"]⟩⟩, disk) ∧
      disk.children ⟨["runs"]⟩ = .ok [] ∧ Request.AllProper model Memory.empty requests ∧
      (∀ request ∈ requests, request.Fits ⟨["runs"]⟩ disk.pathLimit) ∧
      Spill.answers ⟨⟨["runs"]⟩⟩ model disk requests =
        [.found none, .done, .count 1, .found (some page), .found none, .count 0] := by
  intro disk model page requests
  obtain ⟨size, -, established, listed⟩ := @bare_directory 0 (by decide)
  have storable : page.Storable model :=
    ⟨by decide, by decide, by decide, fun _ _ => CounterGrid.lossless_model _ _⟩
  have proper : Request.AllProper model Memory.empty requests := by
    refine ⟨?_, ⟨storable, by decide, rfl⟩, trivial, ?_, ?_, trivial, trivial⟩
    · intro other (found : none = some other)
      cases found
    · intro other (found : some page = some other)
      cases found
      rfl
    · intro other (found : none = some other)
      cases found
  have fits : ∀ request ∈ requests, request.Fits ⟨["runs"]⟩ disk.pathLimit := by
    have short : ((⟨["runs"]⟩ : Path).child (Page.temporaryName 7)).byteSize ≤ 4095 := by
      decide +kernel
    simp only [requests, List.forall_mem_cons]
    exact ⟨trivial, short, trivial, trivial, trivial, trivial, by simp⟩
  refine ⟨established, listed, proper, fits, ?_⟩
  refine (answers_eq_answers_empty established listed (by simp) proper fits).1.trans ?_
  rfl

/-- In a directory whose path is barely short enough no page file can be made, so a page that is
kept in memory cannot be put there. -/
theorem put_stopped_of_long_path :
    let disk := Disk.empty.set ["runs"] .directory
    let directory : Path := ⟨"runs" :: List.replicate 4090 ""⟩
    let model := (⟨1, 1, none⟩ : CounterGrid).model
    let page : Page GridState := ⟨7, 2, #[⟨⟨0, 1⟩, 2, ⟨0, 18⟩⟩]⟩
    Spill.establish directory disk = (.ok ⟨directory⟩, disk) ∧ disk.children directory = .ok [] ∧
      Request.AllProper model Memory.empty [.put page] ∧
      Memory.empty.answers [.put page] = [.done] ∧
      Spill.answers ⟨directory⟩ model disk [.put page] =
        [.stopped (.failure (.pageWrite (directory.child (Page.temporaryName 7))
          (.io .nameTooLong)))] := by
  intro disk directory model page
  have trailing : directory.child "" = directory := by
    refine Path.child_empty ?_
    rw [List.getLast?_cons, List.getLast?_replicate]
    rfl
  obtain ⟨size, clean, established, listed⟩ : directory.byteSize = 4094 ∧
      directory.hasNul = false ∧ establish directory disk = (.ok ⟨directory⟩, disk) ∧
      disk.children directory = .ok [] := bare_directory (by decide)
  clear_value directory
  have storable : page.Storable model :=
    ⟨by decide, by decide, by decide, fun _ _ => CounterGrid.lossless_model _ _⟩
  have long : disk.pathLimit < (directory.child (Page.temporaryName page.id)).byteSize := by
    rw [Path.byteSize_child, trailing, size, (Page.utf8ByteSize_names page.id).2]
    show 4095 < 4094 + (_ + 7)
    omega
  have written := @Page.write_of_long _ model directory disk page clean storable.small long
  refine ⟨established, listed, ⟨⟨storable, by decide, rfl⟩, trivial⟩, rfl, ?_⟩
  simp only [answers, answer, Spill.put, written]
  rfl

end Spill

end Wavefront
