/-
# How many pages a directory says it has

Two numbers are told of the pages in a directory: how many are resident, and how many were dropped
when it was cleared. The first is read off one ending of names and the second off two. They part
where a page was refused in the midst of being written: the file that it leaves behind is not
resident, and yet it is dropped, and counted. What a directory was asked and what it answered
decide both numbers.
-/

import Wavefront.Proofs.Store.Refinement

namespace Wavefront

variable {σ : Type}

/-! ## Inventories -/

/-- What is known of a directory from what it was asked and what it answered. -/
structure Inventory (σ : Type) where
  /-- The pages that were put, and neither taken nor dropped since. -/
  kept : List (Page σ)
  /-- The numbers of the pages that were refused in the midst of being written, and not dropped
  since. -/
  drafts : List PageId

namespace Inventory

/-- Nothing was put yet. -/
def empty : Inventory σ := ⟨[], []⟩

/-- Take note of an answer. Nothing is left of a page that could not be put because it is too large
or its path is too long. -/
def note (directory : Path) (pathLimit : Nat) (inventory : Inventory σ) :
    Request σ → Answer σ → Inventory σ
  | .put page, .done => { inventory with kept := page :: inventory.kept }
  | .put page, .stopped _ =>
      if page.size < Page.countLimit ∧
          (directory.child (Page.temporaryName page.id)).byteSize ≤ pathLimit then
        { inventory with drafts := page.id :: inventory.drafts }
      else inventory
  | .take id _, .found (some _) => { inventory with kept := inventory.kept.filter (·.id ≠ id) }
  | .clear, .count _ => empty
  | _, _ => inventory

/-- Take note of one answer after the other. -/
def notes (directory : Path) (pathLimit : Nat) :
    Inventory σ → List (Request σ) → List (Answer σ) → Inventory σ
  | inventory, request :: rest, answer :: answers =>
      (inventory.note directory pathLimit request answer).notes directory pathLimit rest answers
  | inventory, _, _ => inventory

/-- The numbers in an inventory. -/
def ids (inventory : Inventory σ) : List PageId :=
  inventory.kept.map Page.id ++ inventory.drafts

/-- The names of the files that belong to an inventory. -/
def names (inventory : Inventory σ) : List String :=
  inventory.kept.map (Page.fileName ·.id) ++ inventory.drafts.map Page.temporaryName

end Inventory

/-- The page that a request puts. -/
def Request.page? : Request σ → Option (Page σ)
  | put page => some page
  | _ => none

/-- A number gets into an inventory with a page that is put. -/
theorem Inventory.mem_ids_of_note {directory : Path} {pathLimit : Nat} {inventory : Inventory σ}
    {request : Request σ} {answer : Answer σ} {id : PageId}
    (among : id ∈ (inventory.note directory pathLimit request answer).ids) :
    id ∈ inventory.ids ∨ ∃ page, request.page? = some page ∧ page.id = id := by
  unfold note at among
  split at among
  · simp only [ids, List.map_cons, List.cons_append, List.mem_cons] at among
    exact among.symm.imp_right fun same => ⟨_, rfl, same.symm⟩
  · split_ifs at among
    · simp only [ids, List.mem_append, List.mem_cons] at among ⊢
      rcases among with kept | rfl | draft
      · exact .inl (.inl kept)
      · exact .inr ⟨_, rfl, rfl⟩
      · exact .inl (.inr draft)
    · exact .inl among
  · simp only [ids, List.mem_append] at among ⊢
    exact .inl (among.imp_left fun kept => (List.filter_sublist.map _).subset kept)
  · simp [ids, empty] at among
  · exact .inl among

/-- The disk after one request after the other. -/
def Spill.diskAfter (spill : Spill) (model : Model σ) (disk : Disk) : List (Request σ) → Disk
  | [] => disk
  | request :: rest => spill.diskAfter model (spill.answer model disk request).2 rest

/-! ## Directories with an inventory -/

namespace Spill

variable {model : Model σ} {spill : Spill} {place : Location} {inventory : Inventory σ}
  {disk after : Disk} {page : Page σ} {id : PageId}

/-- A directory has the files of an inventory, and nothing else in it has the name of a page file
or the extension of one. -/
structure Fulfils (model : Model σ) (spill : Spill) (place : Location) (inventory : Inventory σ)
    (disk : Disk) : Prop where
  keeps : Keeps model spill place {page | page ∈ inventory.kept} disk
  distinct : (inventory.kept.map Page.id).Nodup
  once : inventory.drafts.Nodup
  drafted : ∀ id ∈ inventory.drafts, disk.get? (place ++ [Page.temporaryName id]) ≠ none
  alone : ∀ name, isPageFile name = true ∨ hasPageExtension name = true →
    disk.get? (place ++ [name]) ≠ none → name ∈ inventory.names

namespace Fulfils

/-- No two files of an inventory have the same name. -/
theorem nodup_names (fulfils : Fulfils model spill place inventory disk) :
    inventory.names.Nodup := by
  refine List.nodup_append.mpr ⟨?_, fulfils.once.map Page.temporaryName_injective, ?_⟩
  · have files := fulfils.distinct.map Page.fileName_injective
    rwa [List.map_map] at files
  · intro name kept other draft same
    obtain ⟨page, -, rfl⟩ := List.mem_map.mp kept
    obtain ⟨id, -, rfl⟩ := List.mem_map.mp draft
    exact Page.temporaryName_ne_fileName id page.id same.symm

/-- The files that are counted are those of the inventory that are counted. -/
theorem length_filter (fulfils : Fulfils model spill place inventory disk) {names : List String}
    (listed : disk.children spill.directory = .ok names) {counts : String → Bool}
    (only : ∀ name, counts name = true → isPageFile name = true ∨ hasPageExtension name = true) :
    (names.filter counts).length = (inventory.names.filter counts).length := by
  refine List.Perm.length_eq ?_
  rw [List.perm_ext_iff_of_nodup ((Disk.nodup_children listed).filter _)
    (fulfils.nodup_names.filter _)]
  intro name
  rw [List.mem_filter, List.mem_filter, Disk.mem_children_iff fulfils.keeps.found listed]
  refine and_congr_left fun counted => ⟨?_, fun member => ?_⟩
  · rintro ⟨entry, held⟩
    exact fulfils.alone name (only name counted) (by simp [held])
  · rcases List.mem_append.mp member with kept | draft
    · obtain ⟨page, among, rfl⟩ := List.mem_map.mp kept
      obtain ⟨stamp, held⟩ := fulfils.keeps.stored page among
      exact ⟨_, held⟩
    · obtain ⟨id, among, rfl⟩ := List.mem_map.mp draft
      exact Option.ne_none_iff_exists'.mp (fulfils.drafted id among)

/-- The pages that are kept are resident. -/
theorem resident_eq (fulfils : Fulfils model spill place inventory disk) :
    spill.resident disk = inventory.kept.length := by
  obtain ⟨names, listed⟩ := Disk.exists_children fulfils.keeps.found
  have pages : inventory.names.filter hasPageExtension =
      inventory.kept.map (Page.fileName ·.id) := by
    rw [Inventory.names, List.filter_append, List.filter_eq_self.mpr, List.filter_eq_nil_iff.mpr,
      List.append_nil]
    · simp [hasPageExtension_temporaryName]
    · simp [hasPageExtension_fileName]
  simp only [resident, listed]
  rw [fulfils.length_filter listed fun _ => .inr, pages, List.length_map]

/-- The pages that are kept are dropped, and the drafts with them. -/
theorem clear (fulfils : Fulfils model spill place inventory disk) :
    ∃ after, spill.clear disk =
        (.ok (inventory.kept.length + inventory.drafts.length), after) ∧
      Fulfils model spill place Inventory.empty after ∧ disk.Changes (PageFileIn place) after := by
  obtain ⟨dropped, after, cleared, keeps, changes⟩ := fulfils.keeps.clear
  obtain ⟨other, found, -, vacant⟩ := clear_eq_ok cleared
  obtain rfl : place = other :=
    (Prod.mk.inj (Except.ok.inj (fulfils.keeps.found.symm.trans found))).1
  obtain ⟨names, listed⟩ := Disk.exists_children found
  have pages : inventory.names.filter isPageFile = inventory.names := by
    refine List.filter_eq_self.mpr fun name member => ?_
    rcases List.mem_append.mp member with kept | draft
    · obtain ⟨page, -, rfl⟩ := List.mem_map.mp kept
      exact isPageFile_fileName page.id
    · obtain ⟨id, -, rfl⟩ := List.mem_map.mp draft
      exact isPageFile_temporaryName id
  have counted : dropped = inventory.kept.length + inventory.drafts.length := by
    rw [← length_of_clear listed cleared, fulfils.length_filter listed fun _ => .inl, pages,
      Inventory.names, List.length_append, List.length_map, List.length_map]
  refine ⟨after, counted ▸ cleared, ⟨?_, List.nodup_nil, List.nodup_nil, ?_, ?_⟩, changes⟩
  · simpa [Inventory.empty] using keeps
  · simp [Inventory.empty]
  · intro name counts held
    exfalso
    by_cases named : isPageFile name = true
    · exact held (vacant name named)
    · rw [changes.elsewhere] at held
      · have member := fulfils.alone name counts held
        rw [← pages] at member
        exact named (List.mem_filter.mp member).2
      · rintro ⟨other, named', same⟩
        exact named (by simp_all)

/-! ## Requests -/

/-- What belonged to an inventory is still there where no file of it was touched. -/
theorem of_changes {touched : Location → Prop} {kept : List (Page σ)}
    (fulfils : Fulfils model spill place inventory disk)
    (keeps : Keeps model spill place {page | page ∈ kept} after)
    (distinct : (kept.map Page.id).Nodup) (changes : disk.Changes touched after)
    (apart : ∀ id ∈ inventory.drafts, ¬ touched (place ++ [Page.temporaryName id]))
    (alone : ∀ name, isPageFile name = true ∨ hasPageExtension name = true →
      after.get? (place ++ [name]) ≠ none → name ∈ (Inventory.mk kept inventory.drafts).names) :
    Fulfils model spill place ⟨kept, inventory.drafts⟩ after where
  keeps := keeps
  distinct := distinct
  once := fulfils.once
  drafted id among := by
    rw [changes.elsewhere _ (apart id among)]
    exact fulfils.drafted id among
  alone := alone

/-- A new page is kept. -/
theorem put_eq_ok (fulfils : Fulfils model spill place inventory disk)
    (new : page.id ∉ inventory.ids)
    (done : spill.put model page disk = (.ok (), after)) :
    Fulfils model spill place ⟨page :: inventory.kept, inventory.drafts⟩ after := by
  obtain ⟨free, undrafted⟩ := not_or.mp (List.mem_append.not.mp new)
  obtain ⟨keeps, -⟩ := Spill.put_eq_ok fulfils.keeps
    (fun other member same => free (same ▸ List.mem_map_of_mem member)) done
  obtain ⟨path, written⟩ : ∃ path, page.write model spill.directory disk = (.ok path, after) := by
    rcases written : page.write model spill.directory disk with ⟨failure | path, final⟩
    · simp [Spill.put, written] at done
    · simp only [Spill.put, written, Prod.mk.injEq, true_and] at done
      exact ⟨path, done ▸ rfl⟩
  obtain ⟨-, -, changes, -, -, gone⟩ := Page.write_eq_ok fulfils.keeps.opens written
  refine fulfils.of_changes ?_ ?_ changes (fun id among => ?_) fun name counts held => ?_
  · simpa [Set.insert_def] using keeps
  · exact List.nodup_cons.mpr ⟨free, fulfils.distinct⟩
  · rintro (same | same)
    · exact undrafted (Page.temporaryName_injective (by simpa using same) ▸ among)
    · exact Page.temporaryName_ne_fileName id page.id (by simpa using same)
  · by_cases own : name = Page.fileName page.id
    · simp [Inventory.names, own]
    · by_cases temporary : name = Page.temporaryName page.id
      · exact absurd (temporary ▸ gone) held
      · rw [changes.elsewhere _ (by simp [Page.Touched, own, temporary])] at held
        exact List.mem_cons_of_mem _ (fulfils.alone name counts held)

/-- A page that is refused in the midst of being written leaves a draft. -/
theorem put_begun {failure : Failure} (fulfils : Fulfils model spill place inventory disk)
    (numbered : page.id < 2 ^ 64) (new : page.id ∉ inventory.ids)
    (small : page.size < Page.countLimit)
    (fits : (spill.directory.child (Page.temporaryName page.id)).byteSize ≤ disk.pathLimit)
    (done : spill.put model page disk = (.error failure, after)) :
    Fulfils model spill place ⟨inventory.kept, page.id :: inventory.drafts⟩ after := by
  obtain ⟨free, undrafted⟩ := not_or.mp (List.mem_append.not.mp new)
  have opens := fulfils.keeps.opens
  have others : ∀ other ∈ {page | page ∈ inventory.kept}, other.id ≠ page.id :=
    fun other member same => free (same ▸ List.mem_map_of_mem member)
  obtain ⟨draft, -⟩ := Page.locate_names fulfils.keeps.found numbered.le fits
  obtain ⟨clear, -⟩ := fulfils.keeps.clear_names others
  have removable := fulfils.keeps.tidy _ (isPageFile_temporaryName page.id)
  -- Both files can be made and the page is small, so one of its states was refused.
  obtain ⟨cause, refused⟩ : ∃ cause, (page.image model).refusal = some cause := by
    refine Option.ne_none_iff_exists'.mp fun accepted => ?_
    obtain ⟨final, written⟩ := fulfils.keeps.exists_write_eq_ok others numbered.le fits small
      accepted
    simp [Spill.put, written] at done
  obtain ⟨other, written, drafted⟩ := Page.exists_write_refused opens draft clear small refused
  obtain rfl : other = after := by
    simp only [Spill.put, written, Prod.mk.injEq] at done
    exact done.2
  obtain ⟨changes, -⟩ := Page.write_eq_error opens removable written
  have apart {id : PageId} (other : id ≠ page.id) :
      ¬ place ++ [Page.temporaryName id] = place ++ [Page.temporaryName page.id] := by
    simpa using fun same => other (Page.temporaryName_injective same)
  refine ⟨(put_eq_error fulfils.keeps done).1, fulfils.distinct,
    List.nodup_cons.mpr ⟨undrafted, fulfils.once⟩, ?_, ?_⟩
  · rintro id (_ | ⟨_, among⟩)
    · exact drafted
    · rw [changes.elsewhere _ (apart fun same => undrafted (same ▸ among))]
      exact fulfils.drafted id among
  · intro name counts held
    by_cases temporary : name = Page.temporaryName page.id
    · simp [Inventory.names, temporary]
    · rw [changes.elsewhere _ (by simpa using temporary)] at held
      rcases List.mem_append.mp (fulfils.alone name counts held) with kept | draft
      · exact List.mem_append_left _ kept
      · exact List.mem_append_right _ (List.mem_cons_of_mem _ draft)

/-- Nothing is made for a page that is too large, or whose file has a path that is too long. -/
theorem put_unbegun {failure : Failure} (fulfils : Fulfils model spill place inventory disk)
    (unbegun : ¬ (page.size < Page.countLimit ∧
      (spill.directory.child (Page.temporaryName page.id)).byteSize ≤ disk.pathLimit))
    (done : spill.put model page disk = (.error failure, after)) : after = disk := by
  by_cases small : page.size < Page.countLimit
  · have clean : spill.directory.hasNul = false := by
      obtain ⟨located, -⟩ := Disk.lookup_eq_ok_iff.mp fulfils.keeps.found
      obtain ⟨checked, -⟩ := Disk.locate_eq_ok_iff.mp located
      exact Disk.hasNul_of_check checked
    have written := @Page.write_of_long _ model _ disk page clean small (by omega)
    simp only [Spill.put, written, Prod.mk.injEq] at done
    exact done.2.symm
  · have large : Page.countLimit ≤ page.size := Nat.le_of_not_lt small
    simp only [Spill.put, Page.write, if_pos large, Prod.mk.injEq] at done
    exact done.2.symm

/-- A new page is kept, or it leaves nothing behind, or a draft. -/
theorem put (fulfils : Fulfils model spill place inventory disk) (numbered : page.id < 2 ^ 64)
    (new : page.id ∉ inventory.ids) :
    Fulfils model spill place
      (inventory.note spill.directory disk.pathLimit (.put page)
        (spill.answer model disk (.put page)).1)
      (spill.answer model disk (.put page)).2 := by
  rcases done : spill.put model page disk with ⟨failure | ⟨⟩, after⟩
  · simp only [answer, done, Inventory.note]
    split_ifs with begun
    · exact fulfils.put_begun numbered new begun.1 begun.2 done
    · rw [fulfils.put_unbegun begun done]
      exact fulfils
  · simp only [answer, done, Inventory.note]
    exact fulfils.put_eq_ok new done

/-- A page that is taken is not kept any more. -/
theorem take (fulfils : Fulfils model spill place inventory disk) (id : PageId) (capacity : Nat) :
    Fulfils model spill place
      (inventory.note spill.directory disk.pathLimit (.take id capacity)
        (spill.answer model disk (.take id capacity)).1)
      (spill.answer model disk (.take id capacity)).2 := by
  by_cases member : ∃ page ∈ inventory.kept, page.id = id
  · obtain ⟨page, member, rfl⟩ := member
    have taken := take_of_mem capacity fulfils.keeps member
    cases found : Page.ofImage model page.id capacity (page.image model).bytes with
    | error reason =>
      simp only [found] at taken
      simp only [answer, taken, Inventory.note]
      exact fulfils
    | ok read =>
      simp only [found] at taken
      simp only [answer, taken, Inventory.note]
      obtain ⟨keeps, -⟩ := fulfils.keeps.remove member
      obtain ⟨stamp, held⟩ := fulfils.keeps.stored page member
      have changes := Disk.changes_unset
        (show disk.get? (place ++ [Page.fileName page.id]) ≠ some .directory by simp [held])
      refine fulfils.of_changes (by simpa using keeps) ?_ changes (fun other _ => ?_)
        fun name counts there => ?_
      · exact fulfils.distinct.sublist (List.filter_sublist.map _)
      · simpa using Page.temporaryName_ne_fileName other page.id
      · have apart : name ≠ Page.fileName page.id := by
          rintro rfl
          exact there (Disk.get?_unset_self (by simp) disk)
        rw [changes.elsewhere _ (by simpa using apart)] at there
        rcases List.mem_append.mp (fulfils.alone name counts there) with kept | draft
        · obtain ⟨other, among, rfl⟩ := List.mem_map.mp kept
          refine List.mem_append_left _ (List.mem_map_of_mem (List.mem_filter.mpr ⟨among, ?_⟩))
          simpa using fun same => apart (congrArg Page.fileName same)
        · exact List.mem_append_right _ draft
  · have missed := take_of_absent capacity fulfils.keeps
      fun page among same => member ⟨page, among, same⟩
    simp only [answer, missed, Inventory.note]
    exact fulfils

/-- Only page files are touched to meet a request. -/
theorem changes_answer (fulfils : Fulfils model spill place inventory disk) {request : Request σ}
    (new : ∀ page, request.page? = some page → page.id ∉ inventory.ids) :
    disk.Changes (PageFileIn place) (spill.answer model disk request).2 := by
  cases request with
  | put page =>
    have absent : ∀ other ∈ {page | page ∈ inventory.kept}, other.id ≠ page.id :=
      fun other member same =>
        new page rfl (List.mem_append_left _ (same ▸ List.mem_map_of_mem member))
    rcases done : spill.put model page disk with ⟨failure | ⟨⟩, after⟩
    · simpa only [Spill.answer, done] using (put_eq_error fulfils.keeps done).2
    · simpa only [Spill.answer, done] using (Spill.put_eq_ok fulfils.keeps absent done).2
  | take id capacity =>
    by_cases member : ∃ page ∈ inventory.kept, page.id = id
    · obtain ⟨page, member, rfl⟩ := member
      have taken := take_of_mem capacity fulfils.keeps member
      cases found : Page.ofImage model page.id capacity (page.image model).bytes with
      | error reason =>
        simp only [found] at taken
        simpa only [Spill.answer, taken] using .refl _ _
      | ok read =>
        simp only [found] at taken
        simpa only [Spill.answer, taken] using (fulfils.keeps.remove member).2
    · have missed := take_of_absent capacity fulfils.keeps
        fun page among same => member ⟨page, among, same⟩
      simpa only [Spill.answer, missed] using .refl _ _
  | resident => exact .refl _ _
  | clear =>
    obtain ⟨after, cleared, -, changes⟩ := fulfils.clear
    simpa only [Spill.answer, cleared] using changes

/-- After a request a directory has the files of the inventory that takes note of the answer. -/
theorem answer (fulfils : Fulfils model spill place inventory disk) {request : Request σ}
    (numbered : ∀ page, request.page? = some page → page.id < 2 ^ 64)
    (new : ∀ page, request.page? = some page → page.id ∉ inventory.ids) :
    Fulfils model spill place
      (inventory.note spill.directory disk.pathLimit request (spill.answer model disk request).1)
      (spill.answer model disk request).2 := by
  cases request with
  | put page => exact fulfils.put (numbered page rfl) (new page rfl)
  | take id capacity => exact fulfils.take id capacity
  | resident => exact fulfils
  | clear =>
    obtain ⟨after, cleared, fulfils', -⟩ := fulfils.clear
    simpa only [Spill.answer, cleared, Inventory.note] using fulfils'

end Fulfils

end Spill

/-! ## Requests one after the other -/

namespace Spill

variable {model : Model σ} {spill : Spill} {place : Location} {inventory : Inventory σ}
  {disk : Disk}

/-- After one request after the other a directory has the files of the inventory that takes note of
all the answers. -/
theorem Fulfils.answers {requests : List (Request σ)}
    (fulfils : Fulfils model spill place inventory disk)
    (numbered : ∀ page ∈ requests.filterMap Request.page?, page.id < 2 ^ 64)
    (fresh : ((requests.filterMap Request.page?).map Page.id).Nodup)
    (new : ∀ page ∈ requests.filterMap Request.page?, page.id ∉ inventory.ids) :
    Fulfils model spill place
      (inventory.notes spill.directory disk.pathLimit requests
        (spill.answers model disk requests))
      (spill.diskAfter model disk requests) := by
  induction requests generalizing inventory disk with
  | nil => exact fulfils
  | cons request rest ih =>
    have here (page : Page σ) (put : request.page? = some page) :
        page ∈ (request :: rest).filterMap Request.page? :=
      List.mem_filterMap.mpr ⟨request, List.mem_cons_self, put⟩
    have later (page : Page σ) (among : page ∈ rest.filterMap Request.page?) :
        page ∈ (request :: rest).filterMap Request.page? := by
      obtain ⟨other, member, put⟩ := List.mem_filterMap.mp among
      exact List.mem_filterMap.mpr ⟨other, List.mem_cons_of_mem _ member, put⟩
    have changes := fulfils.changes_answer fun page put => new page (here page put)
    have fulfils' := fulfils.answer (fun page put => numbered page (here page put))
      fun page put => new page (here page put)
    rw [diskAfter, Spill.answers, Inventory.notes, ← changes.pathLimit]
    refine ih (changes.pathLimit ▸ fulfils') (fun page among => numbered page (later page among))
      ?_ fun page among member => ?_
    · exact fresh.sublist (((List.sublist_cons_self request rest).filterMap _).map _)
    · rcases Inventory.mem_ids_of_note member with old | ⟨other, put, same⟩
      · exact new page (later page among) old
      · rw [List.filterMap_cons_some put, List.map_cons, List.nodup_cons, same] at fresh
        exact fresh.1 (List.mem_map_of_mem among)

/-- A directory that was opened has the files of the empty inventory, if nothing in it has the
extension of a page file. -/
theorem fulfils_of_establish {directory : Path} {opened : Disk} {names : List String}
    (model : Model σ) (established : establish directory disk = (.ok spill, opened))
    (listed : opened.children directory = .ok names)
    (alone : ∀ name ∈ names, hasPageExtension name = false) :
    ∃ place, Fulfils model spill place Inventory.empty opened := by
  obtain ⟨place, stands⟩ := @standsFor_of_establish σ model _ _ _ _ _ established listed alone
  refine ⟨place, ?_, List.nodup_nil, List.nodup_nil, by simp [Inventory.empty],
    fun name counts held => ?_⟩
  · simpa [Inventory.empty, Memory.held_empty] using stands.keeps
  · obtain ⟨id, member, -⟩ := stands.alone name counts held
    simp [Memory.empty] at member

/-- Let a directory be opened for pages, and let nothing else in it have the extension of a page
file. After any requests, with a new number for each page that is put, those pages are resident that
were put without fail and neither taken nor dropped since. Clearing the directory then drops them,
and it drops and counts the drafts of the pages that were refused in the midst of being written
since it was last cleared. No page is resident after that. -/
theorem resident_and_dropped {directory : Path} {opened : Disk} {names : List String}
    {requests : List (Request σ)} (established : establish directory disk = (.ok spill, opened))
    (listed : opened.children directory = .ok names)
    (alone : ∀ name ∈ names, hasPageExtension name = false)
    (numbered : ∀ page ∈ requests.filterMap Request.page?, page.id < 2 ^ 64)
    (fresh : ((requests.filterMap Request.page?).map Page.id).Nodup) :
    let inventory := Inventory.empty.notes directory opened.pathLimit requests
      (spill.answers model opened requests)
    let last := spill.diskAfter model opened requests
    spill.resident last = inventory.kept.length ∧
      ∃ final, spill.clear last =
          (.ok (inventory.kept.length + inventory.drafts.length), final) ∧
        spill.resident final = 0 := by
  obtain ⟨rfl, -⟩ := establish_eq_ok model established
  obtain ⟨place, fulfils⟩ := fulfils_of_establish model established listed alone
  have fulfils' := fulfils.answers numbered fresh fun _ _ => List.not_mem_nil
  obtain ⟨final, cleared, bare, -⟩ := fulfils'.clear
  exact ⟨fulfils'.resident_eq, final, cleared, bare.resident_eq⟩

/-- Of two pages the second is refused: one is resident, and two are dropped. -/
theorem resident_and_dropped_of_refusal :
    let disk := Disk.empty.set ["runs"] .directory
    let model : Model GridState := { (⟨1, 1, none⟩ : CounterGrid).model with
      encode := fun state =>
        if state = ⟨1, 0⟩ then ⟨[], some (.invalidData "refused")⟩ else .ofBytes [] }
    let requests : List (Request GridState) := [.put ⟨1, 1, #[⟨⟨0, 1⟩, 2, ⟨0, 18⟩⟩]⟩,
      .put ⟨2, 1, #[⟨⟨1, 0⟩, 2, ⟨0, 36⟩⟩]⟩]
    let last := Spill.diskAfter ⟨⟨["runs"]⟩⟩ model disk requests
    Spill.establish ⟨["runs"]⟩ disk = (.ok ⟨⟨["runs"]⟩⟩, disk) ∧
      disk.children ⟨["runs"]⟩ = .ok [] ∧ Spill.resident ⟨⟨["runs"]⟩⟩ last = 1 ∧
      ∃ final, Spill.clear ⟨⟨["runs"]⟩⟩ last = (.ok 2, final) ∧
        Spill.resident ⟨⟨["runs"]⟩⟩ final = 0 := by
  intro disk model requests last
  obtain ⟨-, -, established, listed⟩ := @bare_directory 0 (by decide)
  have established : Spill.establish ⟨["runs"]⟩ disk = (.ok ⟨⟨["runs"]⟩⟩, disk) := established
  have counted : (Inventory.empty.notes ⟨["runs"]⟩ disk.pathLimit requests
        (Spill.answers ⟨⟨["runs"]⟩⟩ model disk requests)).kept.length = 1 ∧
      (Inventory.empty.notes ⟨["runs"]⟩ disk.pathLimit requests
        (Spill.answers ⟨⟨["runs"]⟩⟩ model disk requests)).drafts.length = 1 := by decide +kernel
  obtain ⟨resident, final, cleared, bare⟩ := @resident_and_dropped _ model _ _ _ _ _ requests
    established listed (by simp) (by decide) (by decide)
  rw [counted.1] at resident
  rw [counted.1, counted.2] at cleared
  exact ⟨established, listed, resident, final, cleared, bare⟩

/-- A page that is refused is not resident, and yet it is dropped. -/
theorem clear_ne_resident_of_refusal :
    let disk := Disk.empty.set ["runs"] .directory
    let model : Model GridState := { (⟨1, 1, none⟩ : CounterGrid).model with
      encode := fun _ => ⟨[], some (.invalidData "refused")⟩ }
    let page : Page GridState := ⟨7, 1, #[⟨⟨0, 0⟩, 1, ⟨0, 0⟩⟩]⟩
    let last := Spill.diskAfter ⟨⟨["runs"]⟩⟩ model disk [.put page]
    Spill.establish ⟨["runs"]⟩ disk = (.ok ⟨⟨["runs"]⟩⟩, disk) ∧
      disk.children ⟨["runs"]⟩ = .ok [] ∧
      (Spill.put ⟨⟨["runs"]⟩⟩ model page disk).1.isOk = false ∧
      Spill.resident ⟨⟨["runs"]⟩⟩ last = 0 ∧ (Spill.clear ⟨⟨["runs"]⟩⟩ last).1 = .ok 1 := by
  intro disk model page last
  obtain ⟨-, -, established, listed⟩ := @bare_directory 0 (by decide)
  refine ⟨established, listed, ?_, ?_, ?_⟩
  · decide +kernel
  · decide +kernel
  · decide +kernel

end Spill

end Wavefront
