/-
# What a frontier has in stock

A page waits in one of two stores, and its number decides in which. `Stocks` says that
the two stores together hold exactly the pages of a set, each where it belongs.
Enqueueing a page adds it to the set, taking one removes it, and the lemmas here say
so for every way in which either can turn out.
-/

import Wavefront.Proofs.Frontier.History
import Wavefront.Proofs.Store.SpilledPages

namespace Wavefront.Frontier

variable {σ : Type} {model : Model σ} {place : Location} {pages : Set (Page σ)}
  {frontier after : Frontier σ} {disk final : Disk}

/-- The pages that wait at a frontier are those of a set: in memory those whose numbers are
within the memory budget, in files all others. -/
structure Stocks (model : Model σ) (place : Location) (pages : Set (Page σ))
    (frontier : Frontier σ) (disk : Disk) : Prop where
  memory : ∀ id page, frontier.memory.pages[id]? = some page ↔
    page ∈ pages ∧ page.id = id ∧ frontier.keepsInMemory id = true
  files : frontier.spill.Keeps model place
    {page | page ∈ pages ∧ frontier.keepsInMemory page.id = false} disk

/-- What may come out for a page that waits: the page itself, or what its image is read as. -/
def Answers (model : Model σ) (frontier : Frontier σ) (waiting answer : Page σ) : Prop :=
  if frontier.keepsInMemory waiting.id then answer = waiting
  else Page.ofImage model waiting.id (frontier.sizing.capacity waiting.id)
    (waiting.image model).bytes = .ok answer

/-- The ways in which taking the page of a number can turn out. -/
inductive Taking (model : Model σ) (place : Location) (pages : Set (Page σ)) (frontier : Frontier σ)
    (disk : Disk) (id : PageId) : Except Failure (Option (Page σ)) → Frontier σ → Disk → Prop where
  /-- No page of that number waits. -/
  | misses {memory : Memory σ} (absent : ∀ page ∈ pages, page.id ≠ id)
      (stocks : Stocks model place pages { frontier with memory := memory } disk) :
      Taking model place pages frontier disk id (.ok none) { frontier with memory := memory } disk
  /-- A page comes out for the one that waits. -/
  | finds {page answer : Page σ} {memory : Memory σ} {final : Disk} (member : page ∈ pages)
      (same : page.id = id) (answers : frontier.Answers model page answer)
      (stocks : Stocks model place {other | other ∈ pages ∧ other.id ≠ page.id}
        { frontier with memory := memory } final)
      (changes : disk.Changes (Spill.PageFileIn place) final) :
      Taking model place pages frontier disk id (.ok (some answer))
        { frontier with memory := memory } final
  /-- The page that waits cannot be read, and stays where it is. -/
  | chokes {page : Page σ} {failure : Failure} {reason : Reason} (member : page ∈ pages)
      (same : page.id = id) (spilled : frontier.keepsInMemory page.id = false)
      (broken : Page.ofImage model page.id (frontier.sizing.capacity page.id)
        (page.image model).bytes = .error reason) :
      Taking model place pages frontier disk id (.error failure) frontier disk

/-- Whether the page of a number is there to be taken. -/
def isResident (frontier : Frontier σ) (id : PageId) (disk : Disk) : Bool :=
  if frontier.keepsInMemory id then frontier.memory.pages.contains id
  else disk.exists? (frontier.spill.directory.child (Page.fileName id))

namespace Stocks

/-- The pages that are there to be taken are those of the set. -/
theorem isResident_iff {id : PageId} (stocks : Stocks model place pages frontier disk) :
    frontier.isResident id disk = true ↔ ∃ page ∈ pages, page.id = id := by
  unfold isResident
  split
  · rename_i inMemory
    rw [Std.ExtTreeMap.contains_eq_isSome_getElem?, Option.isSome_iff_exists]
    constructor
    · rintro ⟨page, found⟩
      obtain ⟨member, same, -⟩ := (stocks.memory id page).mp found
      exact ⟨page, member, same⟩
    · rintro ⟨page, member, same⟩
      exact ⟨page, (stocks.memory id page).mpr ⟨member, same, inMemory⟩⟩
  · rename_i spilled
    rw [stocks.files.exists?_iff]
    constructor
    · rintro ⟨page, ⟨member, -⟩, same⟩
      exact ⟨page, member, same⟩
    · rintro ⟨page, member, rfl⟩
      exact ⟨page, ⟨member, by simpa using spilled⟩, rfl⟩

theorem of_changes {touched : Location → Prop} (stocks : Stocks model place pages frontier disk)
    (changes : disk.Changes touched final)
    (apart : ∀ target, Spill.PageFileIn place target → ¬ touched target) :
    Stocks model place pages frontier final :=
  ⟨stocks.memory, stocks.files.of_changes changes apart⟩

/-! ## Enqueueing -/

/-- A number that no page has is free in memory. -/
theorem contains_eq_false {id : PageId} (stocks : Stocks model place pages frontier disk)
    (free : ∀ other ∈ pages, other.id ≠ id) : frontier.memory.pages.contains id = false := by
  rw [Bool.eq_false_iff]
  intro present
  rw [Std.ExtTreeMap.contains_eq_isSome_getElem?, Option.isSome_iff_exists] at present
  obtain ⟨other, found⟩ := present
  obtain ⟨member, same, -⟩ := (stocks.memory _ _).mp found
  exact free other member same

/-- A page that holds something is enqueued, if it can be written where it has to be. -/
theorem exists_enqueue_eq_ok {page : Page σ} (stocks : Stocks model place pages frontier disk)
    (free : ∀ other ∈ pages, other.id ≠ page.id) (filled : 0 < page.size)
    (writes : frontier.keepsInMemory page.id = false →
      ∃ path after, page.write model frontier.spill.directory disk = (.ok path, after)) :
    ∃ after final, frontier.enqueue model page disk = (.ok (), after, final) := by
  have nonempty : page.isEmpty = false := by
    simpa [Page.isEmpty, Page.size, Nat.pos_iff_ne_zero] using filled
  unfold enqueue
  rw [if_neg (by simp [nonempty])]
  cases inMemory : frontier.keepsInMemory page.id with
  | true => simp [Memory.put, stocks.contains_eq_false free, Except.mapError]
  | false =>
    obtain ⟨path, after, written⟩ := writes inMemory
    simp [Spill.put, written, Except.mapError]

/-- A page that was enqueued waits. -/
theorem enqueue_eq_ok {page : Page σ} (stocks : Stocks model place pages frontier disk)
    (free : ∀ other ∈ pages, other.id ≠ page.id)
    (enqueued : frontier.enqueue model page disk = (.ok (), after, final)) :
    page.isEmpty = false ∧ (∃ memory, after = { frontier with memory := memory }) ∧
      Stocks model place (insert page pages) after final ∧
      disk.Changes (Spill.PageFileIn place) final := by
  unfold enqueue at enqueued
  split at enqueued
  · cases enqueued
  · rename_i nonempty
    split at enqueued
    · rename_i inMemory
      simp only [Memory.put, Prod.mk.injEq] at enqueued
      obtain ⟨-, rfl, rfl⟩ := enqueued
      refine ⟨by simpa using nonempty, ⟨_, rfl⟩, ⟨fun id other => ?_, ?_⟩, .refl _ _⟩
      · rw [Std.ExtTreeMap.getElem?_insert]
        by_cases own : page.id = id
        · subst own
          rw [if_pos (Nat.compare_eq_eq.mpr rfl)]
          constructor
          · rintro ⟨rfl⟩
            exact ⟨Set.mem_insert _ _, rfl, inMemory⟩
          · rintro ⟨rfl | member, same, -⟩
            · rfl
            · exact absurd same (free other member)
        · rw [if_neg (mt Nat.compare_eq_eq.mp own), stocks.memory]
          constructor
          · rintro ⟨member, rest⟩
            exact ⟨Set.mem_insert_of_mem _ member, rest⟩
          · rintro ⟨rfl | member, rest⟩
            · exact absurd rest.1 own
            · exact ⟨member, rest⟩
      · -- The page is in memory, so the files are those of the same pages as before.
        have same : {other | other ∈ insert page pages ∧ frontier.keepsInMemory other.id = false} =
            {other | other ∈ pages ∧ frontier.keepsInMemory other.id = false} := by
          ext other
          constructor
          · rintro ⟨rfl | member, spilled⟩
            · simp [inMemory] at spilled
            · exact ⟨member, spilled⟩
          · rintro ⟨member, spilled⟩
            exact ⟨Set.mem_insert_of_mem _ member, spilled⟩
        exact same ▸ stocks.files
    · rename_i spilled
      cases put : frontier.spill.put model page disk with
      | mk result rest =>
        cases result with
        | error failure => simp [put, Except.mapError] at enqueued
        | ok done =>
          simp only [put, Except.mapError, Prod.mk.injEq, true_and] at enqueued
          obtain ⟨rfl, rfl⟩ := enqueued
          obtain ⟨keeps, changes⟩ := Spill.put_eq_ok stocks.files
            (fun other member => free other member.1) put
          refine ⟨by simpa using nonempty, ⟨_, rfl⟩, ⟨fun id other => ?_, ?_⟩, changes⟩
          · rw [stocks.memory]
            constructor
            · rintro ⟨member, kept⟩
              exact ⟨Set.mem_insert_of_mem _ member, kept⟩
            · rintro ⟨rfl | member, rfl, inMemory⟩
              · exact absurd inMemory spilled
              · exact ⟨member, rfl, inMemory⟩
          · have same : {other | other ∈ insert page pages ∧
                frontier.keepsInMemory other.id = false} =
                insert page {other | other ∈ pages ∧ frontier.keepsInMemory other.id = false} := by
              ext other
              constructor
              · rintro ⟨rfl | member, kept⟩
                · exact Set.mem_insert _ _
                · exact Set.mem_insert_of_mem _ ⟨member, kept⟩
              · rintro (rfl | ⟨member, kept⟩)
                · exact ⟨Set.mem_insert _ _, by simpa using spilled⟩
                · exact ⟨Set.mem_insert_of_mem _ member, kept⟩
            exact same ▸ keeps

/-- A page that could not be enqueued does not wait, and the others do as before. -/
theorem enqueue_eq_error {page : Page σ} {stop : Stop}
    (stocks : Stocks model place pages frontier disk) (free : ∀ other ∈ pages, other.id ≠ page.id)
    (enqueued : frontier.enqueue model page disk = (.error stop, after, final)) :
    after = frontier ∧ Stocks model place pages frontier final ∧
      disk.Changes (Spill.PageFileIn place) final ∧
      (page.isEmpty = true ∨ ∃ failure, stop = .failure failure) := by
  unfold enqueue at enqueued
  split at enqueued
  · rename_i empty
    simp only [Prod.mk.injEq] at enqueued
    obtain ⟨-, rfl, rfl⟩ := enqueued
    exact ⟨rfl, stocks, .refl _ _, .inl empty⟩
  · split at enqueued
    · simp [Memory.put, stocks.contains_eq_false free, Except.mapError] at enqueued
    · cases put : frontier.spill.put model page disk with
      | mk result rest =>
        cases result with
        | ok done => simp [put, Except.mapError] at enqueued
        | error failure =>
          simp only [put, Except.mapError, Prod.mk.injEq, Except.error.injEq] at enqueued
          obtain ⟨rfl, rfl, rfl⟩ := enqueued
          obtain ⟨keeps, changes⟩ := Spill.put_eq_error stocks.files put
          exact ⟨rfl, ⟨stocks.memory, keeps⟩, changes, .inr ⟨failure, rfl⟩⟩

/-! ## Taking -/

/-- Taking a number that no page has finds nothing and changes nothing that matters. -/
theorem take_of_absent {id : PageId} (stocks : Stocks model place pages frontier disk)
    (absent : ∀ page ∈ pages, page.id ≠ id) :
    ∃ memory, frontier.take model id disk = (.ok none, { frontier with memory := memory }, disk) ∧
      Stocks model place pages { frontier with memory := memory } disk := by
  by_cases inMemory : frontier.keepsInMemory id = true
  · have missing : frontier.memory.pages[id]? = none := by
      cases found : frontier.memory.pages[id]? with
      | none => rfl
      | some page =>
        obtain ⟨member, same, -⟩ := (stocks.memory _ _).mp found
        exact absurd same (absent page member)
    refine ⟨⟨frontier.memory.pages.erase id⟩, ?_, fun other page => ?_, stocks.files⟩
    · simp only [take, if_pos inMemory, Memory.take, missing]
    · rw [Std.ExtTreeMap.getElem?_erase]
      by_cases own : id = other
      · subst own
        rw [if_pos (Nat.compare_eq_eq.mpr rfl)]
        simp only [reduceCtorEq, false_iff]
        rintro ⟨member, same, -⟩
        exact absent page member same
      · rw [if_neg (mt Nat.compare_eq_eq.mp own)]
        exact stocks.memory other page
  · have nothing := Spill.take_of_absent (frontier.sizing.capacity id) stocks.files
      (fun page member => absent page member.1)
    exact ⟨frontier.memory, by simp only [take, if_neg inMemory, nothing], stocks⟩

/-- Taking the number of a page that waits takes that page out, unless its file is no page. -/
theorem take_of_mem {page : Page σ} (stocks : Stocks model place pages frontier disk)
    (member : page ∈ pages) :
    (∃ answer memory final, Answers model frontier page answer ∧
      frontier.take model page.id disk =
        (.ok (some answer), { frontier with memory := memory }, final) ∧
      Stocks model place {other | other ∈ pages ∧ other.id ≠ page.id}
        { frontier with memory := memory } final ∧
      disk.Changes (Spill.PageFileIn place) final) ∨
    (∃ failure reason, frontier.take model page.id disk = (.error failure, frontier, disk) ∧
      Page.ofImage model page.id (frontier.sizing.capacity page.id) (page.image model).bytes =
        .error reason ∧ frontier.keepsInMemory page.id = false) := by
  by_cases inMemory : frontier.keepsInMemory page.id = true
  · have found := (stocks.memory page.id page).mpr ⟨member, rfl, inMemory⟩
    refine .inl ⟨page, ⟨frontier.memory.pages.erase page.id⟩, disk, ?_, ?_, ⟨?_, ?_⟩, .refl _ _⟩
    · simp [Answers, inMemory]
    · simp only [take, if_pos inMemory, Memory.take, found]
    · intro id other
      rw [Std.ExtTreeMap.getElem?_erase]
      by_cases own : page.id = id
      · subst own
        rw [if_pos (Nat.compare_eq_eq.mpr rfl)]
        simp only [reduceCtorEq, false_iff]
        rintro ⟨⟨-, apart⟩, same, -⟩
        exact apart same
      · rw [if_neg (mt Nat.compare_eq_eq.mp own), stocks.memory]
        constructor
        · rintro ⟨kept, rfl, rest⟩
          exact ⟨⟨kept, Ne.symm own⟩, rfl, rest⟩
        · rintro ⟨⟨kept, -⟩, rest⟩
          exact ⟨kept, rest⟩
    · have same : {other | other ∈ {other | other ∈ pages ∧ other.id ≠ page.id} ∧
          frontier.keepsInMemory other.id = false} =
          {other | other ∈ pages ∧ frontier.keepsInMemory other.id = false} := by
        ext other
        constructor
        · rintro ⟨⟨kept, -⟩, spilled⟩
          exact ⟨kept, spilled⟩
        · rintro ⟨kept, spilled⟩
          refine ⟨⟨kept, fun same => ?_⟩, spilled⟩
          rw [same, inMemory] at spilled
          cases spilled
      exact same ▸ stocks.files
  · have here : page ∈ {page | page ∈ pages ∧ frontier.keepsInMemory page.id = false} :=
      ⟨member, by simpa using inMemory⟩
    have taken := Spill.take_of_mem (frontier.sizing.capacity page.id) stocks.files here
    cases decoded : Page.ofImage model page.id (frontier.sizing.capacity page.id)
        (page.image model).bytes with
    | error reason =>
      simp only [decoded] at taken
      refine .inr ⟨.pageRead (frontier.spill.directory.child (Page.fileName page.id)) reason,
        reason, ?_, rfl, by simpa using inMemory⟩
      simp only [take, if_neg inMemory, taken]
    | ok answer =>
      simp only [decoded] at taken
      obtain ⟨keeps, changes⟩ := stocks.files.remove here
      refine .inl ⟨answer, frontier.memory, _, ?_, ?_, ⟨fun id other => ?_, ?_⟩, changes⟩
      · simpa [Answers, inMemory] using decoded
      · simp only [take, if_neg inMemory, taken]
      · rw [stocks.memory]
        constructor
        · rintro ⟨kept, rfl, rest⟩
          refine ⟨⟨kept, fun same => ?_⟩, rfl, rest⟩
          exact inMemory (same ▸ rest)
        · rintro ⟨⟨kept, -⟩, rest⟩
          exact ⟨kept, rest⟩
      · have same : {other | other ∈ {other | other ∈ pages ∧ other.id ≠ page.id} ∧
            frontier.keepsInMemory other.id = false} =
            {other | other ∈ {other | other ∈ pages ∧ frontier.keepsInMemory other.id = false} ∧
              other.id ≠ page.id} := by
          ext other
          simp only [Set.mem_ofPred_eq]
          tauto
        exact same ▸ keeps

/-- Taking a page turns out in one of the ways listed. -/
theorem taking {id : PageId} {result : Except Failure (Option (Page σ))}
    (stocks : Stocks model place pages frontier disk)
    (taken : frontier.take model id disk = (result, after, final)) :
    Taking model place pages frontier disk id result after final := by
  by_cases absent : ∀ page ∈ pages, page.id ≠ id
  · obtain ⟨memory, missed, kept⟩ := stocks.take_of_absent absent
    obtain ⟨rfl, rfl, rfl⟩ := by simpa only [Prod.mk.injEq] using missed.symm.trans taken
    exact .misses absent kept
  · simp only [not_forall, not_not] at absent
    obtain ⟨page, member, rfl⟩ := absent
    rcases stocks.take_of_mem member with
      ⟨answer, memory, last, answers, found, kept, changes⟩ |
      ⟨failure, reason, unreadable, broken, spilled⟩
    · obtain ⟨rfl, rfl, rfl⟩ := by simpa only [Prod.mk.injEq] using found.symm.trans taken
      exact .finds member rfl answers kept changes
    · obtain ⟨rfl, rfl, rfl⟩ := by simpa only [Prod.mk.injEq] using unreadable.symm.trans taken
      exact .chokes member rfl spilled broken

/-! ## Discarding -/

/-- A frontier that is finished can be cleared of all pages. -/
theorem discard_of_finished (stocks : Stocks model place pages frontier disk)
    (ended : frontier.tail = .finished) :
    ∃ dropped final, frontier.discard disk =
        (.ok dropped, { frontier with memory := .empty }, final) ∧
      Stocks model place ∅ { frontier with memory := .empty } final ∧
      disk.Changes (Spill.PageFileIn place) final := by
  obtain ⟨dropped, final, cleared, keeps, changes⟩ := stocks.files.clear
  have closed : frontier.isFinished = true := by simp [isFinished, ended]
  refine ⟨frontier.memory.resident + dropped, final, ?_, ⟨?_, ?_⟩, changes⟩
  · simp only [discard, closed, if_true, Memory.clear, cleared]
    rfl
  · simp [Memory.empty]
  · simpa using keeps

end Stocks

/-- A frontier that is not finished cannot be cleared. -/
theorem discard_of_live (live : frontier.tail ≠ .finished) :
    frontier.discard disk = (.error (.fault .discardedWhileLive), frontier, disk) := by
  have opened : ¬ frontier.isFinished = true := by simpa [isFinished] using live
  exact if_neg opened

end Wavefront.Frontier
