/-
# The books of a frontier

Two ledgers are kept for a frontier. Every page number handed out belongs to a page in
somebody's hands, to one that was enqueued or to one that was refused; every ticket
drawn is outstanding, answered or forgone. `Balanced` says that both ledgers add up,
that the stores hold what waits, and that whoever was given a page was given the one
whose number is on the ticket. Every operation on a frontier is one transfer between
accounts, and an access of a call is at most one operation.
-/

import Mathlib.Data.List.Perm.Subperm
import Mathlib.Data.List.Range
import Mathlib.Data.List.Nodup
import Wavefront.Proofs.Frontier.Access
import Wavefront.Proofs.Frontier.Stock

namespace Wavefront

open History

variable {σ : Type}

/-- A page has the capacity that belongs to its number, and does not exceed it. -/
structure Page.Fits (sizing : PageSizing) (page : Page σ) : Prop where
  capacity : page.capacity = sizing.capacity page.id
  size : page.size ≤ page.capacity

theorem Page.Fits.add {sizing : PageSizing} {page grown : Page σ} {node : Node σ}
    (fits : page.Fits sizing) (added : page.add node = .ok grown) :
    grown.Fits sizing ∧ grown.id = page.id ∧ grown.nodes.toList = page.nodes.toList ++ [node] := by
  obtain ⟨room, rfl⟩ := Page.add_eq_ok_iff.mp added
  refine ⟨⟨fits.capacity, ?_⟩, rfl, by simp⟩
  have pushed : (page.nodes.push node).size = page.size + 1 := by simp [Page.size]
  show (page.nodes.push node).size ≤ page.capacity
  omega

namespace Frontier

variable {model : Model σ} {place : Location} {frontier after : Frontier σ} {disk final : Disk}
  {past events : History σ} {hands : List (Page σ)} {tickets : List Nat} {page : Page σ}
  {ticket : Nat}

/-- The books of a frontier after some history, with the pages in somebody's hands and the
tickets that are outstanding. -/
structure Balanced (model : Model σ) (place : Location) (frontier : Frontier σ) (disk : Disk)
    (past : History σ) (hands : List (Page σ)) (tickets : List Nat) : Prop where
  stocks : Stocks model place {page | page ∈ waiting past} frontier disk
  ids : (hands.map Page.id ++ (enqueued past).map Page.id ++ (refused past).map Page.id).Perm
    (List.range' 1 frontier.head)
  fits : ∀ page ∈ hands ++ enqueued past, page.Fits frontier.sizing
  nonempty : ∀ page ∈ enqueued past, 0 < page.size
  tickets : (tickets ++ answered past ++ forgone past).Perm (drawn past)
  order : drawn past = List.range' 1 (drawn past).length
  tail : frontier.tail = .finished ∨ frontier.tail = .ticket (drawn past).length
  answers : ∀ ticket answer, (ticket, answer) ∈ delivered past →
    ∃ page ∈ enqueued past, page.id = ticket ∧ frontier.Answers model page answer

namespace Balanced

/-! ## What the books say -/

/-- Page numbers are handed out once. -/
theorem nodup_ids (balanced : Balanced model place frontier disk past hands tickets) :
    (hands.map Page.id ++ (enqueued past).map Page.id ++ (refused past).map Page.id).Nodup :=
  balanced.ids.nodup_iff.mpr List.nodup_range'

/-- Tickets are drawn once. -/
theorem nodup_tickets (balanced : Balanced model place frontier disk past hands tickets) :
    (tickets ++ answered past ++ forgone past).Nodup := by
  rw [balanced.tickets.nodup_iff, balanced.order]
  exact List.nodup_range'

/-- A page is not enqueued twice. -/
theorem nodup_enqueued (balanced : Balanced model place frontier disk past hands tickets) :
    ((enqueued past).map Page.id).Nodup :=
  balanced.nodup_ids.of_append_left.of_append_right

/-- A ticket is not answered twice. -/
theorem nodup_answered (balanced : Balanced model place frontier disk past hands tickets) :
    (answered past).Nodup :=
  balanced.nodup_tickets.of_append_left.of_append_right

/-- Only the numbers of enqueued pages are answered. -/
theorem mem_enqueued_of_answered (balanced : Balanced model place frontier disk past hands tickets)
    (answered : ticket ∈ answered past) : ticket ∈ (enqueued past).map Page.id := by
  obtain ⟨⟨_, answer⟩, member, rfl⟩ := List.mem_map.mp answered
  obtain ⟨page, enqueued, same, -⟩ := balanced.answers _ _ member
  exact List.mem_map.mpr ⟨page, enqueued, same⟩

/-- The number of a page in somebody's hands is not that of an enqueued page. -/
theorem notMem_enqueued
    (balanced : Balanced model place frontier disk past (page :: hands) tickets) :
    page.id ∉ (enqueued past).map Page.id := by
  have apart := balanced.nodup_ids
  simp only [List.map_cons, List.cons_append, List.nodup_cons, List.mem_append, not_or] at apart
  exact apart.1.1.2

theorem free (balanced : Balanced model place frontier disk past (page :: hands) tickets) :
    ∀ other ∈ {other | other ∈ waiting past}, other.id ≠ page.id := by
  intro other member same
  apply balanced.notMem_enqueued
  exact List.mem_map.mpr ⟨other, (mem_waiting.mp member).1, same⟩

/-- The number of a page in somebody's hands is not answered yet. -/
theorem notMem_answered (balanced : Balanced model place frontier disk past hands tickets)
    (member : page ∈ hands) : page.id ∉ answered past := by
  intro answered
  have apart := (List.nodup_append.mp balanced.nodup_ids.of_append_left).2.2
  exact apart page.id (List.mem_map_of_mem member) page.id
    (balanced.mem_enqueued_of_answered answered) rfl

/-- What comes out for a page is the page, if its states can be restored and it is not too large
for a file that it lies in. -/
theorem eq_of_answers {answer : Page σ}
    (balanced : Balanced model place frontier disk past hands tickets)
    (there : page ∈ enqueued past)
    (whole : frontier.keepsInMemory page.id = false → page.size < Page.countLimit)
    (restores : ∀ node ∈ page.nodes, model.Restores node.state)
    (answers : frontier.Answers model page answer) : answer = page := by
  unfold Frontier.Answers at answers
  split at answers
  · exact answers
  · rename_i spilled
    have fits := balanced.fits page (List.mem_append_right _ there)
    have image := Page.ofImage_image restores (balanced.nonempty page there) fits.size
      (whole (by simpa using spilled))
    rw [fits.capacity, answers] at image
    exact Except.ok.inj image

/-- The file of a page that waits is read as the page, if its states can be restored. -/
theorem ofImage_eq (balanced : Balanced model place frontier disk past hands tickets)
    (waits : page ∈ waiting past) (spilled : frontier.keepsInMemory page.id = false)
    (restores : ∀ node ∈ page.nodes, model.Restores node.state) :
    Page.ofImage model page.id (frontier.sizing.capacity page.id) (page.image model).bytes =
      .ok page := by
  have there := (mem_waiting.mp waits).1
  have fits := balanced.fits page (List.mem_append_right _ there)
  rw [← fits.capacity]
  exact Page.ofImage_image restores (balanced.nonempty page there) fits.size
    (balanced.stocks.files.whole page ⟨waits, spilled⟩)

/-- What comes out for a page that waits is the page, whatever can be written and read of it. -/
theorem eq_of_waiting {answer : Page σ}
    (balanced : Balanced model place frontier disk past hands tickets) (waits : page ∈ waiting past)
    (faithful : ∀ node ∈ page.nodes, model.Faithful node.state)
    (answers : frontier.Answers model page answer) : answer = page := by
  unfold Frontier.Answers at answers
  split at answers
  · exact answers
  · rename_i spilled
    have filed : page ∈ {page | page ∈ {page | page ∈ waiting past} ∧
        frontier.keepsInMemory page.id = false} := ⟨waits, by simpa using spilled⟩
    have fits := balanced.fits page (List.mem_append_right _ (mem_waiting.mp waits).1)
    exact Page.eq_of_ofImage fits.capacity faithful (balanced.stocks.files.written page filed)
      (balanced.stocks.files.whole page filed) answers

theorem length_ids (balanced : Balanced model place frontier disk past hands tickets) :
    hands.length + (enqueued past).length + (refused past).length = frontier.head := by
  have same := balanced.ids.length_eq
  simp only [List.length_append, List.length_map, List.length_range'] at same
  exact same

theorem length_tickets (balanced : Balanced model place frontier disk past hands tickets) :
    tickets.length + (answered past).length + (forgone past).length = (drawn past).length := by
  have same := balanced.tickets.length_eq
  simp only [List.length_append] at same
  exact same

theorem answered_subperm (balanced : Balanced model place frontier disk past hands tickets) :
    (answered past).Subperm ((enqueued past).map Page.id) :=
  balanced.nodup_answered.subperm fun _ member => balanced.mem_enqueued_of_answered member

theorem length_answered_le (balanced : Balanced model place frontier disk past hands tickets) :
    (answered past).length ≤ (enqueued past).length := by
  simpa using balanced.answered_subperm.length_le

/-- If as many tickets were answered as page numbers were handed out, then every page was
enqueued and delivered. -/
theorem spent (balanced : Balanced model place frontier disk past hands tickets)
    (enough : frontier.head ≤ (answered past).length) :
    hands = [] ∧ refused past = [] ∧ waiting past = [] ∧
      ((enqueued past).map Page.id).Perm (List.range' 1 frontier.head) ∧
      (answered past).Perm (List.range' 1 frontier.head) := by
  have ids := balanced.length_ids
  have answers := balanced.length_answered_le
  have noHands : hands = [] := List.length_eq_zero_iff.mp (by omega)
  have noneRefused : refused past = [] := List.length_eq_zero_iff.mp (by omega)
  have same : (answered past).Perm ((enqueued past).map Page.id) :=
    balanced.answered_subperm.perm_of_length_le (by rw [List.length_map]; omega)
  have all := balanced.ids
  rw [noHands, noneRefused] at all
  have every : ((enqueued past).map Page.id).Perm (List.range' 1 frontier.head) :=
    by simpa using all
  refine ⟨noHands, noneRefused, ?_, every, same.trans every⟩
  apply List.eq_nil_iff_forall_not_mem.mpr
  intro page waits
  obtain ⟨there, unanswered⟩ := mem_waiting.mp waits
  exact unanswered (same.mem_iff.mpr (List.mem_map.mpr ⟨page, there, rfl⟩))

/-! ## Transfers -/

/-- It does not matter who has which page and which ticket. -/
theorem perm {hands' : List (Page σ)} {tickets' : List Nat}
    (balanced : Balanced model place frontier disk past hands tickets)
    (samePages : hands'.Perm hands) (sameTickets : tickets'.Perm tickets) :
    Balanced model place frontier disk past hands' tickets' where
  stocks := balanced.stocks
  ids := (((samePages.map _).append_right _).append_right _).trans balanced.ids
  fits page member := balanced.fits page ((samePages.append_right _).mem_iff.mp member)
  nonempty := balanced.nonempty
  tickets := ((sameTickets.append_right _).append_right _).trans balanced.tickets
  order := balanced.order
  tail := balanced.tail
  answers := balanced.answers

theorem front {first : List (Page σ)}
    (balanced : Balanced model place frontier disk past (first ++ [page] ++ hands) tickets) :
    Balanced model place frontier disk past (page :: (first ++ hands)) tickets := by
  refine balanced.perm ?_ (.refl _)
  rw [List.append_assoc]
  exact List.perm_middle.symm

/-- Other files than those of pages do not matter. -/
theorem of_changes {touched : Location → Prop}
    (balanced : Balanced model place frontier disk past hands tickets)
    (changes : disk.Changes touched final)
    (apart : ∀ target, Spill.PageFileIn place target → ¬ touched target) :
    Balanced model place frontier final past hands tickets :=
  { balanced with stocks := balanced.stocks.of_changes changes apart }

/-- Recording a state is nothing to a frontier. -/
theorem append_recorded (balanced : Balanced model place frontier disk past hands tickets)
    (parent : Option (Node σ)) (node : Node σ) :
    Balanced model place frontier disk (past ++ [.recorded parent node]) hands tickets := by
  have same : waiting (past ++ [.recorded parent node]) = waiting past :=
    waiting_append_of_nil rfl rfl
  constructor
  · rw [same]
    exact balanced.stocks
  · simpa using balanced.ids
  · simpa using balanced.fits
  · simpa using balanced.nonempty
  · simpa using balanced.tickets
  · simpa using balanced.order
  · simpa using balanced.tail
  · simpa using balanced.answers

/-- Once finished, a frontier has no more tickets. -/
theorem finish (balanced : Balanced model place frontier disk past hands tickets) :
    Balanced model place frontier.finish disk past hands tickets where
  stocks := ⟨balanced.stocks.memory, balanced.stocks.files⟩
  ids := balanced.ids
  fits := balanced.fits
  nonempty := balanced.nonempty
  tickets := balanced.tickets
  order := balanced.order
  tail := .inl rfl
  answers := balanced.answers

/-- A new page goes into the hands of the one who claims it. -/
theorem claim (balanced : Balanced model place frontier disk past hands tickets) :
    Balanced model place frontier.claim.2 disk past (frontier.claim.1 :: hands) tickets where
  stocks := ⟨balanced.stocks.memory, balanced.stocks.files⟩
  ids := by
    show ((frontier.head + 1) :: _).Perm (List.range' 1 (frontier.head + 1))
    rw [List.range'_concat, Nat.one_mul, Nat.add_comm 1]
    exact (balanced.ids.cons _).trans (List.perm_append_singleton _ _).symm
  fits := by
    intro page member
    rcases List.mem_cons.mp member with rfl | old
    · exact ⟨rfl, by simp [Frontier.claim, Page.empty, Page.size]⟩
    · exact balanced.fits page old
  nonempty := balanced.nonempty
  tickets := balanced.tickets
  order := balanced.order
  tail := balanced.tail
  answers := balanced.answers

/-- Adding a node to a page does not change its number. -/
theorem add {grown : Page σ} {node : Node σ}
    (balanced : Balanced model place frontier disk past (page :: hands) tickets)
    (added : page.add node = .ok grown) :
    Balanced model place frontier disk past (grown :: hands) tickets := by
  obtain ⟨fits, same, -⟩ := (balanced.fits page (by simp)).add added
  refine { balanced with ids := ?_, fits := ?_ }
  · rw [List.map_cons, same]
    exact balanced.ids
  · intro other member
    rcases List.mem_cons.mp member with rfl | old
    · exact fits
    · exact balanced.fits other (List.mem_cons_of_mem _ old)

/-- A page that is enqueued goes from somebody's hands to the stores. -/
theorem enqueue (balanced : Balanced model place frontier disk past (page :: hands) tickets)
    (done : frontier.enqueue model page disk = (.ok (), after, final)) :
    Balanced model place after final (past ++ [.enqueued page]) hands tickets ∧
      disk.Changes (Spill.PageFileIn place) final := by
  obtain ⟨nonempty, ⟨memory, rfl⟩, stocks, changes⟩ :=
    balanced.stocks.enqueue_eq_ok balanced.free done
  have fresh : page.id ∉ answered past :=
    fun answered => balanced.notMem_enqueued (balanced.mem_enqueued_of_answered answered)
  refine ⟨⟨?_, ?_, ?_, ?_, ?_, ?_, ?_, ?_⟩, changes⟩
  · have same : {other | other ∈ waiting (past ++ [.enqueued page])} =
        insert page {other | other ∈ waiting past} := by
      ext other
      simp [waiting_append_enqueued fresh, or_comm]
    exact same ▸ stocks
  · have moved := balanced.ids
    simp only [enqueued_append, enqueued_cons, enqueued_nil, refused_append, refused_cons,
      refused_nil, Event.enqueued?, Event.refused?, Option.toList_some, Option.toList_none,
      List.append_nil, List.map_append, List.map_cons, List.map_nil, List.append_assoc,
      List.cons_append, List.nil_append] at moved ⊢
    rw [← List.append_assoc] at moved ⊢
    exact List.perm_middle.trans moved
  · intro other member
    apply balanced.fits
    simp only [enqueued_append, enqueued_cons, enqueued_nil, Event.enqueued?, Option.toList_some,
      List.append_nil, List.mem_append, List.mem_cons] at member ⊢
    tauto
  · intro other member
    simp only [enqueued_append, enqueued_cons, enqueued_nil, Event.enqueued?, Option.toList_some,
      List.append_nil, List.mem_append, List.mem_singleton] at member
    rcases member with old | rfl
    · exact balanced.nonempty other old
    · simpa [Page.isEmpty, Page.size, Nat.pos_iff_ne_zero] using nonempty
  · simpa using balanced.tickets
  · simpa using balanced.order
  · simpa using balanced.tail
  · intro ticket answer member
    simp only [delivered_append, delivered_cons, delivered_nil, Event.delivered?,
      Option.toList_none, List.append_nil] at member
    obtain ⟨other, old, rest⟩ := balanced.answers ticket answer member
    exact ⟨other, by simp [old], rest⟩

/-- A page that is lost has its number used up all the same. -/
theorem lose {stop : Stop}
    (balanced : Balanced model place frontier disk past (page :: hands) tickets) :
    Balanced model place frontier disk (past ++ [.refused page stop]) hands tickets := by
  have same : waiting (past ++ [.refused page stop]) = waiting past := waiting_append_of_nil rfl rfl
  constructor
  · rw [same]
    exact balanced.stocks
  · have moved := balanced.ids
    simp only [enqueued_append, enqueued_cons, enqueued_nil, refused_append, refused_cons,
      refused_nil, Event.enqueued?, Event.refused?, Option.toList_some, Option.toList_none,
      List.append_nil, List.map_append, List.map_cons, List.map_nil, List.cons_append] at moved ⊢
    rw [← List.append_assoc]
    exact (List.perm_append_singleton _ _).trans moved
  · intro other member
    apply balanced.fits
    simp only [enqueued_append, enqueued_cons, enqueued_nil, Event.enqueued?, Option.toList_none,
      List.append_nil, List.mem_append, List.cons_append, List.mem_cons] at member ⊢
    tauto
  · simpa using balanced.nonempty
  · simpa using balanced.tickets
  · simpa using balanced.order
  · simpa using balanced.tail
  · simpa using balanced.answers

/-- A page that is refused is lost. -/
theorem refuse {stop : Stop}
    (balanced : Balanced model place frontier disk past (page :: hands) tickets)
    (done : frontier.enqueue model page disk = (.error stop, after, final)) :
    Balanced model place after final (past ++ [.refused page stop]) hands tickets ∧
      disk.Changes (Spill.PageFileIn place) final := by
  obtain ⟨rfl, stocks, changes, -⟩ := balanced.stocks.enqueue_eq_error balanced.free done
  exact ⟨lose { balanced with stocks := stocks }, changes⟩

/-- However enqueueing a page turns out, the page leaves somebody's hands. -/
theorem part {result : Except Stop Unit}
    (balanced : Balanced model place frontier disk past (page :: hands) tickets)
    (done : frontier.enqueue model page disk = (result, after, final)) :
    Balanced model place after final (past ++ frontier.enqueueEvents model page disk) hands
        tickets ∧
      disk.Changes (Spill.PageFileIn place) final := by
  cases result with
  | ok _ =>
    simp only [enqueueEvents, done]
    exact balanced.enqueue done
  | error stop =>
    simp only [enqueueEvents, done]
    exact balanced.refuse done

/-- A single node goes to the stores on a page of its own, or is lost with it. -/
theorem enqueueNode {node : Node σ} {result : Except Stop Unit}
    (balanced : Balanced model place frontier disk past hands tickets)
    (done : frontier.enqueueNode model node disk = (result, after, final)) :
    Balanced model place after final (past ++ frontier.enqueueNodeEvents model node disk) hands
        tickets ∧
      disk.Changes (Spill.PageFileIn place) final := by
  have claimed := balanced.claim
  unfold Frontier.enqueueNode at done
  unfold enqueueNodeEvents
  dsimp only at done
  cases added : frontier.claim.1.add node with
  | error fault =>
    simp only [added, Prod.mk.injEq] at done
    obtain ⟨-, rfl, rfl⟩ := done
    exact ⟨claimed.lose, .refl _ _⟩
  | ok page =>
    simp only [added] at done
    exact (claimed.add added).part done

/-- A single node has a place on the page that is claimed for it, so it is refused only because the
page cannot be written. -/
theorem exists_failure_of_enqueueNode {node : Node σ} {stop : Stop}
    (balanced : Balanced model place frontier disk past hands tickets)
    (positive : ∀ id, 0 < frontier.sizing.capacity id)
    (refused : frontier.enqueueNode model node disk = (.error stop, after, final)) :
    ∃ failure, stop = .failure failure := by
  have room : frontier.claim.1.size < frontier.claim.1.capacity := positive _
  have added := (@Page.add_eq_ok_iff _ frontier.claim.1 _ node).mpr ⟨room, rfl⟩
  unfold Frontier.enqueueNode at refused
  simp only [added] at refused
  have claimed := balanced.claim.add added
  rcases (claimed.stocks.enqueue_eq_error claimed.free refused).2.2.2 with empty | failed
  · simp [Page.isEmpty] at empty
  · exact failed

/-- The next ticket goes to the one who was first to take it. -/
theorem draw (balanced : Balanced model place frontier disk past hands tickets)
    (unchanged : frontier.tail = .ticket ticket) :
    Balanced model place { frontier with tail := .ticket (ticket + 1) } disk
      (past ++ [.drawn (ticket + 1)]) hands ((ticket + 1) :: tickets) := by
  have last : ticket = (drawn past).length := by
    simpa [unchanged] using balanced.tail
  have same : waiting (past ++ [.drawn (ticket + 1)]) = waiting past :=
    waiting_append_of_nil rfl rfl
  have drawn : drawn (past ++ [.drawn (ticket + 1)]) =
      drawn past ++ [ticket + 1] := by simp
  constructor
  · rw [same]
    exact ⟨balanced.stocks.memory, balanced.stocks.files⟩
  · simpa using balanced.ids
  · simpa using balanced.fits
  · simpa using balanced.nonempty
  · rw [drawn]
    simp only [answered_append, answered_cons, answered_nil, forgone_append, forgone_cons,
      forgone_nil, Event.delivered?, Event.forgone?, Option.map_none, Option.toList_none,
      List.append_nil, List.cons_append]
    exact (balanced.tickets.cons _).trans (List.perm_append_singleton _ _).symm
  · rw [drawn, List.length_append, List.length_singleton, List.range'_concat, ← balanced.order]
    rw [last, Nat.one_mul, Nat.add_comm 1]
  · rw [drawn, List.length_append, List.length_singleton, ← last]
    exact .inr rfl
  · intro number answer member
    obtain ⟨page, old, rest⟩ := balanced.answers number answer (by simpa using member)
    exact ⟨page, by simpa using old, rest⟩

/-- A ticket whose call ends without a page is forgone. -/
theorem forgo (balanced : Balanced model place frontier disk past hands (ticket :: tickets)) :
    Balanced model place frontier disk (past ++ [.forgone ticket]) hands tickets := by
  have same : waiting (past ++ [.forgone ticket]) = waiting past := waiting_append_of_nil rfl rfl
  constructor
  · rw [same]
    exact balanced.stocks
  · simpa using balanced.ids
  · simpa using balanced.fits
  · simpa using balanced.nonempty
  · have moved := balanced.tickets
    simp only [drawn_append, drawn_cons, drawn_nil, answered_append, answered_cons,
      answered_nil, forgone_append, forgone_cons, forgone_nil, Event.drawn?, Event.delivered?,
      Event.forgone?, Option.map_none, Option.toList_none, Option.toList_some, List.append_nil,
      List.cons_append] at moved ⊢
    rw [← List.append_assoc]
    exact (List.perm_append_singleton _ _).trans moved
  · simpa using balanced.order
  · simpa using balanced.tail
  · simpa using balanced.answers

/-- Looking for a page that does not wait finds nothing. -/
theorem take_none (balanced : Balanced model place frontier disk past hands tickets)
    (taken : frontier.take model ticket disk = (.ok none, after, final)) :
    Balanced model place after final past hands tickets ∧ final = disk ∧
      ∀ page ∈ waiting past, page.id ≠ ticket := by
  cases balanced.stocks.taking taken with
  | misses absent stocks => exact ⟨{ balanced with stocks := stocks }, rfl, absent⟩

/-- A page that is found is the one whose number is on the ticket. -/
theorem take_some {answer : Page σ}
    (balanced : Balanced model place frontier disk past hands (ticket :: tickets))
    (taken : frontier.take model ticket disk = (.ok (some answer), after, final)) :
    Balanced model place after final (past ++ [.delivered ticket answer]) hands tickets ∧
      disk.Changes (Spill.PageFileIn place) final := by
  cases balanced.stocks.taking taken with
  | @finds page _ _ _ member same answers stocks changes =>
    subst same
    refine ⟨⟨?_, ?_, ?_, ?_, ?_, ?_, ?_, ?_⟩, changes⟩
    · simpa [waiting_append_delivered] using stocks
    · simpa using balanced.ids
    · simpa using balanced.fits
    · simpa using balanced.nonempty
    · have moved := balanced.tickets
      simp only [drawn_append, drawn_cons, drawn_nil, answered_append, answered_cons,
        answered_nil, forgone_append, forgone_cons, forgone_nil, Event.drawn?, Event.delivered?,
        Event.forgone?, Option.map_some, Option.toList_none, Option.toList_some, List.append_nil,
        List.append_assoc, List.cons_append, List.nil_append] at moved ⊢
      rw [← List.append_assoc] at moved ⊢
      exact List.perm_middle.trans moved
    · simpa using balanced.order
    · simpa using balanced.tail
    · intro ticket given delivered
      simp only [delivered_append, delivered_cons, delivered_nil, Event.delivered?,
        Option.toList_some, List.append_nil, List.mem_append, List.mem_singleton,
        Prod.mk.injEq] at delivered
      rcases delivered with old | ⟨rfl, rfl⟩
      · obtain ⟨other, enqueued, rest⟩ := balanced.answers ticket given old
        exact ⟨other, by simpa using enqueued, rest⟩
      · exact ⟨page, by simpa using (mem_waiting.mp member).1, rfl, answers⟩

/-- Whatever is found was waiting. -/
theorem take_waiting {answer : Page σ}
    (balanced : Balanced model place frontier disk past hands tickets)
    (taken : frontier.take model ticket disk = (.ok (some answer), after, final)) :
    ∃ page ∈ waiting past, page.id = ticket ∧ frontier.Answers model page answer := by
  cases balanced.stocks.taking taken with
  | finds member same answers => exact ⟨_, member, same, answers⟩

/-- A page that cannot be read stays where it is. -/
theorem take_error {failure : Failure}
    (balanced : Balanced model place frontier disk past hands tickets)
    (taken : frontier.take model ticket disk = (.error failure, after, final)) :
    after = frontier ∧ final = disk ∧ ∃ page ∈ waiting past, page.id = ticket ∧
      frontier.keepsInMemory page.id = false ∧ ∃ reason,
        Page.ofImage model page.id (frontier.sizing.capacity page.id) (page.image model).bytes =
          .error reason := by
  cases balanced.stocks.taking taken with
  | chokes member same spilled broken => exact ⟨rfl, rfl, _, member, same, spilled, _, broken⟩

/-- A page whose states can be restored can be read. -/
theorem exists_node_of_take_error {failure : Failure}
    (balanced : Balanced model place frontier disk past hands tickets)
    (taken : frontier.take model ticket disk = (.error failure, after, final)) :
    ∃ node ∈ nodesOn (waiting past), ¬ model.Restores node.state := by
  obtain ⟨-, -, page, waits, -, spilled, reason, broken⟩ := balanced.take_error taken
  by_contra every
  have restores : ∀ node ∈ page.nodes, model.Restores node.state := by
    intro node member
    by_contra lost
    exact every ⟨node, mem_nodesOn.mpr ⟨page, waits, member⟩, lost⟩
  rw [balanced.ofImage_eq waits spilled restores] at broken
  cases broken

end Balanced

variable (model) in
/-- A frontier that was just opened has nothing on its books, whatever the directory held. -/
theorem establish_eq_ok {settings : Settings}
    (established : Frontier.establish settings disk = (.ok frontier, final)) :
    settings.validate = .ok () ∧ frontier.workers = settings.workerCount ∧
      frontier.sizing = settings.pageSizing ∧ frontier.head = 0 ∧ frontier.tail = .ticket 0 ∧
      ∃ place, Balanced model place frontier final [] [] [] := by
  unfold Frontier.establish at established
  cases valid : settings.validate with
  | error cause => simp [valid] at established
  | ok done =>
    rcases opened : Spill.establish settings.directory disk with ⟨failure | spill, ready⟩
    · simp [valid, opened] at established
    · simp only [valid, opened, Prod.mk.injEq, Except.ok.injEq] at established
      obtain ⟨rfl, rfl⟩ := established
      obtain ⟨-, place, keeps⟩ := Spill.establish_eq_ok model opened
      refine ⟨rfl, rfl, rfl, rfl, rfl, place, ⟨?_, ?_, ?_, ?_, ?_, ?_, ?_, ?_⟩⟩
      · exact ⟨by simp [Memory.empty], by simpa using keeps⟩
      · simp
      · simp
      · simp
      · simp
      · simp
      · exact .inr rfl
      · simp

end Frontier

/-! ## One access -/

namespace Wait

variable {model : Model σ} {place : Location} {frontier : Frontier σ} {disk : Disk}
  {past events : History σ} {hands : List (Page σ)} {tickets : List Nat}
  {held : Option (Page σ)} {wait : Wait σ} {after : Accessed σ}

/-- An access moves at most one page and one ticket from account to account. -/
theorem Turn.balanced (turn : Turn model held frontier disk wait after events)
    (balanced : frontier.Balanced model place disk past (held.toList ++ wait.pages ++ hands)
      (wait.ticket?.toList ++ tickets)) :
    after.frontier.Balanced model place after.disk (past ++ events)
        (after.held.toList ++ after.progress.pages ++ hands)
        (after.progress.ticket?.toList ++ tickets) ∧
      disk.Changes (Spill.PageFileIn place) after.disk := by
  cases turn with
  | closed | reads | outrun | rereads | retries | exhausts =>
    rw [List.append_nil]
    exact ⟨balanced, .refl _ _⟩
  | draws unchanged => exact ⟨balanced.draw unchanged, .refl _ _⟩
  | misses taken =>
    obtain ⟨kept, rfl, -⟩ := balanced.take_none taken
    rw [List.append_nil]
    exact ⟨kept, .refl _ _⟩
  | receives taken =>
    exact balanced.take_some taken
  | chokes taken =>
    obtain ⟨rfl, rfl, -⟩ := balanced.take_error taken
    exact ⟨balanced.forgo, .refl _ _⟩
  | ends | breaks => exact ⟨balanced.forgo, .refl _ _⟩
  | yields holding =>
    subst holding
    rw [List.append_nil]
    exact ⟨balanced, .refl _ _⟩
  | latches => exact ⟨balanced.finish.forgo, .refl _ _⟩
  | donates enqueued =>
    obtain ⟨moved, changes⟩ := balanced.front.enqueue enqueued
    exact ⟨by simpa using moved, changes⟩
  | refuses enqueued =>
    obtain ⟨moved, changes⟩ := balanced.front.refuse enqueued
    exact ⟨by simpa using moved.forgo, changes⟩

end Wait

end Wavefront
