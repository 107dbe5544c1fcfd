/-
# No node is lost, and none is made twice

Every node that was recorded is in exactly one place: it was expanded, a worker has it, it
lies on a page that waits, or it was on a page that was refused. The nodes are counted as
often as they occur, so a node that went two ways would show. What a worker has goes down
by what it expands and gives away, and up by what it records and receives; and the
stores give back the very nodes they were given, if they give back anything.
-/

import Mathlib.Data.List.Perm.Basic
import Wavefront.Proofs.Pool.Books

namespace Wavefront

open History

variable {σ : Type}

/-! ## Pages -/

namespace History

variable {past events : History σ} {page : Page σ}

/-- The pages with one number, in a list without repeated numbers, are one page. -/
theorem perm_cons_filter {pages : List (Page σ)} (distinct : (pages.map Page.id).Nodup)
    (member : page ∈ pages) : pages.Perm (page :: pages.filter (·.id ≠ page.id)) := by
  induction pages with
  | nil => cases member
  | cons first rest ih =>
    rw [List.map_cons, List.nodup_cons] at distinct
    rcases List.mem_cons.mp member with rfl | later
    · have others : rest.filter (·.id ≠ page.id) = rest := by
        apply List.filter_eq_self.mpr
        intro other among
        have apart : other.id ≠ page.id := fun same =>
          distinct.1 (List.mem_map.mpr ⟨other, among, same⟩)
        simpa using apart
      rw [List.filter_cons_of_neg (by simp), others]
    · have apart : first.id ≠ page.id := fun same =>
        distinct.1 (List.mem_map.mpr ⟨page, later, same.symm⟩)
      rw [List.filter_cons_of_pos (by simpa using apart)]
      exact ((ih distinct.2 later).cons first).trans (List.Perm.swap _ _ _)

end History

/-! ## Workers -/

namespace Worker

variable {model : Model σ} {place : Location} {worker next : Worker σ} {shared after : Shared σ}
  {past events : History σ} {hands : List (Page σ)} {tickets : List Nat} {page : Page σ}
  {node child : Node σ} {rest : List σ}

/-- A worker's pages hold something, and the page that it keeps has room. -/
structure Provided (worker : Worker σ) : Prop where
  filled : ∀ page ∈ worker.pages, 0 < page.size
  room : ∀ page, worker.held = some page → page.isFull = false

/-- A page with room takes the node that is put on it. -/
theorem Stowed.provided (stowed : Stowed worker page node child rest next)
    (empty : worker.held = none) (room : page.size < page.capacity) :
    next.Provided ∧ (nodesOn next.pages).Perm (child :: page.nodes.toList) ∧
      next.backlog = worker.backlog ∧ next.stage.nodes = [] := by
  have put {grown : Page σ} (added : page.add child = .ok grown) :
      0 < grown.size ∧ (nodesOn [grown]).Perm (child :: page.nodes.toList) := by
    obtain ⟨-, rfl⟩ := Page.add_eq_ok_iff.mp added
    refine ⟨by simp [Page.size], ?_⟩
    simp
  cases stowed with
  | bursts full => simp [Page.add, room] at full
  | @fills grown added full =>
    have same : ({ worker with stage := .publishing node grown rest } : Worker σ).pages =
      [grown] := by
      simp [pages, empty]
    refine ⟨⟨?_, by simp [empty]⟩, ?_, rfl, rfl⟩
    · simpa [same] using (put added).1
    · rw [same]
      exact (put added).2
  | holds added less =>
    refine ⟨⟨?_, ?_⟩, (put added).2, rfl, rfl⟩
    · simpa [pages] using (put added).1
    · simpa using less

/-- A page that a worker keeps takes another node. -/
theorem Provided.lt_capacity {sizing : PageSizing} (provided : worker.Provided)
    (holding : worker.held = some page) (fits : page.Fits sizing) : page.size < page.capacity := by
  have room := provided.room page holding
  have size := fits.size
  simp only [Page.isFull, beq_eq_false_iff_ne] at room
  omega

/-- What a worker has that waits, and what it has after an access of its call. -/
theorem Turn.provided (turn : Turn model worker shared next after events)
    (provided : worker.Provided) (orderly : worker.Orderly)
    (fits : ∀ page ∈ worker.pages, page.Fits shared.frontier.sizing)
    (positive : ∀ id, 0 < shared.frontier.sizing.capacity id) : next.Provided := by
  have same (pages : next.pages ⊆ worker.pages)
      (held : next.held = worker.held ∨ next.held = none) :
      next.Provided := by
    refine ⟨fun page member => provided.filled page (pages member), fun page holding => ?_⟩
    rcases held with kept | gone
    · exact provided.room page (kept ▸ holding)
    · rw [gone] at holding
      cases holding
  cases turn with
  | rests => exact provided
  | heeds stage | idles stage | picks stage | overflows stage | expands stage | concludes stage
    | meets stage | skips stage | sinks stage | publishes stage | flushes stage | reports stage
    | latches stage | unwinds stage => exact same (by simp [pages, stage]) (.inl rfl)
  | @fails _ stop stage | @strands _ _ _ stop _ _ stage =>
    cases stop <;> exact same (by simp [pages, stage, Stage.ending]) (.inl rfl)
  | accesses stage turn =>
    cases turn with
    | closed | reads | draws | outrun | misses | receives | chokes | rereads | ends | exhausts
      | breaks | retries | latches | donates =>
      exact same (by simp [pages, stage, proceed, receive, Stage.ending]) (.inl rfl)
    | @refuses _ _ stop =>
      cases stop <;> exact same (by simp [pages, stage, proceed, Stage.ending]) (.inl rfl)
    | yields holding =>
      exact same (by simp [pages, stage, proceed, holding]) (.inr rfl)
  | records stage room placed =>
    cases placed with
    | keeps => exact same (by simp [pages, noting]) (.inl rfl)
    | seeks empty => exact same (by simp [pages, noting]) (.inl rfl)
    | stows holding stowed =>
      have holds : worker.held = some _ := holding
      exact (stowed.provided rfl (provided.lt_capacity holds (fits _ (by simp [pages, holds])))).1
  | claims stage stowed =>
    exact (stowed.provided (orderly.claiming stage) (positive _)).1

/-- The nodes of a worker grow by what is recorded and received, and shrink by what is expanded,
left to wait or refused. -/
theorem Turn.nodes_perm (turn : Turn model worker shared next after events)
    (provided : worker.Provided) (orderly : worker.Orderly)
    (fits : ∀ page ∈ worker.pages, page.Fits shared.frontier.sizing)
    (positive : ∀ id, 0 < shared.frontier.sizing.capacity id) :
    ∃ fresh, after.expanded = fresh ++ shared.expanded ∧
      (nodesOn ((delivered events).map (·.2)) ++ History.nodes events ++ worker.nodes).Perm
        (fresh ++ next.nodes ++ nodesOn (enqueued events) ++ nodesOn (refused events)) := by
  classical
  have unchanged (same : next.nodes = worker.nodes) :
      worker.nodes.Perm (next.nodes ++ [] ++ []) := by
    simp [same]
  cases turn with
  | rests => exact ⟨[], rfl, unchanged rfl⟩
  | heeds stage | idles stage | concludes stage | meets stage | skips stage | sinks stage
    | flushes stage | reports stage | latches stage | unwinds stage =>
    exact ⟨[], rfl, unchanged (by simp [nodes, pages, stage])⟩
  | picks stage taken =>
    refine ⟨[], rfl, List.perm_iff_count.mpr fun x => ?_⟩
    simp [nodes, pages, stage, taken, List.count_cons]
    omega
  | @fails _ stop stage =>
    refine ⟨[_], rfl, List.perm_iff_count.mpr fun x => ?_⟩
    cases stop <;> simp [nodes, pages, stage, List.count_cons, Stage.ending] <;> omega
  | overflows stage | expands stage =>
    refine ⟨[_], rfl, List.perm_iff_count.mpr fun x => ?_⟩
    simp [nodes, pages, stage, List.count_cons]
    omega
  | accesses stage turn =>
    refine ⟨[], rfl, List.perm_iff_count.mpr fun x => ?_⟩
    cases turn with
    | closed | reads | draws | outrun | misses | chokes | rereads | ends | exhausts | breaks
      | retries | latches => simp [nodes, pages, stage, proceed, Stage.ending]
    | yields holding => simp [nodes, pages, stage, proceed, holding]
    | receives =>
      simp [nodes, pages, stage, proceed, receive]
      omega
    | donates => simp [nodes, pages, stage, proceed]
    | @refuses _ _ stop =>
      cases stop <;> simp [nodes, pages, stage, proceed, Stage.ending]
  | records stage room placed =>
    refine ⟨[], rfl, List.perm_iff_count.mpr fun x => ?_⟩
    cases placed with
    | keeps | seeks empty =>
      simp [nodes, pages, noting, stage, List.count_cons]
      omega
    | stows holding stowed =>
      have holds : worker.held = some _ := holding
      obtain ⟨-, moved, backlog, done⟩ := stowed.provided rfl
        (provided.lt_capacity holds (fits _ (by simp [pages, holds])))
      have has : next.nodes = worker.backlog.toList ++ nodesOn next.pages := by
        rw [nodes, backlog, done, List.append_nil]
        rfl
      have counted := List.perm_iff_count.mp moved x
      rw [has]
      generalize nodesOn next.pages = carried at counted ⊢
      simp [nodes, pages, stage, holds, List.count_cons] at counted ⊢
      omega
  | claims stage stowed =>
    have empty := orderly.claiming stage
    obtain ⟨-, moved, backlog, done⟩ := stowed.provided empty (positive _)
    have has : next.nodes = worker.backlog.toList ++ nodesOn next.pages := by
      rw [nodes, backlog, done, List.append_nil]
    refine ⟨[], rfl, List.perm_iff_count.mpr fun x => ?_⟩
    have counted := List.perm_iff_count.mp moved x
    rw [has]
    generalize nodesOn next.pages = carried at counted ⊢
    simp [nodes, pages, stage, empty, List.count_cons, Frontier.claim, Page.empty] at counted ⊢
    omega
  | publishes stage =>
    refine ⟨[], rfl, List.perm_iff_count.mpr fun x => ?_⟩
    simp [nodes, pages, stage]
  | @strands _ _ _ stop _ _ stage =>
    refine ⟨[], rfl, List.perm_iff_count.mpr fun x => ?_⟩
    cases stop <;> simp [nodes, pages, stage, Stage.ending]

/-- What waits changes by the pages that are enqueued and delivered, and a page is delivered with
the nodes that it was enqueued with. -/
theorem Turn.waiting_perm (turn : Turn model worker shared next after events)
    (books : shared.frontier.Balanced model place shared.disk past (worker.pages ++ hands)
      (worker.tickets ++ tickets))
    (faithful : ∀ node ∈ nodesOn (waiting past), model.Faithful node.state) :
    (nodesOn (waiting past) ++ nodesOn (enqueued events)).Perm
      (nodesOn ((delivered events).map (·.2)) ++ nodesOn (waiting (past ++ events))) := by
  have quiet (noneEnqueued : enqueued events = []) (noneDelivered : delivered events = []) :
      (nodesOn (waiting past) ++ nodesOn (enqueued events)).Perm
        (nodesOn ((delivered events).map (·.2)) ++ nodesOn (waiting (past ++ events))) := by
    rw [waiting_append_of_nil noneEnqueued (by rw [answered, noneDelivered]; rfl)]
    simp [noneEnqueued, noneDelivered]
  have enqueues {page : Page σ} (mine : page ∈ worker.pages) :
      (nodesOn (waiting past) ++ nodesOn (enqueued [.enqueued page])).Perm
        (nodesOn ((delivered [.enqueued page]).map (·.2)) ++
          nodesOn (waiting (past ++ [.enqueued page]))) := by
    have fresh := books.notMem_answered (List.mem_append_left _ mine)
    rw [waiting_append_enqueued fresh]
    simp
  cases turn with
  | rests | heeds | idles | picks | fails | overflows | expands | concludes | meets | skips | sinks
    | records | claims | strands | flushes | reports | latches | unwinds => exact quiet rfl rfl
  | publishes stage => exact enqueues (by simp [pages, stage])
  | accesses stage turn =>
    cases turn with
    | closed | reads | draws | outrun | misses | chokes | rereads | ends | exhausts | breaks
      | retries | yields | latches | refuses => exact quiet rfl rfl
    | donates => exact enqueues (by simp [pages, stage])
    | receives taken =>
      obtain ⟨page, waits, rfl, answers⟩ := books.take_waiting taken
      obtain rfl := books.eq_of_waiting waits
        (fun node member => faithful node (mem_nodesOn.mpr ⟨page, waits, member⟩)) answers
      have distinct : ((waiting past).map Page.id).Nodup :=
        (List.filter_sublist.map _).nodup books.nodup_enqueued
      rw [waiting_append_delivered]
      simpa using nodesOn_perm (perm_cons_filter distinct waits)

/-- A page that holds something is refused only because it cannot be written to a file. -/
theorem Turn.causes (turn : Turn model worker shared next after events)
    (books : shared.frontier.Balanced model place shared.disk past (worker.pages ++ hands)
      (worker.tickets ++ tickets))
    (provided : worker.Provided) :
    ∀ stop ∈ History.causes events, ∃ failure, stop = .failure failure := by
  have refuses {page : Page σ} {stop : Stop} {frontier : Frontier σ} {disk : Disk}
      (stage : worker.stage.pages = [page])
      (enqueued : shared.frontier.enqueue model page shared.disk = (.error stop, frontier, disk)) :
      ∃ failure, stop = .failure failure := by
    have mine : worker.pages = worker.held.toList ++ [page] := by rw [pages, stage]
    have some := provided.filled page (by simp [mine])
    rw [mine] at books
    rcases (books.stocks.enqueue_eq_error books.front.free enqueued).2.2.2 with empty | failed
    · have none : page.size = 0 := by simpa [Page.isEmpty, Page.size] using empty
      omega
    · exact failed
  intro stop member
  cases turn with
  | rests | heeds | idles | picks | fails | overflows | expands | concludes | meets | skips | sinks
    | records | claims | publishes | flushes | reports | latches | unwinds => cases member
  | strands stage enqueued =>
    rw [List.mem_singleton.mp member]
    exact refuses (by rw [stage]; rfl) enqueued
  | accesses stage turn =>
    cases turn with
    | closed | reads | draws | outrun | misses | receives | chokes | rereads | ends | exhausts
      | breaks | retries | yields | latches | donates => cases member
    | refuses enqueued =>
      rw [List.mem_singleton.mp member]
      exact refuses (by rw [stage]; rfl) enqueued

end Worker

/-! ## Pools -/

namespace Pool

variable {model : Model σ} {place : Location} {past events : History σ} {pool : Pool σ}
  {position : Nat} {worker next : Worker σ} {shared : Shared σ}

/-- Every node that was recorded is accounted for, the pages that workers have are in order, and
pages were refused only because they could not be written to files. -/
structure Conserved (past : History σ) (pool : Pool σ) : Prop where
  positive : ∀ id, 0 < pool.shared.frontier.sizing.capacity id
  provided : ∀ worker ∈ pool.workers, worker.Provided
  nodes : (History.nodes past).Perm
    (pool.shared.expanded ++ pool.workers.flatMap Worker.nodes ++ nodesOn (waiting past) ++
      nodesOn (refused past))
  causes : ∀ stop ∈ History.causes past, ∃ failure, stop = .failure failure

/-- Only nodes that were recorded are expanded. -/
theorem Conserved.expanded_subset (conserved : Conserved past pool) :
    pool.shared.expanded ⊆ History.nodes past := by
  intro node member
  exact conserved.nodes.mem_iff.mpr (by simp [member])

/-- Workers have only nodes that were recorded. -/
theorem Conserved.nodes_subset (conserved : Conserved past pool) (member : worker ∈ pool.workers) :
    worker.nodes ⊆ History.nodes past := by
  intro node has
  have among : node ∈ pool.workers.flatMap Worker.nodes := List.mem_flatMap.mpr ⟨_, member, has⟩
  exact conserved.nodes.mem_iff.mpr (by simp [among])

/-- Unless a file could not be written, no page was refused. -/
theorem Conserved.refused_eq_nil (conserved : Conserved past pool)
    (written : ∀ failure, .failure failure ∉ History.causes past) : History.refused past = [] := by
  apply List.length_eq_zero_iff.mp
  rw [← length_causes, List.length_eq_zero_iff]
  apply List.eq_nil_iff_forall_not_mem.mpr
  intro stop member
  obtain ⟨failure, rfl⟩ := conserved.causes stop member
  exact written failure member

/-- Only nodes that were recorded wait. -/
theorem Conserved.waiting_subset (conserved : Conserved past pool) :
    nodesOn (waiting past) ⊆ History.nodes past := by
  intro node member
  exact conserved.nodes.mem_iff.mpr (by simp [member])

/-- Nodes are conserved if those of one worker, those that wait and those that were expanded are. -/
theorem Conserved.set {fresh : List (Node σ)} (conserved : Conserved past pool)
    (found : pool.workers[position]? = some worker)
    (sizing : shared.frontier.sizing = pool.shared.frontier.sizing) (provided : next.Provided)
    (grown : shared.expanded = fresh ++ pool.shared.expanded)
    (moved : (nodesOn ((delivered events).map (·.2)) ++ History.nodes events ++ worker.nodes).Perm
      (fresh ++ next.nodes ++ nodesOn (enqueued events) ++ nodesOn (refused events)))
    (waits : (nodesOn (waiting past) ++ nodesOn (enqueued events)).Perm
      (nodesOn ((delivered events).map (·.2)) ++ nodesOn (waiting (past ++ events))))
    (causes : ∀ stop ∈ History.causes events, ∃ failure, stop = .failure failure) :
    Conserved (past ++ events) ⟨pool.workers.set position next, shared⟩ := by
  refine ⟨?_, forall_mem_set conserved.provided provided, ?_, fun stop there => ?_⟩
  · rw [sizing]
    exact conserved.positive
  · have before := flatMap_perm_others Worker.nodes found
    have now := @flatMap_set_perm_others _ _ _ _ _ next Worker.nodes found
    have all := conserved.nodes
    classical
    rw [List.perm_iff_count] at moved waits before now all ⊢
    intro node
    have counts := moved node
    have waiters := waits node
    have earlier := before node
    have later := now node
    have total := all node
    simp only [nodes_append, grown, refused_append, nodesOn_append, List.count_append] at *
    omega
  · rw [causes_append] at there
    rcases List.mem_append.mp there with old | new
    · exact conserved.causes stop old
    · exact causes stop new

/-- A step loses no node and makes none twice, as long as nothing else than the nodes recorded so
far is read back for them. -/
theorem Conserved.step (found : pool.workers[position]? = some worker)
    (turn : worker.Turn model pool.shared next shared events) (sound : Sound model place past pool)
    (faithful : ∀ node ∈ History.nodes past, model.Faithful node.state)
    (conserved : Conserved past pool) :
    Conserved (past ++ events) ⟨pool.workers.set position next, shared⟩ := by
  have member := List.mem_of_getElem? found
  have provided := conserved.provided worker member
  have orderly := sound.orderly worker member
  have books := sound.split found
  have fits : ∀ page ∈ worker.pages, page.Fits pool.shared.frontier.sizing := fun page mine =>
    books.fits page (by simp [mine])
  obtain ⟨_, _, _, same, -⟩ := turn.frontier_eq
  obtain ⟨fresh, grown, moved⟩ := turn.nodes_perm provided orderly fits conserved.positive
  exact conserved.set found (by rw [same]) (turn.provided provided orderly fits conserved.positive)
    grown moved
    (turn.waiting_perm books fun node waiting => faithful node (conserved.waiting_subset waiting))
    (turn.causes books provided)

end Pool

end Wavefront
