/-
# When every page is accepted

A page that is to be written can be refused for three reasons only: it is too large, one of its
states refuses to be encoded, or the path of its temporary file is too long. So no page is
refused in a run whose states can all be restored, whose pages are of a capacity that can be
written down, and whose directory has a path that leaves room for the names of page files.

How long are these names? A page is claimed for a state that was met for the first time, so the
numbers of pages do not exceed the number of fingerprints met. That is what `Pool.Backed` says:
whoever has met a state and may yet claim a page for it counts as well.
-/

import Wavefront.Proofs.Exploration.Tracing
import Wavefront.Proofs.Pool.Coverage
import Wavefront.Proofs.Store.Refinement

namespace Wavefront

open History

variable {σ : Type}

/-! ## As many pages as states -/

/-- There are no more fingerprints than words of eight bytes. -/
theorem Seen.size_le (seen : Seen) : seen.size ≤ 2 ^ 64 := by
  obtain ⟨prints, lists⟩ := seen.exists_lists
  have distinct : (prints.map UInt64.toNat).Nodup :=
    lists.nodup.map fun _ _ => UInt64.toNat_inj.mp
  have within : prints.map UInt64.toNat ⊆ List.range (2 ^ 64) := by
    intro word member
    obtain ⟨print, -, rfl⟩ := List.mem_map.mp member
    exact List.mem_range.mpr print.toNat_lt
  have few := (distinct.subperm within).length_le
  rwa [List.length_map, List.length_range, ← lists.size] at few

/-- The number of pages that a worker may yet claim for a state that it has met. -/
def Stage.pending : Stage σ → Nat
  | recording .. | claiming .. => 1
  | _ => 0

theorem Stage.pending_ending (node : Option (Node σ)) (stop : Stop) :
    (ending node stop).pending = 0 := by
  cases stop <;> rfl

namespace Worker

variable {model : Model σ} {worker next : Worker σ} {shared after : Shared σ} {events : History σ}

theorem Stowed.pending_eq {page : Page σ} {node child : Node σ} {rest : List σ}
    (stowed : Stowed worker page node child rest next) : next.stage.pending = 0 := by
  cases stowed <;> rfl

theorem Placed.pending_le {node child : Node σ} {rest : List σ}
    (placed : Placed worker node child rest next) : next.stage.pending ≤ 1 := by
  cases placed with
  | keeps => exact Nat.zero_le 1
  | seeks => exact Nat.le_refl 1
  | stows holding stowed => exact stowed.pending_eq ▸ Nat.zero_le 1

/-- A page is claimed only for a state that was met before. -/
theorem Turn.head_le (turn : Turn model worker shared next after events) :
    after.frontier.head + next.stage.pending + shared.seen.size ≤
      shared.frontier.head + worker.stage.pending + after.seen.size := by
  have quiet (frontier : after.frontier.head = shared.frontier.head)
      (idle : next.stage.pending = 0) (seen : after.seen = shared.seen) :
      after.frontier.head + next.stage.pending + shared.seen.size ≤
        shared.frontier.head + worker.stage.pending + after.seen.size := by
    rw [frontier, idle, seen]
    omega
  cases turn with
  | rests => exact Nat.le_refl _
  | heeds | idles | picks | overflows | expands | concludes | sinks | flushes | reports | latches
    | unwinds => exact quiet rfl rfl rfl
  | fails => exact quiet rfl (Stage.pending_ending _ _) rfl
  | @accesses wait accessed _ stage turn =>
    obtain ⟨memory, tail, same, -⟩ := turn.frontier_eq
    refine quiet (by rw [same]) ?_ rfl
    rcases accessed with ⟨progress, held, frontier, disk⟩
    cases progress with
    | waiting | delivered | finished => rfl
    | stopped stop => exact Stage.pending_ending _ _
  | @meets _ state _ stage new =>
    have more : (shared.seen.insert (model.fingerprint state)).size = shared.seen.size + 1 := by
      simp [Seen.size_insert, new]
    simp only [Stage.pending, stage, more]
    omega
  | @skips _ state _ stage known =>
    have same : (shared.seen.insert (model.fingerprint state)).size = shared.seen.size := by
      simp [Seen.size_insert, known]
    simp only [Stage.pending, stage, same]
    exact Nat.le_refl _
  | records stage room placed =>
    have one := placed.pending_le
    have here : worker.stage.pending = 1 := by rw [stage, Stage.pending]
    omega
  | claims stage stowed =>
    have here : worker.stage.pending = 1 := by rw [stage, Stage.pending]
    have idle := stowed.pending_eq
    simp only [Frontier.claim]
    omega
  | publishes stage enqueued =>
    obtain ⟨memory, rfl⟩ := Frontier.eq_of_enqueue enqueued
    exact quiet rfl rfl rfl
  | strands stage enqueued =>
    obtain ⟨memory, rfl⟩ := Frontier.eq_of_enqueue enqueued
    exact quiet rfl (Stage.pending_ending _ _) rfl

/-- A worker whose page is accepted is refused none. -/
theorem Turn.refused_eq_nil (turn : Turn model worker shared next after events)
    (accepted : ∀ page ∈ worker.stage.pages, ∃ frontier disk,
      shared.frontier.enqueue model page shared.disk = (.ok (), frontier, disk)) :
    refused events = [] := by
  have accepts {page : Page σ} {stop : Stop} {frontier : Frontier σ} {disk : Disk}
      (pages : worker.stage.pages = [page]) :
      shared.frontier.enqueue model page shared.disk ≠ (.error stop, frontier, disk) := by
    intro enqueued
    obtain ⟨frontier', disk', done⟩ := accepted page (pages ▸ List.mem_singleton_self page)
    cases enqueued.symm.trans done
  cases turn with
  | rests | heeds | idles | picks | fails | overflows | expands | concludes | meets | skips | sinks
    | records | claims | publishes | flushes | reports | latches | unwinds => rfl
  | strands stage enqueued => exact absurd enqueued (accepts (by rw [stage]; rfl))
  | accesses stage turn =>
    cases turn with
    | closed | reads | draws | outrun | misses | receives | chokes | rereads | ends | exhausts
      | breaks | retries | yields | latches | donates => rfl
    | refuses enqueued => exact absurd enqueued (accepts (by rw [stage]; rfl))

end Worker

namespace Pool

variable {model : Model σ} {initial : List σ} {place : Location} {past events : History σ}
  {pool : Pool σ} {position : Nat} {worker next : Worker σ} {shared : Shared σ}

/-- Every page that was or may yet be claimed is backed by a fingerprint that was met. -/
def Backed (pool : Pool σ) : Prop :=
  pool.shared.frontier.head + (pool.workers.map (·.stage.pending)).sum ≤ pool.shared.seen.size

theorem Backed.step (found : pool.workers[position]? = some worker)
    (turn : worker.Turn model pool.shared next shared events) (backed : pool.Backed) :
    Backed ⟨pool.workers.set position next, shared⟩ := by
  have claimed := turn.head_le
  rw [Backed, sum_map_others _ found] at backed
  show shared.frontier.head + _ ≤ shared.seen.size
  rw [sum_map_set_others _ found]
  omega

theorem Backed.head_le (backed : pool.Backed) : pool.shared.frontier.head ≤ 2 ^ 64 :=
  (Nat.le_add_right _ _).trans (backed.trans pool.shared.seen.size_le)

/-! ## Pages that are accepted -/

/-- The page that a worker gives away is accepted. -/
theorem Consistent.exists_enqueue_eq_ok {page : Page σ}
    (consistent : Consistent model initial place past pool)
    (restores : ∀ state, model.Reachable initial state → model.Restores state)
    (small : ∀ id, pool.shared.frontier.sizing.capacity id < Page.countLimit)
    (short : (pool.shared.frontier.spill.directory.child "").byteSize + 27 ≤
      pool.shared.disk.pathLimit)
    (few : pool.shared.frontier.head ≤ 2 ^ 64)
    (member : worker ∈ pool.workers) (gives : page ∈ worker.stage.pages) :
    ∃ frontier disk, pool.shared.frontier.enqueue model page pool.shared.disk =
      (.ok (), frontier, disk) := by
  have books := consistent.sound.books
  have mine : page ∈ worker.pages := List.mem_append_right _ gives
  have carried : page ∈ pool.hands := List.mem_flatMap.mpr ⟨worker, member, mine⟩
  have filled := (consistent.conserved.provided worker member).filled page mine
  obtain ⟨first, last, split⟩ := List.append_of_mem carried
  have free := (books.perm (split ▸ List.perm_middle).symm (.refl _)).free
  refine books.stocks.exists_enqueue_eq_ok free filled fun spilled => ?_
  have fits := books.fits page (List.mem_append_left _ carried)
  have size : page.size < Page.countLimit :=
    Nat.lt_of_le_of_lt (fits.capacity ▸ fits.size) (small page.id)
  have accepted : (page.image model).refusal = none := by
    apply Page.refusal_image
    intro node among
    have has : node ∈ worker.nodes :=
      List.mem_append_right _ (mem_nodesOn.mpr ⟨page, mine, among⟩)
    exact restores _ (consistent.reachable node (consistent.conserved.nodes_subset member has))
  have numbered : page.id ≤ 2 ^ 64 := by
    have claimed := books.ids.mem_iff.mp (List.mem_append_left _
      (List.mem_append_left _ (List.mem_map_of_mem carried)))
    have last := (List.mem_range'_1.mp claimed).2
    rw [Nat.add_comm] at last
    exact (Nat.le_of_lt_succ last).trans few
  have path : (pool.shared.frontier.spill.directory.child
      (Page.temporaryName page.id)).byteSize ≤ pool.shared.disk.pathLimit := by
    have name := Page.utf8ByteSize_temporaryName_le numbered
    rw [Path.byteSize_child]
    omega
  obtain ⟨after, written⟩ := books.stocks.files.exists_write_eq_ok
    (fun other filed => free other filed.1) numbered path size accepted
  exact ⟨_, after, written⟩

end Pool

namespace Exploration.Course

variable {model : Model σ} {initial : List σ} {seen : Seen}

theorem backed (course : Course model initial seen) (schedule : List Nat) :
    (course.pool schedule).Backed := by
  obtain ⟨done, -, launched⟩ := @launch_induction _ _ _ _ course (fun _ _ pool => pool.Backed)
    (fun {place pool} ready hires => by
      have idle : (pool.workers.map (·.stage.pending)).sum = 0 := by
        apply List.sum_eq_zero
        intro count member
        obtain ⟨worker, among, rfl⟩ := List.mem_map.mp member
        rw [(ready.fresh worker among).stage]
        rfl
      rw [Pool.Backed, hires.head, idle]
      exact Nat.zero_le _)
    (fun {done rest past state worker next others shared after events} _ seeding backed => by
      unfold Pool.Backed at backed ⊢
      simp only [List.map_cons, List.sum_cons] at backed ⊢
      cases seeding with
      | knows known => simpa [Seen.size_insert, known] using backed
      | plants new added enqueued =>
        obtain ⟨memory, rfl⟩ := Frontier.eq_of_enqueue enqueued
        simp only [Frontier.claim, Seen.size_insert, new]
        simp only [Bool.false_eq_true, if_false]
        omega)
  exact @Pool.follow_induction _ model (fun _ pool => pool.Backed)
    (fun found turn backed => backed.step found turn) course.opening course.launch.pool launched
    schedule

/-- No step changes how long a path may be. -/
theorem pathLimit_eq (course : Course model initial seen) (schedule : List Nat) :
    (course.pool schedule).shared.disk.pathLimit =
      course.launch.pool.shared.disk.pathLimit := by
  obtain ⟨place, done, -, ready⟩ := course.exists_ready
  have kept := @Pool.follow_induction _ model
    (fun past pool => pool.Sound model place past ∧
      pool.shared.disk.pathLimit = course.launch.pool.shared.disk.pathLimit)
    (fun {past pool position worker next shared events} found turn before => by
      refine ⟨before.1.step found turn, Eq.trans ?_ before.2⟩
      have logging := turn.logging (before.1.split found)
      generalize shared.disk = after, next.log = log, recorded events = news at logging
      cases logging with
      | leaves changes => exact changes.pathLimit
      | appends => rfl
      | flushes => exact (worker.log.changes_flush pool.shared.disk).pathLimit)
    course.opening course.launch.pool ⟨ready.coherent.sound, rfl⟩ schedule
  exact kept.2

/-- A run whose pages are of a capacity that can be written down, and whose directory has a path
that leaves room for the names of page files. -/
structure Roomy (course : Course model initial seen) : Prop where
  small : ∀ capacity, course.settings.pageSizing = .fixed capacity → capacity < Page.countLimit
  short : (course.launch.runDirectory.child "").byteSize + 27 ≤
    course.launch.pool.shared.disk.pathLimit

theorem Roomy.capacity_lt {course : Course model initial seen} (roomy : course.Roomy) (id : Nat) :
    course.settings.pageSizing.capacity id < Page.countLimit := by
  have small := roomy.small
  cases sizing : course.settings.pageSizing with
  | fixed capacity => exact small capacity sizing
  | stepped =>
    show PageSizing.steppedCapacity id < Page.countLimit
    unfold PageSizing.steppedCapacity
    split_ifs <;> decide

/-- Pages of one capacity that can be written down. -/
theorem roomy_of_fixed {course : Course model initial seen} {capacity : Nat}
    (fixed : course.settings.pageSizing = .fixed capacity) (small : capacity < Page.countLimit)
    (short : (course.launch.runDirectory.child "").byteSize + 27 ≤
      course.launch.pool.shared.disk.pathLimit) : course.Roomy :=
  ⟨fun _ same => PageSizing.fixed.inj (fixed.symm.trans same) ▸ small, short⟩

theorem roomy_of_stepped {course : Course model initial seen}
    (stepped : course.settings.pageSizing = .stepped)
    (short : (course.launch.runDirectory.child "").byteSize + 27 ≤
      course.launch.pool.shared.disk.pathLimit) : course.Roomy :=
  ⟨fun _ same => (nomatch stepped.symm.trans same), short⟩

/-- No page is refused, whatever the order of steps, if all reachable states are restored from what
is written of them and there is room for the pages. -/
theorem refused_eq_nil (course : Course model initial seen) (roomy : course.Roomy)
    (restores : ∀ state, model.Reachable initial state → model.Restores state)
    (schedule : List Nat) : refused (course.history schedule) = [] := by
  induction schedule using List.reverseRecOn with
  | nil =>
    obtain ⟨place, done, -, ready⟩ := course.exists_ready
    rw [history, Pool.events, List.append_nil]
    exact ready.quiet.2.2
  | append_singleton schedule position ih =>
    rw [history_append, refused_append, ih, List.nil_append, Pool.events, Pool.events,
      List.append_nil]
    rcases found : (course.pool schedule).workers[position]? with _ | worker
    · simp [Pool.eventsAt, found]
    · simp only [Pool.eventsAt, found]
      obtain ⟨place, coherent, -⟩ := course.exists_accounted restores schedule
      have small (id : Nat) :
          (course.pool schedule).shared.frontier.sizing.capacity id < Page.countLimit := by
        rw [(course.follows schedule).sizing]
        exact roomy.capacity_lt id
      have short := roomy.short
      rw [← course.directory_eq schedule, ← course.pathLimit_eq schedule] at short
      exact (worker.turn_step model (course.pool schedule).shared).refused_eq_nil fun page gives =>
        coherent.toConsistent.exists_enqueue_eq_ok restores small short
          (course.backed schedule).head_le (List.mem_of_getElem? found) gives

/-- Then no page fails to be written. -/
theorem failure_notMem_causes (course : Course model initial seen) (roomy : course.Roomy)
    (restores : ∀ state, model.Reachable initial state → model.Restores state)
    (schedule : List Nat) (failure : Failure) :
    .failure failure ∉ causes (course.history schedule) := by
  have none : causes (course.history schedule) = [] := by
    rw [← List.length_eq_zero_iff, length_causes, course.refused_eq_nil roomy restores schedule]
    rfl
  rw [none]
  exact List.not_mem_nil

end Exploration.Course

end Wavefront
