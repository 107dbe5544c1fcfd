/-
# Who is to blame

When a worker reports an error or breaks down, either the exploration is hindered or the
model has raised the error for a node that was expanded. `Accounted` keeps the account from
the expansion that fails to the report, and also says why a worker has stopped and why the
frontier is finished: everything was explored, or an error was reported, or a worker has
broken down.
-/

import Wavefront.Proofs.Pool.Counters
import Wavefront.Proofs.Pool.Discovery

namespace Wavefront

open History

variable {σ : Type}

/-! ## Stages -/

/-- The model has raised an error for a node that was expanded, or else the exploration is
hindered. -/
structure Blames (model : Model σ) (expanded : List (Node σ)) (hindered : Prop)
    (node : Option (Node σ)) (stop : Stop) : Prop where
  expanded : ∀ origin, node = some origin → origin ∈ expanded
  raised : hindered ∨ ∃ origin, node = some origin ∧ model.successors origin.state = .error stop

/-- Every error that a worker is about to report or to break down for is accounted for. -/
def Stage.Accounted (model : Model σ) (expanded : List (Node σ)) (hindered : Prop) : Stage σ → Prop
  | reporting node cause => Blames model expanded hindered node (.failure cause)
  | unwinding fault => ∃ node, Blames model expanded hindered node (.fault fault)
  | broken fault => ∃ node, Blames model expanded hindered node (.fault fault)
  | _ => True

section

variable {model : Model σ} {expanded wider : List (Node σ)} {hindered worse : Prop}
  {node : Option (Node σ)} {stop : Stop} {stage : Stage σ}

theorem Blames.mono (blames : Blames model expanded hindered node stop) (within : expanded ⊆ wider)
    (worsens : hindered → worse) : Blames model wider worse node stop :=
  ⟨fun origin same => within (blames.expanded origin same), blames.raised.imp_left worsens⟩

/-- Who is hindered needs nobody else to blame. -/
theorem Blames.of_hindered (holds : hindered) :
    Blames model expanded hindered (none : Option (Node σ)) stop :=
  ⟨by simp, .inl holds⟩

namespace Stage

theorem Accounted.mono (accounted : stage.Accounted model expanded hindered)
    (within : expanded ⊆ wider) (worsens : hindered → worse) :
    stage.Accounted model wider worse := by
  cases stage with
  | reporting => exact Blames.mono accounted within worsens
  | unwinding | broken =>
    obtain ⟨node, blames⟩ := accounted
    exact ⟨node, blames.mono within worsens⟩
  | polling | waiting | expanding | sifting | recording | claiming | publishing | flushing
    | latching | stopped => trivial

theorem accounted_ending (blames : Blames model expanded hindered node stop) :
    (ending node stop).Accounted model expanded hindered := by
  cases stop with
  | failure cause => exact blames
  | fault fault => exact ⟨node, blames⟩

end Stage

end

/-! ## Workers -/

namespace Worker

variable {model : Model σ} {worker next : Worker σ} {shared after : Shared σ} {events : History σ}

/-- A page with room takes a node, and nobody is to blame. -/
theorem Stowed.accounted {page : Page σ} {node child : Node σ} {rest : List σ}
    {expanded : List (Node σ)} {hindered : Prop}
    (stowed : Stowed worker page node child rest next) (room : page.size < page.capacity) :
    next.stage.Accounted model expanded hindered := by
  cases stowed with
  | bursts full => simp [Page.add, room] at full
  | fills | holds => trivial

/-- A report is not withdrawn. -/
theorem Turn.report_isSome (turn : Turn model worker shared next after events)
    (reported : shared.report.isSome = true) : after.report.isSome = true := by
  cases turn with
  | reports stage =>
    obtain ⟨report, kept⟩ := Option.isSome_iff_exists.mp reported
    simp [Report.publish, kept]
  | rests | heeds | idles | picks | accesses | fails | overflows | expands | concludes | meets
    | skips | sinks | records | claims | publishes | strands | flushes | latches | unwinds =>
    exact reported

/-- A report is the first that a worker made. -/
theorem Turn.report_eq (turn : Turn model worker shared next after events) :
    after.report = shared.report ∨ ∃ node cause, worker.stage = .reporting node cause ∧
      after.report = some ⟨node, cause⟩ ∧ next.stage = .latching := by
  cases turn with
  | reports stage =>
    cases kept : shared.report with
    | none => exact .inr ⟨_, _, stage, by simp [Report.publish], rfl⟩
    | some report => exact .inl (by simp [Report.publish])
  | rests | heeds | idles | picks | accesses | fails | overflows | expands | concludes | meets
    | skips | sinks | records | claims | publishes | strands | flushes | latches | unwinds =>
    exact .inl rfl

/-- A frontier is finished by a worker that has found it exhausted, has reported an error, or breaks
down. -/
theorem Turn.of_finished (turn : Turn model worker shared next after events)
    (ended : after.frontier.tail = .finished) :
    shared.frontier.tail = .finished ∨ (∃ ticket, worker.stage = .waiting (.latch ticket)) ∨
      worker.stage = .latching ∨ ∃ fault, next.stage = .broken fault := by
  cases turn with
  | rests | heeds | idles | picks | fails | overflows | expands | concludes | meets | skips | sinks
    | records | claims | flushes | reports => exact .inl ended
  | accesses stage turn =>
    cases turn with
    | closed | reads | outrun | rereads | ends | exhausts | breaks | retries | yields =>
      exact .inl ended
    | draws => cases ended
    | misses taken | receives taken | chokes taken =>
      obtain ⟨memory, rfl⟩ := Frontier.eq_of_take taken
      exact .inl ended
    | latches => exact .inr (.inl ⟨_, stage⟩)
    | donates enqueued | refuses enqueued =>
      obtain ⟨memory, rfl⟩ := Frontier.eq_of_enqueue enqueued
      exact .inl ended
  | publishes stage enqueued | strands stage enqueued =>
    obtain ⟨memory, rfl⟩ := Frontier.eq_of_enqueue enqueued
    exact .inl ended
  | latches stage => exact .inr (.inr (.inl stage))
  | unwinds => exact .inr (.inr (.inr ⟨_, rfl⟩))

/-- A worker that latches after an error finishes the frontier. -/
theorem Turn.tail_of_latching (turn : Turn model worker shared next after events)
    (latching : worker.stage = .latching) : after.frontier.tail = .finished := by
  cases turn with
  | latches => rfl
  | rests final => simp [latching, Stage.isFinal] at final
  | heeds stage | idles stage | picks stage | accesses stage | fails stage | overflows stage
    | expands stage | concludes stage | meets stage | skips stage | sinks stage | records stage
    | claims stage | publishes stage | strands stage | flushes stage | reports stage
    | unwinds stage => cases latching.symm.trans stage

/-- Whether a worker stops or has stopped in good order. -/
def IsLeaving (stage : Stage σ) : Prop := stage = .flushing ∨ stage = .stopped

theorem Stowed.not_isLeaving {page : Page σ} {node child : Node σ} {rest : List σ}
    (stowed : Stowed worker page node child rest next) : ¬ IsLeaving next.stage := by
  cases stowed <;> simp [IsLeaving]

/-- A worker leaves because of a report or because the frontier is finished. -/
theorem Turn.of_isLeaving (turn : Turn model worker shared next after events)
    (leaving : IsLeaving next.stage)
    (read : ∀ {ticket retries}, worker.stage = .waiting (.rereadHead ticket retries .finished) →
      shared.frontier.tail = .finished) :
    IsLeaving worker.stage ∨ shared.report.isSome = true ∨ worker.stage = .latching ∨
      after.frontier.tail = .finished := by
  cases turn with
  | rests => exact .inl leaving
  | heeds stage reported => exact .inr (.inl reported)
  | idles | picks | overflows | expands | concludes | meets | skips | sinks | publishes | reports
    | unwinds => simp [IsLeaving] at leaving
  | @fails _ stop | @strands _ _ _ stop => cases stop <;> simp [IsLeaving, Stage.ending] at leaving
  | flushes stage => exact .inl (.inl stage)
  | latches stage => exact .inr (.inr (.inl stage))
  | accesses stage turn =>
    cases turn with
    | closed ended => exact .inr (.inr (.inr ended))
    | ends => exact .inr (.inr (.inr (read stage)))
    | latches => exact .inr (.inr (.inr rfl))
    | reads | draws | outrun | misses | receives | chokes | rereads | exhausts | breaks | retries
      | yields | donates => simp [IsLeaving, proceed, receive, Stage.ending] at leaving
    | @refuses _ _ stop => cases stop <;> simp [IsLeaving, proceed, Stage.ending] at leaving
  | records stage room placed =>
    cases placed with
    | keeps | seeks => simp [IsLeaving] at leaving
    | stows holding stowed => exact absurd leaving stowed.not_isLeaving
  | claims stage stowed => exact absurd leaving stowed.not_isLeaving

/-- A worker that latches after an error has just reported one. -/
theorem Turn.of_latching (turn : Turn model worker shared next after events)
    (latching : next.stage = .latching) : after.report.isSome = true := by
  cases turn with
  | rests final => simp [latching, Stage.isFinal] at final
  | heeds | idles | picks | overflows | expands | concludes | meets | skips | sinks | publishes
    | flushes | latches | unwinds => simp at latching
  | @fails _ stop | @strands _ _ _ stop => cases stop <;> simp [Stage.ending] at latching
  | @reports node cause stage =>
    cases kept : shared.report <;> simp [Report.publish]
  | accesses stage turn =>
    cases turn with
    | closed | reads | draws | outrun | misses | receives | chokes | rereads | ends | exhausts
      | breaks | retries | yields | latches | donates =>
      simp [proceed, receive, Stage.ending] at latching
    | @refuses _ _ stop => cases stop <;> simp [proceed, Stage.ending] at latching
  | records stage room placed =>
    cases placed with
    | keeps | seeks => simp at latching
    | stows holding stowed => cases stowed <;> simp at latching
  | claims stage stowed => cases stowed <;> simp at latching

end Worker

/-! ## Pools -/

namespace Pool

variable {model : Model σ} {initial : List σ} {place : Location} {past events : History σ}
  {pool : Pool σ} {position : Nat} {worker next : Worker σ} {shared : Shared σ}

/-- Why workers leave: somebody has reported an error, or the frontier is finished. And whoever has
reported the first error finishes it. -/
structure Heeded (pool : Pool σ) : Prop where
  ended : ∀ worker ∈ pool.workers, ∀ {ticket retries},
    worker.stage = .waiting (.rereadHead ticket retries .finished) →
      pool.shared.frontier.tail = .finished
  latching : ∀ worker ∈ pool.workers, worker.stage = .latching → pool.shared.report.isSome = true
  leaving : ∀ worker ∈ pool.workers, Worker.IsLeaving worker.stage →
    pool.shared.report.isSome = true ∨ pool.shared.frontier.tail = .finished
  latched : pool.shared.report.isSome = true → pool.shared.frontier.tail = .finished ∨
    ∃ worker ∈ pool.workers, worker.stage = .latching

theorem Heeded.step (found : pool.workers[position]? = some worker)
    (turn : worker.Turn model pool.shared next shared events) (heeded : Heeded pool) :
    Heeded ⟨pool.workers.set position next, shared⟩ := by
  have member := List.mem_of_getElem? found
  have remains (ended : pool.shared.frontier.tail = .finished) :
      shared.frontier.tail = .finished := by
    obtain ⟨_, _, _, same, -, stays⟩ := turn.frontier_eq
    rw [same]
    exact stays ended
  constructor
  · intro other among ticket retries stage
    rcases mem_of_mem_set among with rfl | old
    · exact remains (turn.of_rereadHead stage).1.symm
    · exact remains (heeded.ended other old stage)
  · intro other among latching
    rcases mem_of_mem_set among with rfl | old
    · exact turn.of_latching latching
    · exact turn.report_isSome (heeded.latching other old latching)
  · intro other among leaving
    rcases mem_of_mem_set among with rfl | old
    · rcases turn.of_isLeaving leaving (heeded.ended worker member) with
        before | reported | latching | ended
      · exact (heeded.leaving worker member before).imp turn.report_isSome remains
      · exact .inl (turn.report_isSome reported)
      · exact .inl (turn.report_isSome (heeded.latching worker member latching))
      · exact .inr ended
    · exact (heeded.leaving other old leaving).imp turn.report_isSome remains
  · intro reported
    rcases turn.report_eq with same | ⟨node, cause, -, -, latching⟩
    · rcases heeded.latched (same ▸ reported) with ended | ⟨other, old, latching⟩
      · exact .inl (remains ended)
      · rcases mem_set_of_mem found old with rfl | still
        · exact .inl (turn.tail_of_latching latching)
        · exact .inr ⟨other, still, latching⟩
    · exact .inr ⟨next, mem_set_self found, latching⟩

/-- Why workers leave, and why the frontier is finished: somebody has reported an error, or there is
nothing left to do, or somebody has broken down. -/
structure Concerted (past : History σ) (pool : Pool σ) : Prop where
  latching : ∀ worker ∈ pool.workers, worker.stage = .latching → pool.shared.report.isSome = true
  leaving : ∀ worker ∈ pool.workers, Worker.IsLeaving worker.stage →
    pool.shared.report.isSome = true ∨ pool.shared.frontier.tail = .finished
  finished : pool.shared.frontier.tail = .finished → pool.Drained past ∨
    pool.shared.report.isSome = true ∨
      ∃ worker ∈ pool.workers, ∃ fault, worker.stage = .broken fault
  latched : pool.shared.report.isSome = true → pool.shared.frontier.tail = .finished ∨
    ∃ worker ∈ pool.workers, worker.stage = .latching

/-- Every error is accounted for, and so is that workers leave and that the frontier is finished. -/
structure Accounted (model : Model σ) (past : History σ) (pool : Pool σ) : Prop
    extends Concerted past pool where
  stages : ∀ worker ∈ pool.workers,
    worker.stage.Accounted model pool.shared.expanded (Hindered past pool)
  report : ∀ report, pool.shared.report = some report →
    Blames model pool.shared.expanded (Hindered past pool) report.node (.failure report.cause)

theorem Concerted.heeded (concerted : Concerted past pool) (watched : Watched past pool) :
    Heeded pool :=
  ⟨watched.ended, concerted.latching, concerted.leaving, concerted.latched⟩

/-- A step keeps the reasons. -/
theorem Concerted.step (found : pool.workers[position]? = some worker)
    (turn : worker.Turn model pool.shared next shared events)
    (sound : Sound model place past pool) (watched : Watched past pool)
    (concerted : Concerted past pool) :
    Concerted (past ++ events) ⟨pool.workers.set position next, shared⟩ := by
  have member := List.mem_of_getElem? found
  have heeded := (concerted.heeded watched).step found turn
  have here : next ∈ pool.workers.set position next := mem_set_self found
  refine ⟨heeded.latching, heeded.leaving, fun ended => ?_, heeded.latched⟩
  rcases turn.of_finished ended with before | ⟨ticket, latch⟩ | latching | ⟨fault, broken⟩
  · rcases concerted.finished before with drained | reported | ⟨other, old, fault, broken⟩
    · exact .inl (drained.step found turn sound watched)
    · exact .inr (.inl (turn.report_isSome reported))
    · refine .inr (.inr ?_)
      rcases mem_set_of_mem found old with rfl | still
      · obtain ⟨rfl, -, -⟩ := turn.of_isFinal (by rw [broken]; rfl)
        exact ⟨next, here, fault, broken⟩
      · exact ⟨other, still, fault, broken⟩
  · exact .inl ((watched.latch worker member latch).step found turn sound watched)
  · exact .inr (.inl (turn.report_isSome (concerted.latching worker member latching)))
  · exact .inr (.inr ⟨next, here, fault, broken⟩)

/-- Whatever error a step leads to is accounted for. -/
theorem Coherent.accounted_turn (found : pool.workers[position]? = some worker)
    (turn : worker.Turn model pool.shared next shared events)
    (coherent : Coherent model initial place past pool) (tallied : Tallied model pool)
    (restores : ∀ state, model.Reachable initial state → model.Restores state)
    (accounted : worker.stage.Accounted model pool.shared.expanded (Hindered past pool)) :
    next.stage.Accounted model shared.expanded
      (Hindered (past ++ events) ⟨pool.workers.set position next, shared⟩) := by
  have member := List.mem_of_getElem? found
  have books := coherent.sound.split found
  have provided := coherent.conserved.provided worker member
  have orderly := coherent.sound.orderly worker member
  have sifts := coherent.explained.sifts worker member
  have worsens : Hindered past pool → Hindered (past ++ events)
      ⟨pool.workers.set position next, shared⟩ := fun hindered => hindered.step turn
  cases turn with
  | rests => exact accounted.mono (List.Subset.refl _) worsens
  | heeds | idles | picks | expands | concludes | meets | skips | publishes | flushes | latches =>
    trivial
  | fails stage failed =>
    exact Stage.accounted_ending ⟨by simp, .inr ⟨_, rfl, failed⟩⟩
  | overflows stage computed counted =>
    have many := tallied.lt_of_overflow found computed counted
    exact ⟨none, .of_hindered (Limited.hindered (.inr many))⟩
  | @accesses wait after _ stage turn =>
    cases turn with
    | closed | reads | draws | outrun | misses | receives | rereads | ends | exhausts | retries
      | yields | latches | donates => trivial
    | chokes taken =>
      -- A page that waits can be read, because its states can be restored.
      obtain ⟨node, waits, lost⟩ := books.exists_node_of_take_error taken
      have known := coherent.conserved.waiting_subset waits
      exact absurd (restores _ (coherent.reachable node known)) lost
    | breaks holding exhausted =>
      rw [coherent.watched.held_eq_none found stage (exhausted_ticket_iff.mp exhausted)] at holding
      cases holding
    | refuses =>
      exact Stage.accounted_ending (.of_hindered (.inl (by simp)))
  | sinks stage deep =>
    rw [stage] at sifts
    obtain ⟨-, done, sifting, -⟩ := sifts
    refine ⟨none, .of_hindered (.inr (.inl ⟨_, ?_, deep⟩))⟩
    rw [List.append_nil]
    exact coherent.conserved.expanded_subset sifting.begun
  | records stage room placed =>
    cases placed with
    | keeps | seeks => trivial
    | stows holding stowed =>
      have holds : worker.held = some _ := holding
      have mine : _ ∈ worker.pages := List.mem_append_left _ (Option.mem_toList.mpr holds)
      have fits := books.fits _ (List.mem_append_left _ (List.mem_append_left _ mine))
      exact stowed.accounted (provided.lt_capacity holds fits)
  | claims stage stowed =>
    exact stowed.accounted (coherent.conserved.positive _)
  | strands stage =>
    rw [stage] at sifts
    obtain ⟨done, sifting⟩ := sifts
    refine Stage.accounted_ending ⟨?_, .inl (.inl (by simp))⟩
    rintro origin ⟨rfl⟩
    exact sifting.begun
  | reports => trivial
  | unwinds stage =>
    rw [stage] at accounted
    exact accounted.mono (List.Subset.refl _) worsens

/-- A step keeps the account. -/
theorem Accounted.step (found : pool.workers[position]? = some worker)
    (turn : worker.Turn model pool.shared next shared events)
    (coherent : Coherent model initial place past pool) (tallied : Tallied model pool)
    (restores : ∀ state, model.Reachable initial state → model.Restores state)
    (accounted : Accounted model past pool) :
    Accounted model (past ++ events) ⟨pool.workers.set position next, shared⟩ := by
  have member := List.mem_of_getElem? found
  have worsens : Hindered past pool → Hindered (past ++ events)
      ⟨pool.workers.set position next, shared⟩ := fun hindered => hindered.step turn
  refine ⟨accounted.toConcerted.step found turn coherent.sound coherent.watched, ?_, ?_⟩
  · intro other among
    rcases mem_of_mem_set among with rfl | old
    · exact coherent.accounted_turn found turn tallied restores (accounted.stages worker member)
    · exact (accounted.stages other old).mono turn.grows.1 worsens
  · intro report kept
    rcases turn.report_eq with same | ⟨node, cause, stage, first, -⟩
    · exact (accounted.report report (same ▸ kept)).mono turn.grows.1 worsens
    · have blames := accounted.stages worker member
      rw [stage] at blames
      obtain rfl := Option.some.inj (first.symm.trans kept)
      exact Blames.mono blames turn.grows.1 worsens

end Pool

end Wavefront
