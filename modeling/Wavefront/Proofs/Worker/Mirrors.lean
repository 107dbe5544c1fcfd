/-
# Workers in directories that mirror each other

Two workers that are alike in everything but where their logs lie, and which paths the failures name
that they report, make the same step when what they share is alike in the same sense. Nothing of
what else lies on the two disks can be told from what they do.
-/

import Wavefront.Proofs.Store.Mirrors
import Wavefront.Proofs.Trace.Logs
import Wavefront.Proofs.Worker.Logs

namespace Wavefront

variable {σ : Type} {model : Model σ} {left right : Site} {disk mirror : Disk}

/-! ## Logs -/

namespace Log

variable {log twin : Log}

/-- Logs with the same records, which lie under the same name. -/
structure Mirrors (left right : Site) (log twin : Log) : Prop where
  worker : twin.worker = log.worker
  count : twin.count = log.count
  pending : twin.pending = log.pending
  file : ∃ name, Disk.Plain name ∧ log.path = left.path.child name ∧
    twin.path = right.path.child name ∧ left.Handles right name log.handle twin.handle

namespace Mirrors

theorem append (logs : Mirrors left right log twin) (record : Record) :
    (twin.append record).1 = (log.append record).1 ∧
      Mirrors left right (log.append record).2 (twin.append record).2 := by
  refine ⟨by simp only [Log.append, size, logs.worker, logs.count], logs.worker, ?_, ?_, logs.file⟩
  · simp only [Log.append, logs.count]
  · simp only [Log.append, logs.pending]

theorem flush (logs : Mirrors left right log twin) (mirrors : disk.Mirrors left right mirror) :
    Mirrors left right (log.flush disk).1 (twin.flush mirror).1 ∧
      (log.flush disk).2.Mirrors left right (twin.flush mirror).2 := by
  obtain ⟨name, plain, path, path', handles⟩ := logs.file
  unfold Log.flush
  rw [logs.pending]
  split
  · exact ⟨logs, mirrors⟩
  · refine ⟨⟨logs.worker, logs.count, rfl, logs.file⟩, ?_⟩
    simp only [flushedSize, pendingBytes, logs.count, logs.pending]
    exact mirrors.writeAt handles _ _

/-- Reading a record turns out in the same way, and leaves the same in both logs. -/
theorem read (logs : Mirrors left right log twin) (mirrors : disk.Mirrors left right mirror)
    (worker : UInt16) (offset : UInt64) :
    Alike (Failure.Moved left.path right.path) Eq
      ((log.read offset disk).1.mapError fun cause => .trace worker (.io cause))
      ((twin.read offset mirror).1.mapError fun cause => .trace worker (.io cause)) ∧
    Mirrors left right (log.read offset disk).2.1 (twin.read offset mirror).2.1 ∧
    (log.read offset disk).2.2.Mirrors left right (twin.read offset mirror).2.2 := by
  obtain ⟨name, plain, path, path', handles⟩ := logs.file
  have size : twin.size = log.size := by rw [Log.size, Log.size, logs.count]
  unfold Log.read
  rw [size]
  split
  · refine ⟨?_, logs, mirrors⟩
    rw [path, path']
    exact .error (.trace _ _ _)
  · obtain ⟨flushed, after⟩ := logs.flush mirrors
    have same : (twin.flush mirror).2.read (twin.flush mirror).1.path =
        (log.flush disk).2.read (log.flush disk).1.path := by
      rw [path_flush, path_flush, path, path']
      exact after.read_eq plain
    dsimp only
    rw [same]
    cases (log.flush disk).2.read (log.flush disk).1.path with
    | error cause => exact ⟨.error (.same _), flushed, after⟩
    | ok bytes =>
      refine ⟨?_, flushed, after⟩
      dsimp only
      cases Record.decode (bytes.drop offset.toNat) with
      | error cause => exact .error (.same _)
      | ok decoded => exact .ok rfl

end Mirrors

end Log

/-! ## Accesses -/

/-- The same progress, but for the directory in the path of a failure. -/
inductive Progress.Moved (left right : Path) : Progress σ → Progress σ → Prop where
  | same (progress : Progress σ) : Moved left right progress progress
  | stopped {stop stop' : Stop} (moved : stop.Moved left right stop') :
      Moved left right (.stopped stop) (.stopped stop')

theorem Wait.step_mirrors (model : Model σ) (wait : Wait σ) (held : Option (Page σ))
    {frontier : Frontier σ} (spills : frontier.spill.directory = left.path)
    (mirrors : disk.Mirrors left right mirror) :
    (wait.step model held frontier disk).progress.Moved left.path right.path
      (wait.step model held (frontier.moved right.path) mirror).progress ∧
    (wait.step model held (frontier.moved right.path) mirror).held =
      (wait.step model held frontier disk).held ∧
    (wait.step model held (frontier.moved right.path) mirror).frontier =
      (wait.step model held frontier disk).frontier.moved right.path ∧
    (wait.step model held frontier disk).disk.Mirrors left right
      (wait.step model held (frontier.moved right.path) mirror).disk := by
  cases wait with
  | readTail =>
    have same : (frontier.moved right.path).tail = frontier.tail := rfl
    simp only [Wait.step, same]
    cases frontier.tail <;> exact ⟨.same _, rfl, rfl, mirrors⟩
  | advance seen =>
    have same : (frontier.moved right.path).tail = frontier.tail := rfl
    simp only [Wait.step, same]
    split <;> exact ⟨.same _, rfl, rfl, mirrors⟩
  | look ticket retries =>
    obtain ⟨taken, later, after⟩ := Frontier.take_mirrors model ticket spills mirrors
    simp only [Wait.step]
    generalize frontier.take model ticket disk = result at taken later after ⊢
    generalize (frontier.moved right.path).take model ticket mirror = result' at taken later after ⊢
    obtain ⟨answer, frontier', disk'⟩ := result
    obtain ⟨answer', frontier'', disk''⟩ := result'
    dsimp only at taken later after
    subst later
    cases taken with
    | error alike => exact ⟨.stopped (.failure alike), rfl, rfl, after⟩
    | @ok answer _ alike =>
      subst alike
      cases answer <;> exact ⟨.same _, rfl, rfl, after⟩
  | rereadTail ticket retries => exact ⟨.same _, rfl, rfl, mirrors⟩
  | rereadHead ticket retries tail => exact ⟨.same _, rfl, rfl, mirrors⟩
  | latch ticket => exact ⟨.same _, rfl, rfl, mirrors⟩
  | donate ticket page =>
    obtain ⟨taken, later, after⟩ := Frontier.enqueue_mirrors model page spills mirrors
    simp only [Wait.step]
    generalize frontier.enqueue model page disk = result at taken later after ⊢
    generalize (frontier.moved right.path).enqueue model page mirror = result'
      at taken later after ⊢
    obtain ⟨answer, frontier', disk'⟩ := result
    obtain ⟨answer', frontier'', disk''⟩ := result'
    dsimp only at taken later after
    subst later
    cases taken with
    | error alike => exact ⟨.stopped alike, rfl, rfl, after⟩
    | ok alike => exact ⟨.same _, rfl, rfl, after⟩

/-! ## Steps -/

/-- The same stage, but for the directory in the path of a failure. -/
inductive Stage.Moved (left right : Path) : Stage σ → Stage σ → Prop where
  | same (stage : Stage σ) : Moved left right stage stage
  | reporting (node : Option (Node σ)) {cause cause' : Failure}
      (moved : cause.Moved left right cause') :
      Moved left right (.reporting node cause) (.reporting node cause')

theorem Stage.Moved.ending {left right : Path} {stop stop' : Stop} (node : Option (Node σ))
    (moved : stop.Moved left right stop') :
    Stage.Moved left right (.ending node stop) (.ending node stop') := by
  cases moved with
  | failure moved => exact .reporting node moved
  | fault fault => exact .same _

/-- The same report, but for the directory in the path of its cause. -/
inductive Report.Moved (left right : Path) : Option (Report σ) → Option (Report σ) → Prop where
  | none : Moved left right none none
  | some (node : Option (Node σ)) {cause cause' : Failure} (moved : cause.Moved left right cause') :
      Moved left right (some ⟨node, cause⟩) (some ⟨node, cause'⟩)

theorem Report.Moved.isSome_eq {left right : Path} {report report' : Option (Report σ)}
    (moved : Report.Moved left right report report') : report'.isSome = report.isSome := by
  cases moved <;> rfl

/-- Publishing the same cause keeps the same report, first or not. -/
theorem Report.Moved.publish {left right : Path} {report report' : Option (Report σ)}
    (moved : Report.Moved left right report report') (node : Option (Node σ))
    {cause cause' : Failure} (causes : cause.Moved left right cause') :
    Report.Moved left right (Report.publish report ⟨node, cause⟩).2
      (Report.publish report' ⟨node, cause'⟩).2 := by
  cases moved with
  | none => exact .some node causes
  | some origin earlier => exact .some origin earlier

/-- A worker that is alike in everything but its log's place and the paths of its failures. -/
inductive Worker.Mirrors (left right : Site) (worker : Worker σ) : Worker σ → Prop where
  | intro {log : Log} {stage : Stage σ} (logs : worker.log.Mirrors left right log)
      (stages : worker.stage.Moved left.path right.path stage) :
      Mirrors left right worker { worker with log := log, stage := stage }

/-- A shared state that is alike in everything but where pages are spilled to. -/
inductive Shared.Mirrors (left right : Site) (shared : Shared σ) : Shared σ → Prop where
  | intro {mirror : Disk} {report : Option (Report σ)}
      (spills : shared.frontier.spill.directory = left.path)
      (mirrors : shared.disk.Mirrors left right mirror)
      (reports : Report.Moved left.path right.path shared.report report) :
      Mirrors left right shared
        { shared with
          frontier := shared.frontier.moved right.path
          disk := mirror
          report := report }

namespace Shared.Mirrors

variable {shared alike : Shared σ}

theorem spills (shares : shared.Mirrors left right alike) :
    shared.frontier.spill.directory = left.path := by
  cases shares with
  | intro spills => exact spills

theorem frontier_eq (shares : shared.Mirrors left right alike) :
    alike.frontier = shared.frontier.moved right.path := by
  cases shares
  rfl

theorem disks (shares : shared.Mirrors left right alike) :
    shared.disk.Mirrors left right alike.disk := by
  cases shares with
  | intro _ mirrors => exact mirrors

theorem reports (shares : shared.Mirrors left right alike) :
    Report.Moved left.path right.path shared.report alike.report := by
  cases shares with
  | intro _ _ reports => exact reports

theorem seen_eq (shares : shared.Mirrors left right alike) : alike.seen = shared.seen := by
  cases shares
  rfl

theorem expanded_eq (shares : shared.Mirrors left right alike) :
    alike.expanded = shared.expanded := by
  cases shares
  rfl

end Shared.Mirrors

namespace Worker

variable {worker other : Worker σ} {shared alike : Shared σ} {log : Log}

theorem Mirrors.of_log (logs : worker.log.Mirrors left right log) :
    Mirrors left right worker (worker.withLog log) :=
  .intro logs (.same _)

/-- What a worker does after an access does not depend on the directory. -/
theorem Mirrors.proceed {accessed accessed' : Accessed σ}
    (logs : worker.log.Mirrors left right log)
    (moved : accessed.progress.Moved left.path right.path accessed'.progress)
    (held : accessed'.held = accessed.held) :
    (worker.proceed accessed).Mirrors left right ((worker.withLog log).proceed accessed') := by
  rcases accessed with ⟨progress, held', frontier, disk⟩
  rcases accessed' with ⟨progress', held'', frontier', disk'⟩
  dsimp only at moved held
  subst held
  cases moved with
  | same =>
    rw [proceed_withLog]
    cases progress <;> exact .of_log logs
  | stopped moved => exact .intro logs (Stage.Moved.ending none moved)

/-- A worker with a log elsewhere makes the same step. -/
theorem Mirrors.step_withLog (logs : worker.log.Mirrors left right log)
    (shares : shared.Mirrors left right alike) :
    (worker.step model shared).1.Mirrors left right ((worker.withLog log).step model alike).1 ∧
      (worker.step model shared).2.Mirrors left right
        ((worker.withLog log).step model alike).2 := by
  obtain ⟨spills, mirrors, reports⟩ := shares
  rename_i mirror report
  have quiet := Shared.Mirrors.intro spills mirrors reports
  cases stage : worker.stage with
  | polling =>
    have asked := reports.isSome_eq
    simp only [step, withLog, stage, asked]
    split
    · exact ⟨.intro logs (.same _), quiet⟩
    · cases worker.backlog.pop? <;> exact ⟨.intro logs (.same _), quiet⟩
  | waiting wait =>
    have stage' : (worker.withLog log).stage = .waiting wait := stage
    obtain ⟨moved, held, later, after⟩ := wait.step_mirrors model worker.held spills mirrors
    obtain ⟨memory, tail, same, -⟩ := (@Wait.turn_step _ model worker.held shared.frontier
      shared.disk wait).frontier_eq
    rw [step_of_waiting stage, step_of_waiting stage']
    refine ⟨.proceed logs moved held, ?_⟩
    simp only [withLog, later]
    exact .intro (by rw [same]; exact spills) after reports
  | expanding node =>
    simp only [step, withLog, stage]
    cases model.successors node.state with
    | error stop => exact ⟨.intro logs (.same _), .intro spills mirrors reports⟩
    | ok states =>
      dsimp only
      rcases worker.outDegree.add states.length with ⟨fault | ⟨⟩, degrees⟩ <;>
        exact ⟨.intro logs (.same _), .intro spills mirrors reports⟩
  | sifting node remaining =>
    cases remaining with
    | nil =>
      simp only [step, withLog, stage]
      exact ⟨.intro logs (.same _), quiet⟩
    | cons state rest =>
      simp only [step, withLog, stage]
      split <;> exact ⟨.intro logs (.same _), .intro spills mirrors reports⟩
  | recording node state rest =>
    by_cases deep : node.level = levelMax
    · simp only [step, withLog, stage, record, nextLevel, if_pos deep]
      exact ⟨.intro logs (.same _), quiet⟩
    · have stage' : (worker.withLog log).stage = .recording node state rest := stage
      obtain ⟨uid, appended⟩ := logs.append ⟨node.uid, model.fingerprint state⟩
      have same : (worker.withLog log).discovery model node state =
          worker.discovery model node state := by
        simp only [discovery, withLog, uid]
      have noted : (worker.withLog log).noting model node state =
          (worker.noting model node state).withLog
            (log.append ⟨node.uid, model.fingerprint state⟩).2 := rfl
      rw [step_of_recording stage deep, step_of_recording stage' deep, same, noted, place_withLog]
      refine ⟨.of_log ?_, quiet⟩
      rw [log_place]
      exact appended
  | claiming node child rest =>
    have stage' : (worker.withLog log).stage = .claiming node child rest := stage
    rw [step_of_claiming stage, step_of_claiming stage', stow_withLog]
    refine ⟨.of_log ?_, @Shared.Mirrors.intro _ _ _
      { shared with frontier := shared.frontier.claim.2 } _ _ spills mirrors reports⟩
    rw [log_stow]
    exact logs
  | publishing node page rest =>
    obtain ⟨answers, later, after⟩ := Frontier.enqueue_mirrors model page spills mirrors
    simp only [step, withLog, stage]
    rcases enqueued : shared.frontier.enqueue model page shared.disk with ⟨result, frontier, disk⟩
    generalize (shared.frontier.moved right.path).enqueue model page mirror = moved
      at answers later after ⊢
    obtain ⟨result', frontier', disk'⟩ := moved
    simp only [enqueued] at answers later after
    subst later
    obtain ⟨memory, same⟩ := Frontier.eq_of_enqueue enqueued
    have spills' : frontier.spill.directory = left.path := by rw [same]; exact spills
    cases answers with
    | error alike => exact ⟨.intro logs (.ending _ alike), .intro spills' after reports⟩
    | ok alike => exact ⟨.intro logs (.same _), .intro spills' after reports⟩
  | flushing =>
    obtain ⟨flushed, after⟩ := logs.flush mirrors
    simp only [step, withLog, stage]
    exact ⟨.intro flushed (.same _), .intro spills after reports⟩
  | reporting node cause =>
    simp only [step, withLog, stage]
    exact ⟨.intro logs (.same _), .intro spills mirrors (reports.publish node (.same cause))⟩
  | latching | unwinding fault =>
    simp only [step, withLog, stage]
    exact ⟨.intro logs (.same _), .intro spills mirrors reports⟩
  | stopped | broken fault =>
    simp only [step, withLog, stage]
    rw [← stage]
    exact ⟨.of_log logs, quiet⟩

/-- Workers that mirror each other make the same step. -/
theorem Mirrors.step (workers : worker.Mirrors left right other)
    (shares : shared.Mirrors left right alike) :
    (worker.step model shared).1.Mirrors left right (other.step model alike).1 ∧
      (worker.step model shared).2.Mirrors left right (other.step model alike).2 := by
  obtain ⟨logs, stages⟩ := workers
  rename_i log stage'
  generalize stage : worker.stage = current at stages
  cases stages with
  | same =>
    subst stage
    exact step_withLog logs shares
  | reporting node causes =>
    -- The two may report different paths, which are kept as they are.
    obtain ⟨spills, mirrors, reports⟩ := shares
    simp only [Worker.step, stage]
    exact ⟨.intro logs (.same _), .intro spills mirrors (reports.publish node causes)⟩

end Worker

end Wavefront
