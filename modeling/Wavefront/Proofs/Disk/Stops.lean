/-
# Where writing a page stops

Writing a page takes many steps: the temporary file is made, bytes are put at its end, in whatever
pieces, they are brought to the medium, and at last the file gets the name of the page. Any of these
steps may fail, and between any two of them everything may come to a halt. What is on the disk then
is said here once, for every place where a write can stop, whether it has succeeded, has failed, or
has not come to an end.
-/

import Wavefront.Proofs.Disk.Names
import Wavefront.Proofs.Disk.Operations

namespace Wavefront

variable {σ : Type}

/-! ## Plans -/

namespace Plan

variable {plan done : Plan} {disk after : Disk}

/-- A plan stops when some steps from its beginning have been done, and leaves the disk as it is
then. -/
structure Stops (plan : Plan) (disk : Disk) (done : Plan) (after : Disk) : Prop where
  front : done <+: plan
  performed : done.perform disk = (.ok (), after)

theorem perform_cons_eq_ok_iff {step : FileStep} :
    perform (step :: plan) disk = (.ok (), after) ↔
      ∃ middle, step.perform disk = .ok middle ∧ plan.perform middle = (.ok (), after) := by
  rw [perform]
  cases step.perform disk with
  | error cause => simp
  | ok middle => simp

theorem perform_concat_eq_ok_iff {last : FileStep} :
    perform (plan ++ [last]) disk = (.ok (), after) ↔
      ∃ middle, plan.perform disk = (.ok (), middle) ∧ last.perform middle = .ok after := by
  rw [perform_append]
  rcases plan.perform disk with ⟨_ | _, middle⟩
  · simp
  · simp only [perform, Prod.mk.injEq, true_and, exists_eq_left']
    cases last.perform middle <;> simp

/-- Carrying out a plan comes to an end where the plan stops, also if one of its steps is refused,
and it succeeds exactly if all of the plan was done. -/
theorem exists_stops_of_refuseAt {number : Nat} {cause : IoError}
    {result : Except (Path × IoError) Unit}
    (performed : (plan.refuseAt number cause).perform disk = (result, after)) :
    ∃ done, plan.Stops disk done after ∧ (result = .ok () ↔ done = plan) := by
  induction plan generalizing number disk with
  | nil =>
    rw [refuseAt, List.modify_nil] at performed
    obtain ⟨rfl, rfl⟩ := Prod.mk.inj performed
    exact ⟨[], ⟨List.prefix_rfl, rfl⟩, by simp⟩
  | cons step rest ih =>
    have here (blame : Path × IoError) : ∃ done, Stops (step :: rest) disk done disk ∧
        (Except.error blame = Except.ok () ↔ done = step :: rest) :=
      ⟨[], ⟨List.nil_prefix, rfl⟩, by simp⟩
    cases number with
    | zero =>
      obtain ⟨rfl, rfl⟩ := Prod.mk.inj performed
      exact here _
    | succ number =>
      rw [refuseAt, List.modify_succ_cons, perform] at performed
      cases stepped : step.perform disk with
      | error blame =>
        rw [stepped] at performed
        obtain ⟨rfl, rfl⟩ := Prod.mk.inj performed
        exact here _
      | ok middle =>
        rw [stepped] at performed
        obtain ⟨done, stops, complete⟩ := ih performed
        refine ⟨step :: done, ⟨(List.prefix_cons_inj step).mpr stops.front, ?_⟩, ?_⟩
        · exact perform_cons_eq_ok_iff.mpr ⟨middle, stepped, stops.performed⟩
        · rw [complete, List.cons.injEq]
          exact (and_iff_right rfl).symm

/-- So does carrying out a plan of which nothing is refused. -/
theorem exists_stops_of_perform {result : Except (Path × IoError) Unit}
    (performed : plan.perform disk = (result, after)) :
    ∃ done, plan.Stops disk done after ∧ (result = .ok () ↔ done = plan) := by
  have same : plan.refuseAt plan.length .notFound = plan := List.modify_eq_self (Nat.le_refl _)
  rw [← same] at performed
  exact exists_stops_of_refuseAt performed

/-- Bytes that are put at the end of a file in pieces come one after another. -/
theorem get?_of_appends {path : Path} {place : Location} {stamp : Nat} {old : Bytes}
    {pieces : List Bytes} (located : disk.locate path = .ok place)
    (held : disk.get? place = some (.file stamp old))
    (performed : Plan.perform (pieces.map (.append path)) disk = (.ok (), after)) :
    disk.Changes (· = place) after ∧
      after.get? place = some (.file stamp (old ++ pieces.flatten)) := by
  induction pieces generalizing disk old with
  | nil =>
    obtain ⟨-, rfl⟩ := Prod.mk.inj performed
    exact ⟨.refl _ _, by simpa using held⟩
  | cons piece rest ih =>
    obtain ⟨middle, appended, more⟩ := perform_cons_eq_ok_iff.mp performed
    obtain ⟨place', stamp', old', there, before, changes, grown⟩ := Disk.append_eq_ok appended
    obtain rfl : place = place' := Except.ok.inj (located.symm.trans there)
    obtain ⟨rfl, rfl⟩ := Entry.file.inj (Option.some.inj (held.symm.trans before))
    obtain ⟨later, whole⟩ := ih (changes.locate_iff.mpr located) grown more
    exact ⟨changes.trans later, by rw [whole, List.flatten_cons, List.append_assoc]⟩

end Plan

namespace Page

variable {model : Model σ} {page : Page σ} {directory : Path} {place : Location}
  {disk after : Disk} {pieces : List Bytes} {done : Plan}

/-- The files that writing a page touches. -/
def Touched (page : Page σ) (place : Location) (target : Location) : Prop :=
  target = place ++ [temporaryName page.id] ∨ target = place ++ [fileName page.id]

theorem temporary_ne (place : Location) (first second : PageId) :
    place ++ [temporaryName first] ≠ place ++ [fileName second] := by
  simpa using temporaryName_ne_fileName first second

/-- Writing a page leaves the file of every other page alone. -/
theorem not_touched {id : PageId} (other : id ≠ page.id) :
    ¬ page.Touched place (place ++ [fileName id]) := by
  rintro (same | same)
  · exact temporary_ne place page.id id same.symm
  · exact other (fileName_injective (by simpa using same))

/-! ## The steps of writing a page -/

/-- The last step of writing a page, by which it gets its own name. -/
def naming (page : Page σ) (directory : Path) : FileStep :=
  .rename (directory.child (temporaryName page.id)) (directory.child (fileName page.id))

/-- The steps of writing a page whose bytes get into the temporary file in the given pieces. Nothing
is begun for a page that is too large, and one with a state that refuses to be written gets no
further than the bytes before. -/
def steps (model : Model σ) (page : Page σ) (directory : Path) (pieces : List Bytes) : Plan :=
  let temporary := directory.child (temporaryName page.id)
  if countLimit ≤ page.size then [.refuse temporary .countTooLarge]
  else .create temporary :: pieces.map (.append temporary) ++ page.closingPlan model directory

theorem steps_eq_writePlan (small : page.size < countLimit) :
    page.steps model directory [(page.image model).bytes] = page.writePlan model directory := by
  rw [steps, if_neg (Nat.not_le.mpr small)]
  rfl

/-- The last steps of writing a page are one that fails, or the one that gives it its name after its
bytes have been brought to the medium. -/
theorem closingPlan_cases (model : Model σ) (page : Page σ) (directory : Path) :
    (∃ cause, page.closingPlan model directory =
      [.refuse (directory.child (temporaryName page.id)) cause]) ∨
    ((page.image model).refusal = none ∧ page.closingPlan model directory =
      [.sync (directory.child (temporaryName page.id)), page.naming directory]) := by
  unfold closingPlan
  cases (page.image model).refusal with
  | some cause => exact .inl ⟨cause, rfl⟩
  | none => exact .inr ⟨rfl, rfl⟩

/-- Writing a page is carrying out these steps, with all bytes in one piece. -/
theorem write_eq_perform_steps :
    page.write model directory disk =
      match (page.steps model directory [(page.image model).bytes]).perform disk with
      | (.error (path, cause), disk) => (.error (.pageWrite path (.io cause)), disk)
      | (.ok (), disk) => (.ok (directory.child (fileName page.id)), disk) := by
  unfold write
  split
  · rename_i large
    rw [steps, if_pos large]
    rfl
  · rename_i small
    exact steps_eq_writePlan (Nat.lt_of_not_le small) ▸ rfl

/-- What has been written of a page before the last step, in the pieces so far. -/
structure Begun (page : Page σ) (directory : Path) (place : Location) (disk : Disk)
    (pieces : List Bytes) (after : Disk) : Prop where
  changes : disk.Changes (· = place ++ [temporaryName page.id]) after
  located : disk.locate (directory.child (temporaryName page.id)) =
    .ok (place ++ [temporaryName page.id])
  drafted : ∃ stamp, after.get? (place ++ [temporaryName page.id]) =
    some (.file stamp pieces.flatten)

theorem begun_of_perform (opens : disk.Opens directory place)
    (performed : Plan.perform (.create (directory.child (temporaryName page.id)) ::
      pieces.map (.append (directory.child (temporaryName page.id)))) disk = (.ok (), after)) :
    page.Begun directory place disk pieces after := by
  obtain ⟨first, made, more⟩ := Plan.perform_cons_eq_ok_iff.mp performed
  cases created : disk.create (directory.child (temporaryName page.id)) with
  | error cause => simp [FileStep.perform, created, Except.map] at made
  | ok result =>
    obtain ⟨handle, first'⟩ := result
    obtain rfl : first' = first := by simpa [FileStep.perform, created, Except.map] using made
    obtain ⟨located, changes, empty⟩ := Disk.create_eq_ok created
    have plain := Spill.plain_of_isPageFile (Spill.isPageFile_temporaryName page.id)
    have here : handle.place = place ++ [temporaryName page.id] := opens.eq_of_locate plain located
    obtain ⟨later, grown⟩ := Plan.get?_of_appends (changes.locate_iff.mpr located) empty more
    rw [here] at changes later grown located
    exact ⟨changes.trans later, located, handle.stamp, grown⟩

/-- What there is when a page has got its name: the bytes that were written lie under it, nothing is
left under the temporary one, and nothing else has changed. -/
structure Published (page : Page σ) (directory : Path) (place : Location) (disk : Disk)
    (bytes : Bytes) (after : Disk) : Prop where
  changes : disk.Changes (page.Touched place) after
  located : disk.locate (directory.child (fileName page.id)) = .ok (place ++ [fileName page.id])
  file : ∃ stamp, after.get? (place ++ [fileName page.id]) = some (.file stamp bytes)
  gone : after.get? (place ++ [temporaryName page.id]) = none

/-- Renaming the temporary file gives its bytes to the page's own name, whatever was there. -/
theorem Begun.publish {middle : Disk} (begun : page.Begun directory place disk pieces middle)
    (opens : disk.Opens directory place)
    (renamed : (page.naming directory).perform middle = .ok after) :
    page.Published directory place disk pieces.flatten after := by
  obtain ⟨changes, located, stamp, drafted⟩ := begun
  obtain ⟨origin, entry, target, source, held, aimed, clear, rfl⟩ := Disk.rename_eq_ok renamed
  obtain rfl : place ++ [temporaryName page.id] = origin :=
    Except.ok.inj ((changes.locate_iff.mpr located).symm.trans source)
  obtain rfl : .file stamp pieces.flatten = entry := Option.some.inj (drafted.symm.trans held)
  have plain := Spill.plain_of_isPageFile (Spill.isPageFile_fileName page.id)
  obtain rfl : target = place ++ [fileName page.id] :=
    (opens.of_changes changes).eq_of_locate plain aimed
  have apart := temporary_ne place page.id page.id
  have removed := Disk.changes_unset
    (show middle.get? (place ++ [temporaryName page.id]) ≠ some .directory by simp [drafted])
  have moved := @Disk.changes_set _ _ stamp pieces.flatten
    (show (middle.unset (place ++ [temporaryName page.id])).get?
      (place ++ [fileName page.id]) ≠ some .directory by rwa [Disk.get?_unset_of_ne apart])
  refine ⟨?_, changes.locate_iff.mp aimed, ⟨stamp, Disk.get?_set_self (by simp) _ _⟩, ?_⟩
  · exact ((changes.mono fun _ => .inl).trans (removed.mono fun _ => .inl)).trans
      (moved.mono fun _ => .inr)
  · rw [Disk.get?_set_of_ne apart.symm, Disk.get?_unset_self (by simp)]

/-- Before the last steps of writing a page nothing has been done, or the temporary file has been
begun. -/
theorem begun_of_prefix (opens : disk.Opens directory place)
    (front : done <+: .create (directory.child (temporaryName page.id)) ::
      pieces.map (.append (directory.child (temporaryName page.id))))
    (performed : done.perform disk = (.ok (), after)) :
    page.naming directory ∉ done ∧
      (after = disk ∨ ∃ part, page.Begun directory place disk part after) := by
  rcases List.prefix_cons_iff.mp front with rfl | ⟨appends, rfl, part⟩
  · obtain ⟨-, rfl⟩ := Prod.mk.inj performed
    exact ⟨List.not_mem_nil, .inl rfl⟩
  · obtain ⟨count, rfl⟩ : ∃ count, appends = (pieces.take count).map
        (.append (directory.child (temporaryName page.id))) :=
      ⟨_, (List.prefix_iff_eq_take.mp part).trans List.map_take.symm⟩
    refine ⟨?_, .inr ⟨pieces.take count, begun_of_perform opens performed⟩⟩
    simp only [naming, List.mem_cons, List.mem_map, reduceCtorEq, and_false, exists_false, or_self,
      not_false_eq_true]

/-- Writing a page stops before its first step, while the temporary file is being written, or after
the last step, and only then has the page got its name. -/
theorem cases_of_stops (opens : disk.Opens directory place)
    (stops : (page.steps model directory pieces).Stops disk done after) :
    (page.naming directory ∉ done ∧ done ≠ page.steps model directory pieces ∧
      (after = disk ∨ ∃ part, page.Begun directory place disk part after)) ∨
    (page.naming directory ∈ done ∧ done = page.steps model directory pieces ∧
      page.size < countLimit ∧ (page.image model).refusal = none ∧
      page.Published directory place disk pieces.flatten after) := by
  obtain ⟨front, performed⟩ := stops
  unfold steps at front ⊢
  split at front
  · -- The page is too large.
    rename_i large
    rcases List.prefix_concat_iff.mp (show done <+: [] ++ [_] from front) with rfl | none
    · obtain ⟨middle, refused, -⟩ := Plan.perform_cons_eq_ok_iff.mp performed
      cases refused
    · obtain rfl := List.prefix_nil.mp none
      obtain ⟨-, rfl⟩ := Prod.mk.inj performed
      exact .inl ⟨List.not_mem_nil, by rw [if_pos large]; simp, .inl rfl⟩
  · rename_i small
    rw [if_neg small]
    -- A proper part of all steps has fewer of them.
    have short {steps last : Plan} (part : done <+: steps) (more : last ≠ []) :
        done ≠ steps ++ last := by
      rintro rfl
      have length := part.length_le
      rw [List.length_append] at length
      exact more (List.length_eq_zero_iff.mp (by omega))
    rcases closingPlan_cases model page directory with ⟨cause, closing⟩ | ⟨accepted, closing⟩
    all_goals rw [closing] at front ⊢
    · rcases List.prefix_concat_iff.mp front with rfl | before
      · obtain ⟨middle, -, refused⟩ := Plan.perform_concat_eq_ok_iff.mp performed
        cases refused
      · obtain ⟨unnamed, begun⟩ := begun_of_prefix opens before performed
        exact .inl ⟨unnamed, short before (by simp), begun⟩
    · rw [List.append_cons] at front ⊢
      rcases List.prefix_concat_iff.mp front with rfl | before
      · obtain ⟨middle, synced, renamed⟩ := Plan.perform_concat_eq_ok_iff.mp performed
        obtain ⟨_, begun, ⟨rfl⟩⟩ := Plan.perform_concat_eq_ok_iff.mp synced
        exact .inr ⟨by simp, rfl, Nat.lt_of_not_le small, accepted,
          (begun_of_perform opens begun).publish opens renamed⟩
      · have rest := short before (List.cons_ne_nil (page.naming directory) [])
        rcases List.prefix_concat_iff.mp before with rfl | before
        · obtain ⟨_, begun, ⟨rfl⟩⟩ := Plan.perform_concat_eq_ok_iff.mp performed
          exact .inl ⟨by simp [naming], rest, .inr ⟨pieces, begun_of_perform opens begun⟩⟩
        · obtain ⟨unnamed, begun⟩ := begun_of_prefix opens before performed
          exact .inl ⟨unnamed, rest, begun⟩

theorem naming_mem_iff (opens : disk.Opens directory place)
    (stops : (page.steps model directory pieces).Stops disk done after) :
    page.naming directory ∈ done ↔ done = page.steps model directory pieces := by
  rcases cases_of_stops opens stops with ⟨unnamed, rest, -⟩ | ⟨named, all, -⟩
  · exact iff_of_false unnamed rest
  · exact iff_of_true named all

/-- Wherever writing a page stops, nothing but its two files has changed. -/
theorem changes_of_stops (opens : disk.Opens directory place)
    (stops : (page.steps model directory pieces).Stops disk done after) :
    disk.Changes (page.Touched place) after := by
  rcases cases_of_stops opens stops with
    ⟨-, -, rfl | ⟨part, begun⟩⟩ | ⟨-, -, -, -, published⟩
  · exact .refl _ _
  · exact begun.changes.mono fun _ => .inl
  · exact published.changes

/-- Writing a page comes to an end where its steps stop, and it succeeds exactly if the page has got
its name. -/
theorem exists_stops_of_write {result : Except Failure Path} (opens : disk.Opens directory place)
    (written : page.write model directory disk = (result, after)) :
    ∃ done, (page.steps model directory [(page.image model).bytes]).Stops disk done after ∧
      ((∃ path, result = .ok path) ↔ page.naming directory ∈ done) := by
  rw [write_eq_perform_steps] at written
  rcases performed : (page.steps model directory [(page.image model).bytes]).perform disk with
    ⟨outcome, halted⟩
  obtain ⟨done, stops, complete⟩ := Plan.exists_stops_of_perform performed
  rw [← naming_mem_iff opens stops] at complete
  rw [performed] at written
  cases outcome with
  | ok success =>
    obtain ⟨rfl, rfl⟩ := Prod.mk.inj written
    exact ⟨done, stops, by simpa using complete⟩
  | error blame =>
    obtain ⟨rfl, rfl⟩ := Prod.mk.inj written
    exact ⟨done, stops, by simpa using complete⟩

end Page

end Wavefront
