/-
# Pages in directories that mirror each other

A frontier finds, keeps and refuses the same pages in directories that mirror each other. Only the
paths in failures tell the directories apart, and `Failure.Moved` says that they do not differ in
anything else.
-/

import Wavefront.Frontier.Dequeue
import Wavefront.Proofs.Disk.Mirrors

namespace Wavefront

variable {σ : Type} {model : Model σ} {left right : Site} {disk mirror : Disk} {page : Page σ}

/-! ## Failures -/

/-- The same failure, but for the directory in its path. -/
inductive Failure.Moved (left right : Path) : Failure → Failure → Prop where
  | same (failure : Failure) : Moved left right failure failure
  | pageRead (name : String) (reason : Reason) :
      Moved left right (.pageRead (left.child name) reason) (.pageRead (right.child name) reason)
  | pageWrite (name : String) (reason : Reason) :
      Moved left right (.pageWrite (left.child name) reason) (.pageWrite (right.child name) reason)
  | trace (worker : UInt16) (offset : UInt64) (name : String) :
      Moved left right (.trace worker (.io (.noRecord offset (left.child name))))
        (.trace worker (.io (.noRecord offset (right.child name))))

/-- The same stop, but for the directory in the path of a failure. -/
inductive Stop.Moved (left right : Path) : Stop → Stop → Prop where
  | failure {failure failure' : Failure} (moved : failure.Moved left right failure') :
      Moved left right (.failure failure) (.failure failure')
  | fault (fault : Fault) : Moved left right (.fault fault) (.fault fault)

/-- A failure of the model names no directory of a run. -/
theorem Failure.Moved.eq_of_isOfModel {left right : Path} {failure failure' : Failure}
    (moved : failure.Moved left right failure') (own : failure.isOfModel = true) :
    failure' = failure := by
  cases moved with
  | same => rfl
  | pageRead | pageWrite | trace => cases own

theorem Failure.Moved.isOfModel_eq {left right : Path} {failure failure' : Failure}
    (moved : failure.Moved left right failure') : failure'.isOfModel = failure.isOfModel := by
  cases moved <;> rfl

namespace Alike

variable {ε ε' α β : Type} {fails : ε → ε' → Prop} {answers : α → β → Prop}
  {result : Except Failure α} {result' : Except Failure α}

/-- Results whose failures are moved are stops that are moved. -/
theorem mapError_failure {left right : Path}
    (alike : Alike (Failure.Moved left right) Eq result result') :
    Alike (Stop.Moved left right) Eq (result.mapError .failure) (result'.mapError .failure) := by
  cases alike with
  | error alike => exact .error (.failure alike)
  | ok alike => exact .ok alike

end Alike

/-! ## Page files -/

namespace Page

theorem plain_fileName (id : PageId) : Disk.Plain (fileName id) :=
  Spill.plain_of_isPageFile (Spill.isPageFile_fileName id)

theorem plain_temporaryName (id : PageId) : Disk.Plain (temporaryName id) :=
  Spill.plain_of_isPageFile (Spill.isPageFile_temporaryName id)

theorem writePlan_mirrors (model : Model σ) (page : Page σ) (left right : Path) :
    List.Forall₂ (FileStep.Mirrors left right) (page.writePlan model left)
      (page.writePlan model right) := by
  refine .cons (.create (plain_temporaryName _)) (.cons (.append (plain_temporaryName _)) ?_)
  unfold closingPlan
  cases (page.image model).refusal with
  | some cause => exact .cons .refuse .nil
  | none => exact .cons .sync (.cons (.rename (plain_temporaryName _) (plain_fileName _)) .nil)

theorem write_mirrors (model : Model σ) (page : Page σ) (mirrors : disk.Mirrors left right mirror) :
    Alike (Failure.Moved left.path right.path) (fun _ _ => True)
      (page.write model left.path disk).1 (page.write model right.path mirror).1 ∧
    (page.write model left.path disk).2.Mirrors left right
      (page.write model right.path mirror).2 := by
  unfold write
  split
  · exact ⟨.error (.pageWrite _ _), mirrors⟩
  · obtain ⟨alike, after⟩ :=
      Plan.perform_mirrors (writePlan_mirrors model page left.path right.path) mirrors
    generalize Plan.perform (page.writePlan model left.path) disk = performed at alike after ⊢
    generalize Plan.perform (page.writePlan model right.path) mirror = performed' at alike after ⊢
    obtain ⟨result, final⟩ := performed
    obtain ⟨result', final'⟩ := performed'
    dsimp only at alike
    cases alike with
    | @error blame blame' alike =>
      obtain ⟨path, cause⟩ := blame
      obtain ⟨path', cause'⟩ := blame'
      obtain ⟨rfl, name, rfl, rfl⟩ := alike
      exact ⟨.error (.pageWrite _ _), after⟩
    | ok alike => exact ⟨.ok trivial, after⟩

theorem read_mirrors (model : Model σ) (id : PageId) (capacity : Nat)
    (mirrors : disk.Mirrors left right mirror) :
    Alike (Failure.Moved left.path right.path) Eq
      (read model (left.path.child (fileName id)) id capacity disk).1
      (read model (right.path.child (fileName id)) id capacity mirror).1 ∧
    (read model (left.path.child (fileName id)) id capacity disk).2.Mirrors left right
      (read model (right.path.child (fileName id)) id capacity mirror).2 := by
  unfold read
  rw [mirrors.read_eq (plain_fileName id)]
  cases disk.read (left.path.child (fileName id)) with
  | error cause => exact ⟨.error (.pageRead _ _), mirrors⟩
  | ok bytes =>
    simp only
    cases ofImage model id capacity bytes with
    | error reason => exact ⟨.error (.pageRead _ _), mirrors⟩
    | ok page =>
      simp only
      have removed := mirrors.remove (plain_fileName id)
      generalize disk.remove _ = result at removed ⊢
      generalize mirror.remove _ = result' at removed ⊢
      cases removed with
      | error alike =>
        subst alike
        exact ⟨.error (.pageRead _ _), mirrors⟩
      | ok alike => exact ⟨.ok rfl, alike⟩

end Page

/-! ## Frontiers -/

namespace Spill

theorem put_mirrors (model : Model σ) (page : Page σ) (mirrors : disk.Mirrors left right mirror) :
    Alike (Failure.Moved left.path right.path) Eq
      (put ⟨left.path⟩ model page disk).1 (put ⟨right.path⟩ model page mirror).1 ∧
    (put ⟨left.path⟩ model page disk).2.Mirrors left right
      (put ⟨right.path⟩ model page mirror).2 := by
  obtain ⟨alike, after⟩ := Page.write_mirrors model page mirrors
  unfold put
  generalize page.write model left.path disk = written at alike after ⊢
  generalize page.write model right.path mirror = written' at alike after ⊢
  obtain ⟨result, final⟩ := written
  obtain ⟨result', final'⟩ := written'
  dsimp only at alike
  cases alike with
  | error alike => exact ⟨.error alike, after⟩
  | ok => exact ⟨.ok rfl, after⟩

theorem take_mirrors (model : Model σ) (id : PageId) (capacity : Nat)
    (mirrors : disk.Mirrors left right mirror) :
    Alike (Failure.Moved left.path right.path) Eq
      (take ⟨left.path⟩ model id capacity disk).1 (take ⟨right.path⟩ model id capacity mirror).1 ∧
    (take ⟨left.path⟩ model id capacity disk).2.Mirrors left right
      (take ⟨right.path⟩ model id capacity mirror).2 := by
  unfold take
  dsimp only
  rw [mirrors.exists?_eq (Page.plain_fileName id)]
  split
  · obtain ⟨read, after⟩ := Page.read_mirrors model id capacity mirrors
    generalize Page.read model (left.path.child _) id capacity disk = taken at read after ⊢
    generalize Page.read model (right.path.child _) id capacity mirror = taken' at read after ⊢
    obtain ⟨result, final⟩ := taken
    obtain ⟨result', final'⟩ := taken'
    dsimp only at read
    cases read with
    | error alike => exact ⟨.error alike, after⟩
    | ok same => exact ⟨.ok (congrArg some same), after⟩
  · exact ⟨.ok rfl, mirrors⟩

end Spill

namespace Frontier

/-- A frontier with the same pages in memory, that spills to another directory. -/
def moved (frontier : Frontier σ) (path : Path) : Frontier σ := { frontier with spill := ⟨path⟩ }

variable {frontier : Frontier σ}

theorem enqueue_mirrors (model : Model σ) (page : Page σ)
    (spills : frontier.spill.directory = left.path) (mirrors : disk.Mirrors left right mirror) :
    Alike (Stop.Moved left.path right.path) Eq (frontier.enqueue model page disk).1
      ((frontier.moved right.path).enqueue model page mirror).1 ∧
    ((frontier.moved right.path).enqueue model page mirror).2.1 =
      (frontier.enqueue model page disk).2.1.moved right.path ∧
    (frontier.enqueue model page disk).2.2.Mirrors left right
      ((frontier.moved right.path).enqueue model page mirror).2.2 := by
  unfold enqueue
  split
  · exact ⟨.error (.fault _), rfl, mirrors⟩
  · have alike : (frontier.moved right.path).keepsInMemory page.id =
        frontier.keepsInMemory page.id := rfl
    rw [alike]
    split
    · refine ⟨?_, rfl, mirrors⟩
      show Alike _ _ ((frontier.memory.put page).1.mapError Stop.fault)
        ((frontier.memory.put page).1.mapError Stop.fault)
      cases (frontier.memory.put page).1 with
      | error fault => exact .error (.fault _)
      | ok done => exact .ok rfl
    · obtain ⟨put, after⟩ := Spill.put_mirrors model page mirrors
      have same : frontier.spill = ⟨left.path⟩ := by rw [← spills]
      rw [same]
      exact ⟨put.mapError_failure, rfl, after⟩

theorem enqueueNode_mirrors (model : Model σ) (node : Node σ)
    (spills : frontier.spill.directory = left.path) (mirrors : disk.Mirrors left right mirror) :
    Alike (Stop.Moved left.path right.path) Eq (frontier.enqueueNode model node disk).1
      ((frontier.moved right.path).enqueueNode model node mirror).1 ∧
    ((frontier.moved right.path).enqueueNode model node mirror).2.1 =
      (frontier.enqueueNode model node disk).2.1.moved right.path ∧
    (frontier.enqueueNode model node disk).2.2.Mirrors left right
      ((frontier.moved right.path).enqueueNode model node mirror).2.2 := by
  have claimed : (frontier.moved right.path).claim =
      (frontier.claim.1, frontier.claim.2.moved right.path) := rfl
  unfold enqueueNode
  rw [claimed]
  dsimp only
  cases frontier.claim.1.add node with
  | error fault => exact ⟨.error (.fault _), rfl, mirrors⟩
  | ok page =>
    have spills' : frontier.claim.2.spill.directory = left.path := spills
    exact enqueue_mirrors model page spills' mirrors

theorem take_mirrors (model : Model σ) (id : PageId)
    (spills : frontier.spill.directory = left.path) (mirrors : disk.Mirrors left right mirror) :
    Alike (Failure.Moved left.path right.path) Eq (frontier.take model id disk).1
      ((frontier.moved right.path).take model id mirror).1 ∧
    ((frontier.moved right.path).take model id mirror).2.1 =
      (frontier.take model id disk).2.1.moved right.path ∧
    (frontier.take model id disk).2.2.Mirrors left right
      ((frontier.moved right.path).take model id mirror).2.2 := by
  have alike : (frontier.moved right.path).keepsInMemory id = frontier.keepsInMemory id := rfl
  unfold take
  rw [alike]
  split
  · exact ⟨.ok rfl, rfl, mirrors⟩
  · have same : frontier.spill = ⟨left.path⟩ := by rw [← spills]
    rw [same]
    obtain ⟨taken, after⟩ := Spill.take_mirrors model id (frontier.sizing.capacity id) mirrors
    exact ⟨taken, rfl, after⟩

end Frontier

end Wavefront
