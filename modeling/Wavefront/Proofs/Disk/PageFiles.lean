/-
# Pages and their files

A page that is written whole is read back as it was, provided that the states on it
can be restored. Writing a page touches the file of that page and the temporary file
next to it, and nothing else; a write that fails leaves the file of the page alone.
-/

import Wavefront.Proofs.Disk.Stops

namespace Wavefront

variable {σ : Type}

/-- A state is written without a refusal and read back whole, whatever follows it. -/
def Model.Restores (model : Model σ) (state : σ) : Prop :=
  ∀ rest, (model.encode state).refusal = none ∧
    model.decode ((model.encode state).bytes ++ rest) = .ok (state, rest)

theorem Model.Lossless.restores {model : Model σ} (lossless : model.Lossless) (state : σ) :
    model.Restores state :=
  fun rest => lossless state rest

/-- If a state is written without a refusal and something is read back, then it is the state and
what follows it. Writing may be refused, and reading may fail. -/
def Model.Faithful (model : Model σ) (state : σ) : Prop :=
  (model.encode state).refusal = none → ∀ rest other after,
    model.decode ((model.encode state).bytes ++ rest) = .ok (other, after) →
      other = state ∧ after = rest

theorem Model.Restores.faithful {model : Model σ} {state : σ} (restores : model.Restores state) :
    model.Faithful state := by
  intro _ rest other after read
  have same := Except.ok.inj ((restores rest).2.symm.trans read)
  simp only [Prod.mk.injEq] at same
  exact ⟨same.1.symm, same.2.symm⟩

namespace Page

variable {model : Model σ} {directory : Path} {place : Location} {disk after : Disk}

/-! ## Images -/

/-- Nodes whose states can be restored are read back in order, whatever follows them. -/
theorem decodeNodes_encodeNodes {nodes : List (Node σ)}
    (restores : ∀ node ∈ nodes, model.Restores node.state) (count index : Nat) (rest : Bytes) :
    decodeNodes model count index nodes.length ((encodeNodes model nodes).bytes ++ rest) =
      .ok (nodes, rest) := by
  induction nodes generalizing index with
  | nil => rfl
  | cons node later ih =>
    have here : (node.encode model).refusal = none :=
      ((restores node List.mem_cons_self) []).1
    have split : (encodeNodes model (node :: later)).bytes ++ rest =
        (node.encode model).bytes ++ ((encodeNodes model later).bytes ++ rest) := by
      simp [encodeNodes_cons, Written.append, here]
    have first := Node.decode_encode_append model node
      ((encodeNodes model later).bytes ++ rest) (restores node List.mem_cons_self _).2
    rw [split, List.length_cons, decodeNodes, first]
    simp only
    rw [ih fun other member => restores other (List.mem_cons_of_mem _ member)]

/-- A list of nodes is written without a refusal if all of them are. -/
theorem refusal_encodeNodes_cons {node : Node σ} {later : List (Node σ)} :
    (encodeNodes model (node :: later)).refusal = none ↔
      (model.encode node.state).refusal = none ∧ (encodeNodes model later).refusal = none := by
  rw [encodeNodes_cons, Written.append]
  cases refused : (node.encode model).refusal with
  | some cause =>
    have same : (model.encode node.state).refusal = some cause := refused
    simp [refused, same]
  | none =>
    have same : (model.encode node.state).refusal = none := refused
    simp [same]

/-- If nodes are written without a refusal and as many are read back, they are the same nodes. -/
theorem eq_of_decodeNodes {nodes found : List (Node σ)} {count index : Nat} {rest after : Bytes}
    (faithful : ∀ node ∈ nodes, model.Faithful node.state)
    (written : (encodeNodes model nodes).refusal = none)
    (read : decodeNodes model count index nodes.length ((encodeNodes model nodes).bytes ++ rest) =
      .ok (found, after)) : found = nodes := by
  induction nodes generalizing index found after with
  | nil =>
    simp only [List.length_nil, decodeNodes, Except.ok.injEq, Prod.mk.injEq] at read
    exact read.1.symm
  | cons node later ih =>
    obtain ⟨own, others⟩ := refusal_encodeNodes_cons.mp written
    have here : (node.encode model).refusal = none := own
    have split : (encodeNodes model (node :: later)).bytes ++ rest =
        (node.encode model).bytes ++ ((encodeNodes model later).bytes ++ rest) := by
      simp [encodeNodes_cons, Written.append, here]
    rw [split, List.length_cons, decodeNodes, Node.decode_encode] at read
    cases decoded : model.decode ((model.encode node.state).bytes ++
        ((encodeNodes model later).bytes ++ rest)) with
    | error cause => simp [decoded] at read
    | ok pair =>
      obtain ⟨state, left⟩ := pair
      obtain ⟨rfl, rfl⟩ := faithful node List.mem_cons_self own _ _ _ decoded
      simp only [decoded] at read
      cases more : decodeNodes model count (index + 1) later.length
          ((encodeNodes model later).bytes ++ rest) with
      | error reason => simp [more] at read
      | ok pair =>
        obtain ⟨nodes, last⟩ := pair
        simp only [more, Except.ok.injEq, Prod.mk.injEq] at read
        obtain rfl := ih (fun other member => faithful other (List.mem_cons_of_mem _ member))
          others more
        exact read.1.symm

/-- What is read of the image of a page depends on what is read of its nodes. -/
theorem ofImage_image_eq {page : Page σ} (small : page.size < countLimit) (id : PageId)
    (capacity : Nat) :
    ofImage model id capacity (page.image model).bytes =
      if page.size = 0 ∨ capacity < page.size then .error (.nodeCount id page.size capacity)
      else
        match decodeNodes model page.size 0 page.nodes.toList.length
          ((encodeNodes model page.nodes.toList).bytes ++ []) with
        | .error reason => .error reason
        | .ok (nodes, _) => .ok ⟨id, capacity, nodes.toArray⟩ := by
  have cut : Bytes.take? 4 (page.image model).bytes =
      some (Bytes.ofNat 4 page.size, (encodeNodes model page.nodes.toList).bytes ++ []) := by
    rw [Bytes.take?_eq_some_iff]
    exact ⟨Bytes.length_ofNat 4 _, by simp [image]⟩
  have counted : Bytes.toNat (Bytes.ofNat 4 page.size) = page.size :=
    Bytes.toNat_ofNat_of_lt small
  rw [ofImage, cut]
  simp only [counted]
  rfl

/-- The image of a page that is neither empty nor over its capacity gives the page back. -/
theorem ofImage_image {page : Page σ} (restores : ∀ node ∈ page.nodes, model.Restores node.state)
    (nonempty : 0 < page.size) (room : page.size ≤ page.capacity) (small : page.size < countLimit) :
    ofImage model page.id page.capacity (page.image model).bytes = .ok page := by
  have restores' : ∀ node ∈ page.nodes.toList, model.Restores node.state :=
    fun node member => restores node (Array.mem_toList_iff.mp member)
  have fits : ¬ (page.size = 0 ∨ page.capacity < page.size) := by omega
  rw [ofImage_image_eq small, if_neg fits, decodeNodes_encodeNodes restores']

/-- If the image of a page was written without a refusal, nothing but the page is read back. -/
theorem eq_of_ofImage {page answer : Page σ} {capacity : Nat} (same : page.capacity = capacity)
    (faithful : ∀ node ∈ page.nodes, model.Faithful node.state)
    (written : (page.image model).refusal = none) (small : page.size < countLimit)
    (read : ofImage model page.id capacity (page.image model).bytes = .ok answer) :
    answer = page := by
  have faithful' : ∀ node ∈ page.nodes.toList, model.Faithful node.state :=
    fun node member => faithful node (Array.mem_toList_iff.mp member)
  rw [ofImage_image_eq small] at read
  split at read
  · cases read
  · split at read
    · cases read
    · rename_i decoded
      obtain rfl := eq_of_decodeNodes faithful' written decoded
      rw [← Except.ok.inj read, ← same]

theorem length_of_decodeNodes {count index todo : Nat} {input rest : Bytes} {nodes : List (Node σ)}
    (read : decodeNodes model count index todo input = .ok (nodes, rest)) :
    nodes.length = todo := by
  induction todo generalizing index input nodes rest with
  | zero =>
    simp only [decodeNodes, Except.ok.injEq, Prod.mk.injEq] at read
    rw [← read.1, List.length_nil]
  | succ todo ih =>
    unfold decodeNodes at read
    split at read
    · cases read
    · split at read
      · cases read
      · rename_i later
        simp only [Except.ok.injEq, Prod.mk.injEq] at read
        rw [← read.1, List.length_cons, ih later]

/-- Whatever is read as a page holds something, and no more than a page of its number may. -/
theorem size_of_ofImage {id : PageId} {capacity : Nat} {input : Bytes} {answer : Page σ}
    (read : ofImage model id capacity input = .ok answer) :
    0 < answer.size ∧ answer.size ≤ capacity := by
  unfold ofImage at read
  split at read
  · cases read
  · dsimp only at read
    split at read
    · cases read
    · split at read
      · cases read
      · rename_i decoded
        obtain rfl := Except.ok.inj read
        have length := length_of_decodeNodes decoded
        simp only [size, List.size_toArray]
        omega

/-! ## Writing -/

/-- A location that holds nothing, or a file that its path leads to. -/
def Removable (directory : Path) (place : Location) (disk : Disk) (name : String) : Prop :=
  disk.get? (place ++ [name]) = none ∨
    ∃ stamp bytes, disk.get? (place ++ [name]) = some (.file stamp bytes) ∧
      disk.locate (directory.child name) = .ok (place ++ [name])

theorem Removable.of_changes {touched : Location → Prop} {name : String}
    (removable : Removable directory place disk name) (changes : disk.Changes touched after)
    (apart : ¬ touched (place ++ [name])) : Removable directory place after name := by
  unfold Removable
  rw [changes.elsewhere _ apart]
  rcases removable with vacant | ⟨stamp, bytes, held, located⟩
  · exact .inl vacant
  · exact .inr ⟨stamp, bytes, held, changes.locate_iff.mpr located⟩

/-- A page that was written whole lies under its own name, and its temporary file is gone. -/
theorem write_eq_ok {page : Page σ} {path : Path} (opens : disk.Opens directory place)
    (written : page.write model directory disk = (.ok path, after)) :
    page.size < countLimit ∧ (page.image model).refusal = none ∧
      disk.Changes (page.Touched place) after ∧
      disk.locate (directory.child (fileName page.id)) = .ok (place ++ [fileName page.id]) ∧
      (∃ stamp, after.get? (place ++ [fileName page.id]) =
        some (.file stamp (page.image model).bytes)) ∧
      after.get? (place ++ [temporaryName page.id]) = none := by
  obtain ⟨done, stops, named⟩ := exists_stops_of_write opens written
  rcases cases_of_stops opens stops with ⟨unnamed, -⟩ | ⟨-, -, small, accepted, published⟩
  · exact absurd (named.mp ⟨path, rfl⟩) unnamed
  · rw [List.flatten_singleton] at published
    exact ⟨small, accepted, published.changes, published.located, published.file, published.gone⟩

/-- What is found of a temporary file before, while and after it is written. -/
def Drafted (page : Page σ) (directory : Path) (place : Location) (disk after : Disk) : Prop :=
  disk.Changes (· = place ++ [temporaryName page.id]) after ∧
    Removable directory place after (temporaryName page.id)

/-- A write that stops before the page has got its name touches the temporary file at most, and
leaves it removable. -/
theorem drafted_of_stops {page : Page σ} {pieces : List Bytes} {done : Plan}
    (opens : disk.Opens directory place)
    (removable : Removable directory place disk (temporaryName page.id))
    (stops : (page.steps model directory pieces).Stops disk done after)
    (unnamed : page.naming directory ∉ done) : page.Drafted directory place disk after := by
  rcases cases_of_stops opens stops with ⟨-, -, rfl | ⟨part, begun⟩⟩ | ⟨named, -⟩
  · exact ⟨.refl _ _, removable⟩
  · obtain ⟨stamp, drafted⟩ := begun.drafted
    exact ⟨begun.changes, .inr ⟨stamp, _, drafted, begun.changes.locate_iff.mpr begun.located⟩⟩
  · exact absurd named unnamed

/-- So does a write one of whose steps is refused. -/
theorem drafted_of_refuseAt {page : Page σ} {number : Nat} {cause : IoError}
    {blame : Path × IoError} (opens : disk.Opens directory place)
    (removable : Removable directory place disk (temporaryName page.id))
    (small : page.size < countLimit)
    (failed : ((page.writePlan model directory).refuseAt number cause).perform disk =
      (.error blame, after)) : page.Drafted directory place disk after := by
  rw [← steps_eq_writePlan small] at failed
  obtain ⟨done, stops, complete⟩ := Plan.exists_stops_of_refuseAt failed
  rw [← naming_mem_iff opens stops] at complete
  exact drafted_of_stops opens removable stops (by simpa using complete)

/-- A write that fails touches the temporary file at most, and leaves it removable. -/
theorem write_eq_error {page : Page σ} {failure : Failure} (opens : disk.Opens directory place)
    (removable : Removable directory place disk (temporaryName page.id))
    (written : page.write model directory disk = (.error failure, after)) :
    page.Drafted directory place disk after := by
  obtain ⟨done, stops, named⟩ := exists_stops_of_write opens written
  exact drafted_of_stops opens removable stops (by simpa using named)

/-! ## Reading -/

/-- Reading a file is reading its bytes, and taking the file away if they are those of a page. -/
theorem read_of_file {path : Path} {stamp : Nat} {bytes : Bytes} (model : Model σ) (id : PageId)
    (capacity : Nat) (located : disk.locate path = .ok place)
    (stored : disk.get? place = some (.file stamp bytes)) :
    Page.read model path id capacity disk =
      match ofImage model id capacity bytes with
      | .error reason => (.error (.pageRead path reason), disk)
      | .ok page => (.ok page, disk.unset place) := by
  have read := Disk.read_eq_ok_iff.mpr ⟨place, stamp, located, stored⟩
  have removed := Disk.remove_eq_ok_iff.mpr ⟨place, stamp, bytes, located, stored, rfl⟩
  simp only [Page.read, read]
  cases ofImage model id capacity bytes with
  | error reason => rfl
  | ok page => simp only [removed]

end Page

/-- Taking a page whose file is there is reading the file. -/
theorem Spill.take_of_file {spill : Spill} {id : PageId} {disk : Disk} {place : Location}
    {stamp : Nat} {bytes : Bytes} (model : Model σ) (capacity : Nat)
    (located : disk.locate (spill.directory.child (Page.fileName id)) = .ok place)
    (stored : disk.get? place = some (.file stamp bytes)) :
    spill.take model id capacity disk =
      match Page.ofImage model id capacity bytes with
      | .error reason =>
          (.error (.pageRead (spill.directory.child (Page.fileName id)) reason), disk)
      | .ok page => (.ok (some page), disk.unset place) := by
  have there : disk.exists? (spill.directory.child (Page.fileName id)) = true :=
    Disk.exists?_eq_true_iff.mpr ⟨_, _, located, stored⟩
  have read := Page.read_of_file model id capacity located stored
  cases found : Page.ofImage model id capacity bytes with
  | error reason => simp only [Spill.take, if_pos there, read, found]
  | ok page => simp only [Spill.take, if_pos there, read, found]

end Wavefront
