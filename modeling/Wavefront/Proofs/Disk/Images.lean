/-
# What is read as a page

A byte string is read as a page exactly if it begins with a count and as many nodes, and what
is read is then determined by the bytes. `Spells` says so without a reader: it relates nodes to
the bytes that spell them and to what is left. Everything else about reading follows from it,
among other things that a page file that was cut short is not taken for a smaller page.
-/

import Wavefront.CounterGrid
import Wavefront.Proofs.Disk.Writing

namespace Wavefront

variable {σ : Type}

/-! ## Words, references and nodes -/

namespace Bytes

/-- A number that was read is written as the bytes it was read from. -/
theorem ofNat_toNat {word : Bytes} {width : Nat} (length : word.length = width) :
    ofNat width (toNat word) = word := by
  subst length
  induction word with
  | nil => rfl
  | cons byte rest ih =>
    have low : (byte.toNat + 256 * toNat rest) % 256 = byte.toNat := by
      rw [Nat.add_mul_mod_self_left]
      exact Nat.mod_eq_of_lt byte.toNat_lt
    have high : (byte.toNat + 256 * toNat rest) / 256 = toNat rest := by
      rw [Nat.add_mul_div_left _ _ (by decide), Nat.div_eq_of_lt byte.toNat_lt, Nat.zero_add]
    rw [List.length_cons, toNat, ofNat, low, high, ih, UInt8.ofNat_toNat]

theorem toNat_lt {word : Bytes} {width : Nat} (length : word.length = width) :
    toNat word < 256 ^ width := by
  subst length
  induction word with
  | nil => exact Nat.one_pos
  | cons byte rest ih =>
    have small := byte.toNat_lt
    rw [toNat, List.length_cons, Nat.pow_succ']
    omega

end Bytes

/-- A reference is read from the bytes that it is written as, and from no others. -/
theorem Uid.decode_eq_ok_iff {input rest : Bytes} {uid : Uid} :
    Uid.decode input = .ok (uid, rest) ↔ input = uid.encode ++ rest := by
  constructor
  · intro read
    unfold Uid.decode at read
    split at read
    · cases read
    · rename_i word left cut
      obtain ⟨length, rfl⟩ := Bytes.take?_eq_some_iff.mp cut
      simp only [Except.ok.injEq, Prod.mk.injEq] at read
      obtain ⟨rfl, rfl⟩ := read
      have low : (word.take 2).length = 2 := by rw [List.length_take, length]; rfl
      have high : (word.drop 2).length = 8 := by rw [List.length_drop, length]
      have small : Bytes.toNat (word.take 2) < 2 ^ 16 := Bytes.toNat_lt low
      have large : Bytes.toNat (word.drop 2) < 2 ^ 64 := Bytes.toNat_lt high
      rw [Uid.encode, UInt16.toNat_ofNat', UInt64.toNat_ofNat', Nat.mod_eq_of_lt small,
        Nat.mod_eq_of_lt large, Bytes.ofNat_toNat low, Bytes.ofNat_toNat high,
        List.take_append_drop]
  · rintro rfl
    exact Uid.decode_encode uid rest

/-- A node is read from four bytes of level, ten of reference, and what the model reads as its
state. -/
theorem Node.decode_eq_ok_iff {model : Model σ} {input rest : Bytes} {node : Node σ} :
    Node.decode model input = .ok (node, rest) ↔
      ∃ body, input = Bytes.ofNat 4 node.level.toNat ++ (node.uid.encode ++ body) ∧
        model.decode body = .ok (node.state, rest) := by
  constructor
  · intro read
    unfold Node.decode at read
    split at read
    · cases read
    · rename_i word left cut
      obtain ⟨length, rfl⟩ := Bytes.take?_eq_some_iff.mp cut
      split at read
      · cases read
      · rename_i uid body found
        obtain rfl := Uid.decode_eq_ok_iff.mp found
        split at read
        · cases read
        · rename_i state after decoded
          simp only [Except.ok.injEq, Prod.mk.injEq] at read
          obtain ⟨rfl, rfl⟩ := read
          have small : Bytes.toNat word < 2 ^ 32 := Bytes.toNat_lt length
          refine ⟨body, ?_, decoded⟩
          rw [UInt32.toNat_ofNat', Nat.mod_eq_of_lt small, Bytes.ofNat_toNat length]
  · rintro ⟨body, rfl, decoded⟩
    have cut : Bytes.take? 4 (Bytes.ofNat 4 node.level.toNat ++ (node.uid.encode ++ body)) =
        some (Bytes.ofNat 4 node.level.toNat, node.uid.encode ++ body) :=
      Bytes.take?_eq_some_iff.mpr ⟨Bytes.length_ofNat 4 _, rfl⟩
    have small : node.level.toNat < Nat.pow 256 4 := node.level.toNat_lt
    simp only [Node.decode, cut, Uid.decode_encode, decoded, Bytes.toNat_ofNat_of_lt small,
      UInt32.ofNat_toNat]

/-- The states of a counter grid are read from the bytes that they are written as, and from no
others. -/
theorem GridState.decode_eq_ok_iff {input rest : Bytes} {state : GridState} :
    GridState.decode input = .ok (state, rest) ↔ input = state.encode.bytes ++ rest := by
  constructor
  · intro read
    unfold GridState.decode at read
    split at read
    · cases read
    · rename_i x left cut
      obtain ⟨length, rfl⟩ := Bytes.take?_eq_some_iff.mp cut
      split at read
      · cases read
      · rename_i y after cut'
        obtain ⟨length', rfl⟩ := Bytes.take?_eq_some_iff.mp cut'
        simp only [Except.ok.injEq, Prod.mk.injEq] at read
        obtain ⟨rfl, rfl⟩ := read
        have small : Bytes.toNat x < 2 ^ 32 := Bytes.toNat_lt length
        have small' : Bytes.toNat y < 2 ^ 32 := Bytes.toNat_lt length'
        rw [GridState.encode, Written.ofBytes, UInt32.toNat_ofNat', UInt32.toNat_ofNat',
          Nat.mod_eq_of_lt small, Nat.mod_eq_of_lt small', Bytes.ofNat_toNat length,
          Bytes.ofNat_toNat length', List.append_assoc]
  · rintro rfl
    exact GridState.decode_encode_append state rest

/-! ## Codecs -/

/-- Whatever is read as a state is written as the bytes that it was read from. -/
def Model.Undoes (model : Model σ) : Prop :=
  ∀ input state rest, model.decode input = .ok (state, rest) →
    (model.encode state).refusal = none ∧ input = (model.encode state).bytes ++ rest

/-- What a state is written as has an end of its own: nothing is read from only a part of it, and
what is read from all of it, whatever follows, stops there. -/
structure Model.Delimits (model : Model σ) (state : σ) : Prop where
  cut : ∀ part, part <+: (model.encode state).bytes → part ≠ (model.encode state).bytes →
    ∃ cause, model.decode part = .error cause
  stops : ∀ rest other after,
    model.decode ((model.encode state).bytes ++ rest) = .ok (other, after) → after = rest

/-- If reading and writing undo each other, what a state is written as has an end of its own. -/
theorem Model.Undoes.delimits {model : Model σ} (undoes : model.Undoes) (lossless : model.Lossless)
    (state : σ) : model.Delimits state where
  cut part within proper := by
    obtain ⟨more, whole⟩ := within
    cases read : model.decode part with
    | error cause => exact ⟨cause, rfl⟩
    | ok pair =>
      obtain ⟨other, left⟩ := pair
      obtain ⟨-, rfl⟩ := undoes _ _ _ read
      -- Read on, the whole would leave what was cut off, but it leaves nothing.
      have longer := (lossless other (left ++ more)).2
      rw [← List.append_assoc, whole, ← List.append_nil (model.encode state).bytes,
        (lossless state []).2] at longer
      have none := congrArg Prod.snd (Except.ok.inj longer)
      rw [(List.append_eq_nil_iff.mp none.symm).2, List.append_nil] at whole
      exact absurd whole proper
  stops rest other after read := by
    rw [(lossless state rest).2] at read
    exact (congrArg Prod.snd (Except.ok.inj read)).symm

theorem CounterGrid.undoes_model (grid : CounterGrid) : grid.model.Undoes :=
  fun _ _ _ read => ⟨rfl, GridState.decode_eq_ok_iff.mp read⟩

/-- A beginning of two lists that starts with one as long as the first is the first and a beginning
of the second. -/
theorem prefix_of_append_prefix_append {α : Type} {first first' second second' : List α}
    (length : first.length = first'.length) (part : first ++ second <+: first' ++ second') :
    first = first' ∧ second <+: second' := by
  obtain ⟨rest, same⟩ := part
  rw [List.append_assoc] at same
  obtain ⟨rfl, rfl⟩ := List.append_inj same length
  exact ⟨rfl, List.prefix_append _ _⟩

namespace Page

variable {model : Model σ} {nodes other : List (Node σ)} {input bytes body rest : Bytes}

/-! ## Images -/

/-- Bytes spell nodes one after another and something is left: each node takes four bytes for its
level, ten for its reference, and what the model reads as its state. -/
inductive Spells (model : Model σ) : List (Node σ) → Bytes → Bytes → Prop
  | done (rest : Bytes) : Spells model [] rest rest
  | node {node : Node σ} {later : List (Node σ)} {body middle rest : Bytes}
      (state : model.decode body = .ok (node.state, middle))
      (more : Spells model later middle rest) :
      Spells model (node :: later)
        (Bytes.ofNat 4 node.level.toNat ++ (node.uid.encode ++ body)) rest

/-- Bytes begin with an image of nodes, which is their count in four bytes and the nodes. -/
def IsImage (model : Model σ) (nodes : List (Node σ)) (bytes rest : Bytes) : Prop :=
  nodes.length < countLimit ∧
    ∃ body, bytes = Bytes.ofNat 4 nodes.length ++ body ∧ Spells model nodes body rest

theorem spells_nil_iff : Spells model [] input rest ↔ rest = input := by
  constructor
  · rintro ⟨⟩
    rfl
  · rintro rfl
    exact .done _

theorem spells_cons_iff {node : Node σ} {later : List (Node σ)} :
    Spells model (node :: later) input rest ↔
      ∃ middle, Node.decode model input = .ok (node, middle) ∧ Spells model later middle rest := by
  constructor
  · rintro ⟨⟩
    rename_i body middle state more
    exact ⟨middle, Node.decode_eq_ok_iff.mpr ⟨body, rfl, state⟩, more⟩
  · rintro ⟨middle, decoded, more⟩
    obtain ⟨body, rfl, state⟩ := Node.decode_eq_ok_iff.mp decoded
    exact .node state more

/-- Reading so many nodes finds the ones that the bytes spell, if they spell as many. -/
theorem decodeNodes_eq_ok_iff {count index todo : Nat} :
    decodeNodes model count index todo input = .ok (nodes, rest) ↔
      nodes.length = todo ∧ Spells model nodes input rest := by
  induction todo generalizing index input nodes with
  | zero =>
    simp only [decodeNodes, Except.ok.injEq, Prod.mk.injEq, List.length_eq_zero_iff]
    constructor
    · rintro ⟨rfl, rfl⟩
      exact ⟨rfl, .done _⟩
    · rintro ⟨rfl, spelled⟩
      exact ⟨rfl, (spells_nil_iff.mp spelled).symm⟩
  | succ todo ih =>
    constructor
    · intro read
      have length := length_of_decodeNodes read
      unfold decodeNodes at read
      split at read
      · cases read
      · rename_i node middle decoded
        split at read
        · cases read
        · rename_i later left more
          simp only [Except.ok.injEq, Prod.mk.injEq] at read
          obtain ⟨rfl, rfl⟩ := read
          exact ⟨length, spells_cons_iff.mpr ⟨middle, decoded, (ih.mp more).2⟩⟩
    · rintro ⟨length, spelled⟩
      cases nodes with
      | nil => cases length
      | cons node later =>
        obtain ⟨middle, decoded, more⟩ := spells_cons_iff.mp spelled
        have found : decodeNodes model count (index + 1) todo middle = .ok (later, rest) :=
          ih.mpr ⟨Nat.succ.inj length, more⟩
        simp only [decodeNodes, decoded, found]

/-- A page is read exactly from bytes that begin with an image of as many nodes as it may have,
and of at least one. -/
theorem ofImage_eq_ok_iff {id : PageId} {capacity : Nat} {page : Page σ} :
    ofImage model id capacity bytes = .ok page ↔
      ∃ nodes rest, IsImage model nodes bytes rest ∧ 1 ≤ nodes.length ∧
        nodes.length ≤ capacity ∧ page = ⟨id, capacity, nodes.toArray⟩ := by
  constructor
  · intro read
    unfold ofImage at read
    split at read
    · cases read
    · rename_i word body cut
      obtain ⟨length, rfl⟩ := Bytes.take?_eq_some_iff.mp cut
      dsimp only at read
      split at read
      · cases read
      · rename_i fits
        split at read
        · cases read
        · rename_i nodes rest decoded
          obtain rfl := Except.ok.inj read
          obtain ⟨counted, spelled⟩ := decodeNodes_eq_ok_iff.mp decoded
          rw [← counted] at fits
          refine ⟨nodes, rest, ⟨?_, body, ?_, spelled⟩, by omega, by omega, rfl⟩
          · rw [counted]
            exact Bytes.toNat_lt length
          · rw [counted, Bytes.ofNat_toNat length]
  · rintro ⟨nodes, rest, ⟨small, body, rfl, spelled⟩, some, room, rfl⟩
    have cut : Bytes.take? 4 (Bytes.ofNat 4 nodes.length ++ body) =
        .some (Bytes.ofNat 4 nodes.length, body) :=
      Bytes.take?_eq_some_iff.mpr ⟨Bytes.length_ofNat 4 _, rfl⟩
    have counted : Bytes.toNat (Bytes.ofNat 4 nodes.length) = nodes.length :=
      Bytes.toNat_ofNat_of_lt small
    have decoded : decodeNodes model nodes.length 0 nodes.length body = .ok (nodes, rest) :=
      decodeNodes_eq_ok_iff.mpr ⟨rfl, spelled⟩
    have fits : ¬ (nodes.length = 0 ∨ capacity < nodes.length) := by omega
    simp only [ofImage, cut, counted, if_neg fits, decoded]

/-! ## What is read and what was written -/

theorem bytes_encodeNodes_cons {node : Node σ} (later : List (Node σ))
    (accepted : (model.encode node.state).refusal = none) :
    (encodeNodes model (node :: later)).bytes =
      Bytes.ofNat 4 node.level.toNat ++
        (node.uid.encode ++
          ((model.encode node.state).bytes ++ (encodeNodes model later).bytes)) := by
  simp [encodeNodes_cons, Written.append, Written.ofBytes, Node.encode, accepted]

/-- If writing undoes reading, nodes are written as the bytes that spell them. -/
theorem encodeNodes_of_spells (undoes : model.Undoes) (spelled : Spells model nodes input rest) :
    (encodeNodes model nodes).refusal = none ∧ input = (encodeNodes model nodes).bytes ++ rest := by
  induction spelled with
  | done rest => exact ⟨rfl, rfl⟩
  | node state more ih =>
    obtain ⟨accepted, rfl⟩ := undoes _ _ _ state
    obtain ⟨others, rfl⟩ := ih
    refine ⟨refusal_encodeNodes_cons.mpr ⟨accepted, others⟩, ?_⟩
    simp only [bytes_encodeNodes_cons _ accepted, List.append_assoc]

/-- If writing undoes reading, a page with the nodes of an image has that image. -/
theorem image_of_isImage (undoes : model.Undoes) (isImage : IsImage model nodes bytes rest)
    {page : Page σ} (same : page.nodes = nodes.toArray) :
    page.size < countLimit ∧ (page.image model).refusal = none ∧
      bytes = (page.image model).bytes ++ rest := by
  obtain ⟨small, body, rfl, spelled⟩ := isImage
  obtain ⟨accepted, rfl⟩ := encodeNodes_of_spells undoes spelled
  have size : page.size = nodes.length := by rw [Page.size, same, List.size_toArray]
  refine ⟨size ▸ small, ?_, ?_⟩
  · rw [image, same]
    exact accepted
  · simp only [image, same, size, Written.append_ofBytes, List.append_assoc]

/-- A part of what nodes are written as does not spell as many nodes, whichever. -/
theorem not_spells_of_cut (delimits : ∀ node ∈ nodes, model.Delimits node.state)
    (accepted : (encodeNodes model nodes).refusal = none)
    (part : input <+: (encodeNodes model nodes).bytes)
    (proper : input ≠ (encodeNodes model nodes).bytes) (count : other.length = nodes.length) :
    ¬ Spells model other input rest := by
  induction nodes generalizing other input with
  | nil => exact absurd (List.prefix_nil.mp part) proper
  | cons node later ih =>
    intro spelled
    obtain ⟨own, others⟩ := refusal_encodeNodes_cons.mp accepted
    obtain ⟨cut, stops⟩ := delimits node List.mem_cons_self
    cases spelled with
    | done rest => cases count
    | @node found more body middle rest state spelled =>
      rw [bytes_encodeNodes_cons later own] at part proper
      obtain ⟨level, part⟩ := prefix_of_append_prefix_append (by simp) part
      obtain ⟨uid, part⟩ := prefix_of_append_prefix_append (by simp) part
      rw [level, uid] at proper
      -- The cut is after the bytes of the first state or within them.
      by_cases reached : (model.encode node.state).bytes <+: body
      · obtain ⟨left, rfl⟩ := reached
        obtain rfl := stops _ _ _ state
        refine ih (fun other member => delimits other (List.mem_cons_of_mem _ member)) others
          ((List.prefix_append_right_inj _).mp part) (fun same => proper ?_)
          (Nat.succ.inj count) spelled
        rw [same]
      · have within : body <+: (model.encode node.state).bytes :=
          (List.prefix_or_prefix_of_prefix part (List.prefix_append _ _)).resolve_right reached
        obtain ⟨cause, failed⟩ := cut body within fun same => reached (same ▸ List.prefix_rfl)
        rw [failed] at state
        cases state

/-! ## Reading and writing -/

variable {directory path : Path} {place : Location} {disk after : Disk} {page : Page σ}
  {id : PageId} {capacity stamp : Nat}

/-- A directory in which the files of a page can be made: a path leads to it, that of the temporary
file is not too long, and no directory is in the way. -/
structure Writable (id : PageId) (directory : Path) (place : Location) (disk : Disk) : Prop where
  found : disk.lookup directory = .ok (place, .directory)
  numbered : id < 2 ^ 64
  fits : (directory.child (temporaryName id)).byteSize ≤ disk.pathLimit
  draft : disk.get? (place ++ [temporaryName id]) ≠ some .directory
  final : disk.get? (place ++ [fileName id]) ≠ some .directory

/-- A page is written whole wherever its files can be made, if it is not too large and none of its
states refuses to be written. -/
theorem Writable.write (writable : Writable page.id directory place disk)
    (small : page.size < countLimit) (accepted : (page.image model).refusal = none) :
    ∃ after stamp,
      page.write model directory disk = (.ok (directory.child (fileName page.id)), after) ∧
        disk.Changes (page.Touched place) after ∧
        after.locate (directory.child (fileName page.id)) = .ok (place ++ [fileName page.id]) ∧
        after.get? (place ++ [fileName page.id]) =
          some (.file stamp (page.image model).bytes) ∧
        after.get? (place ++ [temporaryName page.id]) = none := by
  have opens := Disk.opens_of_lookup writable.found
  obtain ⟨draft, final⟩ := locate_names writable.found writable.numbered.le writable.fits
  obtain ⟨after, written⟩ := exists_write_eq_ok opens draft final writable.draft writable.final
    small accepted
  obtain ⟨-, -, changes, located, ⟨stamp, stored⟩, gone⟩ := write_eq_ok opens written
  exact ⟨after, stamp, written, changes, changes.locate_iff.mpr located, stored, gone⟩

/-- The image of a page is read as a page of any capacity that has room for its nodes. -/
theorem ofImage_image_of_room (restores : ∀ node ∈ page.nodes, model.Restores node.state)
    (nonempty : 0 < page.size) (small : page.size < countLimit) (room : page.size ≤ capacity) :
    ofImage model page.id capacity (page.image model).bytes =
      .ok ⟨page.id, capacity, page.nodes⟩ := by
  -- The image does not depend on the capacity of the page.
  let wider : Page σ := ⟨page.id, capacity, page.nodes⟩
  have back : ofImage model wider.id wider.capacity (wider.image model).bytes = .ok wider :=
    ofImage_image restores nonempty room small
  exact back

/-- A page whose file holds its image is read from there, and its file is gone. -/
theorem read_of_image (restores : ∀ node ∈ page.nodes, model.Restores node.state)
    (nonempty : 0 < page.size) (small : page.size < countLimit) (room : page.size ≤ capacity)
    (located : disk.locate path = .ok place)
    (stored : disk.get? place = some (.file stamp (page.image model).bytes)) :
    Page.read model path page.id capacity disk =
      (.ok ⟨page.id, capacity, page.nodes⟩, disk.unset place) := by
  rw [read_of_file model page.id capacity located stored,
    ofImage_image_of_room restores nonempty small room]

/-- A part of the image of a page is not read as a page of that or any other number. -/
theorem exists_ofImage_eq_error_of_cut (id : PageId) (capacity : Nat)
    (delimits : ∀ node ∈ page.nodes, model.Delimits node.state)
    (small : page.size < countLimit) (accepted : (page.image model).refusal = none)
    (part : bytes <+: (page.image model).bytes) (proper : bytes ≠ (page.image model).bytes) :
    ∃ reason, ofImage model id capacity bytes = .error reason := by
  cases read : ofImage model id capacity bytes with
  | error reason => exact ⟨reason, rfl⟩
  | ok answer =>
    exfalso
    obtain ⟨nodes, rest, ⟨limit, body, rfl, spelled⟩, -, -, -⟩ := ofImage_eq_ok_iff.mp read
    rw [image, Written.append_ofBytes] at part proper accepted
    obtain ⟨count, part⟩ := prefix_of_append_prefix_append (by simp) part
    have same : nodes.length = page.nodes.toList.length := by
      have numbers := congrArg Bytes.toNat count
      exact (Bytes.toNat_ofNat_of_lt limit).symm.trans
        (numbers.trans (Bytes.toNat_ofNat_of_lt small))
    rw [count] at proper
    exact not_spells_of_cut (fun node member => delimits node (Array.mem_toList_iff.mp member))
      accepted part (fun whole => proper (by rw [whole])) same spelled

/-- A file is read as a page exactly if its bytes begin with the image of at least one and at most
`capacity` nodes. The page then has these nodes and its file is gone; if writing undoes reading, the
page is written again as the bytes that were read. Nothing is read from any other file: the
failure names its path, and everything is left as it was. A page file that was cut short is
such a file, wherever it was cut, if each state on the page is written with an end of its own. -/
theorem read_iff_isImage (located : disk.locate path = .ok place)
    (stored : disk.get? place = some (.file stamp bytes)) (model : Model σ) (id : PageId)
    (capacity : Nat) :
    (∀ page after, Page.read model path id capacity disk = (.ok page, after) ↔
      ∃ nodes rest, IsImage model nodes bytes rest ∧ 1 ≤ nodes.length ∧ nodes.length ≤ capacity ∧
        page = ⟨id, capacity, nodes.toArray⟩ ∧ after = disk.unset place) ∧
    (model.Undoes → ∀ nodes rest, IsImage model nodes bytes rest →
      ∃ consumed, bytes = consumed ++ rest ∧ ∀ page : Page σ, page.nodes = nodes.toArray →
        ∀ directory above other, Writable page.id directory above other → ∃ after stamp,
          page.write model directory other = (.ok (directory.child (fileName page.id)), after) ∧
          after.get? (above ++ [fileName page.id]) = some (.file stamp consumed)) ∧
    ((¬ ∃ nodes rest, IsImage model nodes bytes rest ∧ 1 ≤ nodes.length ∧
        nodes.length ≤ capacity) →
      ∃ reason, Page.read model path id capacity disk = (.error (.pageRead path reason), disk) ∧
        ∀ spill : Spill, spill.directory.child (fileName id) = path →
          spill.take model id capacity disk = (.error (.pageRead path reason), disk)) ∧
    ∀ written : Page σ, written.size < countLimit → (written.image model).refusal = none →
      (∀ node ∈ written.nodes, model.Delimits node.state) →
      bytes <+: (written.image model).bytes → bytes ≠ (written.image model).bytes →
      ∃ reason, Page.read model path id capacity disk = (.error (.pageRead path reason), disk) := by
  have read := read_of_file model id capacity located stored
  refine ⟨fun page after => ?_, fun undoes nodes rest isImage => ?_, fun other => ?_,
    fun written small accepted delimits part proper => ?_⟩
  · rw [read]
    constructor
    · intro answer
      cases image : ofImage model id capacity bytes with
      | error reason => simp [image] at answer
      | ok found =>
        simp only [image, Except.ok.injEq, Prod.mk.injEq] at answer
        obtain ⟨rfl, rfl⟩ := answer
        obtain ⟨nodes, rest, isImage, some, room, same⟩ := ofImage_eq_ok_iff.mp image
        exact ⟨nodes, rest, isImage, some, room, same, rfl⟩
    · rintro ⟨nodes, rest, isImage, some, room, rfl, rfl⟩
      rw [ofImage_eq_ok_iff.mpr ⟨nodes, rest, isImage, some, room, rfl⟩]
  · let found : Page σ := ⟨id, capacity, nodes.toArray⟩
    have same : found.nodes = nodes.toArray := rfl
    obtain ⟨-, -, consumed⟩ := image_of_isImage undoes isImage same
    refine ⟨_, consumed, fun page same directory above other writable => ?_⟩
    obtain ⟨small, accepted, again⟩ := image_of_isImage undoes isImage same
    obtain ⟨after, stamp, written, -, -, made, -⟩ := writable.write small accepted
    refine ⟨after, stamp, written, ?_⟩
    rw [made, List.append_cancel_right (again.symm.trans consumed)]
  · cases image : ofImage model id capacity bytes with
    | ok page =>
      obtain ⟨nodes, rest, isImage, some, room, -⟩ := ofImage_eq_ok_iff.mp image
      exact absurd ⟨nodes, rest, isImage, some, room⟩ other
    | error reason =>
      refine ⟨reason, by rw [read, image], fun spill same => ?_⟩
      subst same
      rw [Spill.take_of_file model capacity located stored, image]
  · obtain ⟨reason, bad⟩ :=
      exists_ofImage_eq_error_of_cut id capacity delimits small accepted part proper
    exact ⟨reason, by rw [read, bad]⟩

/-- A file with one byte too many is read as the page that the bytes before it spell, and one that
ends early is not read. -/
theorem read_of_long_and_of_short_file :
    let path : Path := ⟨["runs", "7.pq"]⟩
    let model := (⟨1, 1, none⟩ : CounterGrid).model
    let image := [1, 0, 0, 0, 2, 0, 0, 0, 0, 0, 18, 0, 0, 0, 0, 0, 0, 0, 0, 0, 0, 0, 1, 0, 0, 0]
    let disk (bytes : Bytes) :=
      (Disk.empty.set ["runs"] .directory).set ["runs", "7.pq"] (.file 5 bytes)
    Page.read model path 7 2 (disk (image ++ [255])) =
        (.ok ⟨7, 2, #[⟨⟨0, 1⟩, 2, ⟨0, 18⟩⟩]⟩, (disk (image ++ [255])).unset ["runs", "7.pq"]) ∧
      ∃ reason, Page.read model path 7 2 (disk (image.take 19)) =
        (.error (.pageRead path reason), disk (image.take 19)) := by
  intro path model image disk
  have located (bytes : Bytes) : (disk bytes).locate path = .ok ["runs", "7.pq"] := rfl
  have stored (bytes : Bytes) : (disk bytes).get? ["runs", "7.pq"] = some (.file 5 bytes) :=
    Disk.get?_set_self (by decide) _ _
  constructor
  · refine ((read_iff_isImage (located _) (stored _) model 7 2).1 _ _).mpr ?_
    refine ⟨[⟨⟨0, 1⟩, 2, ⟨0, 18⟩⟩], [255], ⟨by decide, _, rfl, ?_⟩, by decide, by decide, rfl, rfl⟩
    exact .node (GridState.decode_encode_append ⟨0, 1⟩ [255]) (.done _)
  · have written : ((⟨7, 2, #[⟨⟨0, 1⟩, 2, ⟨0, 18⟩⟩]⟩ : Page GridState).image model).bytes = image :=
      rfl
    refine (read_iff_isImage (located _) (stored _) model 7 2).2.2.2
      ⟨7, 2, #[⟨⟨0, 1⟩, 2, ⟨0, 18⟩⟩]⟩ (by decide) rfl (fun node _ => ?_) ?_ ?_
    · exact (CounterGrid.undoes_model _).delimits (CounterGrid.lossless_model _) node.state
    · exact written ▸ List.take_prefix 19 image
    · exact written ▸ by decide

/-- Numbers whose bytes run into those of what follows. Nothing is read from a proper part of what
any of them is written as: a number is read from eight bytes, and zero is refused; but one is
written as seven bytes, and zero as ten. If the image of a page with one and zero loses its last
byte, it is still read as a page of two nodes, because the first of them is read one byte too
far. -/
theorem read_of_cut_image :
    let model : Model Nat := {
      fingerprint := UInt64.ofNat
      encode := fun number => .ofBytes <|
        if number = 0 then Bytes.ofNat 10 (2 ^ 64 + 2 ^ 72)
        else if number = 1 then Bytes.ofNat 7 1 else Bytes.ofNat 8 number
      decode := fun input =>
        match Bytes.take? 8 input with
        | none => .error .endOfInput
        | some (word, rest) =>
            if Bytes.toNat word = 0 then .error (.invalidData "unreadable state")
            else .ok (Bytes.toNat word, rest)
      successors := fun _ => .ok [] }
    let page : Page Nat := ⟨1, 2, #[⟨1, 1, ⟨0, 0⟩⟩, ⟨0, 1, ⟨0, 0⟩⟩]⟩
    let path : Path := ⟨["runs", "1.pq"]⟩
    let bytes := (page.image model).bytes.dropLast
    let disk := (Disk.empty.set ["runs"] .directory).set ["runs", "1.pq"] (.file 0 bytes)
    (∀ state part, part <+: (model.encode state).bytes → part ≠ (model.encode state).bytes →
      ∃ cause, model.decode part = .error cause) ∧
    page.size < countLimit ∧ (page.image model).refusal = none ∧
    bytes <+: (page.image model).bytes ∧ bytes ≠ (page.image model).bytes ∧
    ∃ answer, answer.size = 2 ∧
      Page.read model path 1 2 disk = (.ok answer, disk.unset ["runs", "1.pq"]) := by
  intro model page path bytes disk
  -- Zero is refused after eight bytes, and whatever is written as at most eight bytes is not read
  -- from fewer.
  have short (part : Bytes) (few : part.length < 8) :
      ∃ cause, model.decode part = .error cause := by
    have missing : Bytes.take? 8 part = none := by
      cases taken : Bytes.take? 8 part with
      | none => rfl
      | some pair =>
        obtain ⟨length, rfl⟩ := Bytes.take?_eq_some_iff.mp taken
        rw [List.length_append] at few
        omega
    exact ⟨.endOfInput, by simp only [model, missing]⟩
  have less {part whole : Bytes} (within : part <+: whole) (proper : part ≠ whole) :
      part.length < whole.length :=
    Nat.lt_of_le_of_ne within.length_le fun same => proper (within.eq_of_length same)
  refine ⟨fun state part within proper => ?_, by decide, by decide +kernel,
    List.dropLast_prefix _, by decide +kernel, ?_⟩
  · have length := less within proper
    by_cases zero : state = 0
    · subst zero
      rw [List.prefix_iff_eq_take] at within
      have few : part.length < 10 := length
      by_cases cut : part.length < 8
      · exact short part cut
      · have refused : ∀ count < 10, 8 ≤ count →
            (model.decode ((Bytes.ofNat 10 (2 ^ 64 + 2 ^ 72)).take count)).toOption = none := by
          decide +kernel
        have nothing := refused part.length few (Nat.le_of_not_lt cut)
        rw [within]
        cases read : model.decode (List.take part.length (model.encode 0).bytes) with
        | error cause => exact ⟨cause, rfl⟩
        | ok found => cases nothing.symm.trans (congrArg Except.toOption read)
    · refine short part (Nat.lt_of_lt_of_le length ?_)
      have bound : (model.encode state).bytes.length ≤ 8 := by
        simp only [model, if_neg zero, Written.ofBytes]
        split <;> simp
      exact bound
  · have located : disk.locate path = .ok ["runs", "1.pq"] := rfl
    have stored : disk.get? ["runs", "1.pq"] = some (.file 0 bytes) :=
      Disk.get?_set_self (by decide) _ _
    have sizes : (ofImage model 1 2 bytes).toOption.map Page.size = some 2 := by decide +kernel
    cases image : ofImage model 1 2 bytes with
    | error reason => simp [image, Except.toOption] at sizes
    | ok answer =>
      refine ⟨answer, by simpa [image, Except.toOption] using sizes, ?_⟩
      rw [read_of_file model 1 2 located stored, image]

end Page

end Wavefront
