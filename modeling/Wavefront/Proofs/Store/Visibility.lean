/-
# A page file is all there or not there

Writing a page takes many steps: the temporary file is made, bytes are put at its end, in
whatever pieces, and at last it gets the name of the page. Everything may stop before any of
these steps, because the step fails or because nothing is done any more at all. Wherever that is,
the page's own name stands for what it stood for before, until the last step is done, and from
then on for the whole page. So whoever looks for the page never finds a part of it.
-/

import Wavefront.Frontier.Basic
import Wavefront.Proofs.Disk.Images

namespace Wavefront

variable {σ : Type}

namespace Page

variable {model : Model σ} {page : Page σ} {directory : Path} {place : Location}
  {disk after : Disk} {pieces : List Bytes} {done : Plan}

/-- A page lies whole under its own name: its count and all of its nodes in order, none of which
refused to be written. Its temporary file is gone, and nothing else has changed. -/
structure Whole (model : Model σ) (page : Page σ) (directory : Path) (place : Location)
    (disk after : Disk) : Prop where
  small : page.size < countLimit
  image : page.image model = .ofBytes
    (Bytes.ofNat 4 page.size ++ page.nodes.toList.flatMap fun node => (node.encode model).bytes)
  located : after.locate (directory.child (fileName page.id)) = .ok (place ++ [fileName page.id])
  file : ∃ stamp, after.get? (place ++ [fileName page.id]) =
    some (.file stamp (page.image model).bytes)
  gone : after.get? (place ++ [temporaryName page.id]) = none
  changes : disk.Changes (page.Touched place) after

/-- Nodes that are written without a refusal are written one after another. -/
theorem encodeNodes_of_accepted {nodes : List (Node σ)}
    (accepted : (encodeNodes model nodes).refusal = none) :
    encodeNodes model nodes = .ofBytes (nodes.flatMap fun node => (node.encode model).bytes) := by
  induction nodes with
  | nil => rfl
  | cons node later ih =>
    obtain ⟨own, others⟩ := refusal_encodeNodes_cons.mp accepted
    have here : (node.encode model).refusal = none := own
    rw [encodeNodes_cons, ih others, Written.append, here, List.flatMap_cons]
    rfl

/-- Before the last step nothing but the temporary file has changed, and after it the page lies
whole under its own name. -/
theorem whole_or_as_before (opens : disk.Opens directory place)
    (complete : pieces.flatten = (page.image model).bytes)
    (stops : (page.steps model directory pieces).Stops disk done after) :
    (page.naming directory ∉ done ∧ disk.Changes (· = place ++ [temporaryName page.id]) after) ∨
      (page.naming directory ∈ done ∧ page.Whole model directory place disk after) := by
  rcases cases_of_stops opens stops with
    ⟨unnamed, -, rfl | ⟨part, begun⟩⟩ | ⟨named, -, small, accepted, published⟩
  · exact .inl ⟨unnamed, .refl _ _⟩
  · exact .inl ⟨unnamed, begun.changes⟩
  · have nodes : (encodeNodes model page.nodes.toList).refusal = none := accepted
    refine .inr ⟨named, small, ?_, published.changes.locate_iff.mpr published.located,
      complete ▸ published.file, published.gone, published.changes⟩
    rw [image, encodeNodes_of_accepted nodes]
    rfl

end Page

/-! ## Who looks for the page -/

namespace Spill

variable {model : Model σ} {spill : Spill} {place : Location} {disk after : Disk} {id : PageId}
  {capacity : Nat}

/-- What asking for a page answers if its path leads to what is given, and so to nothing else. -/
def finding (model : Model σ) (path : Path) (id : PageId) (capacity : Nat) :
    Option Entry → Except Failure (Option (Page σ))
  | none => .ok none
  | some .directory => .error (.pageRead path (.io .isADirectory))
  | some (.file _ bytes) =>
      match Page.ofImage model id capacity bytes with
      | .error reason => .error (.pageRead path reason)
      | .ok page => .ok (some page)

/-- A page is looked for where its path leads, and nowhere else. -/
theorem take_fst (model : Model σ) (capacity : Nat) (opens : disk.Opens spill.directory place) :
    (spill.take model id capacity disk).1 =
      match disk.reach spill.directory (Page.fileName id) with
      | .error _ => .ok none
      | .ok () => finding model (spill.directory.child (Page.fileName id)) id capacity
          (disk.get? (place ++ [Page.fileName id])) := by
  have located := opens.locate_eq (plain_of_isPageFile (isPageFile_fileName id))
  cases reached : disk.reach spill.directory (Page.fileName id) with
  | error cause =>
    rw [reached] at located
    simp [take, Disk.exists?, Disk.lookup, located, Except.map, bind, Except.bind, Except.toBool]
  | ok done =>
    rw [reached] at located
    cases held : disk.get? (place ++ [Page.fileName id]) with
    | none =>
      simp [take, Disk.exists?, Disk.lookup, located, Except.map, bind, Except.bind, Except.toBool,
        held, finding]
    | some entry =>
      cases entry with
      | directory =>
        have there : disk.exists? (spill.directory.child (Page.fileName id)) = true :=
          Disk.exists?_eq_true_iff.mpr ⟨_, _, located, held⟩
        simp [take, there, Page.read, Disk.read, Disk.lookup, located, Except.map, bind,
          Except.bind, held, finding]
      | file stamp bytes =>
        rw [take_of_file model capacity located held]
        simp only [finding]
        cases Page.ofImage model id capacity bytes <;> rfl

/-- As long as its file is the same, a page is found or not found as before. -/
theorem take_fst_of_changes {touched : Location → Prop} (model : Model σ) (capacity : Nat)
    (opens : disk.Opens spill.directory place) (changes : disk.Changes touched after)
    (apart : ¬ touched (place ++ [Page.fileName id])) :
    (spill.take model id capacity after).1 = (spill.take model id capacity disk).1 := by
  rw [take_fst model capacity (opens.of_changes changes), take_fst model capacity opens,
    Disk.reach_eq changes.pathLimit, changes.elsewhere _ apart]

end Spill

/-- A look for a page is a look into memory or into the directory. -/
theorem Frontier.take_fst (frontier : Frontier σ) (model : Model σ) (id : PageId) (disk : Disk) :
    (frontier.take model id disk).1 =
      if frontier.keepsInMemory id then .ok (frontier.memory.take id).1
      else (frontier.spill.take model id (frontier.sizing.capacity id) disk).1 := by
  unfold Frontier.take
  split <;> rfl

namespace Page

variable {model : Model σ} {page : Page σ} {directory : Path} {place : Location}
  {disk after : Disk} {pieces : List Bytes} {done : Plan}

/-- What the disk is like, and what those see who look for pages, when some steps of writing a page
have been done. -/
structure Seen (model : Model σ) (page : Page σ) (directory : Path) (place : Location)
    (disk : Disk) (done : Plan) (after : Disk) : Prop where
  /-- Nothing but the temporary file changes before the page gets its name. -/
  before : page.naming directory ∉ done →
    disk.Changes (· = place ++ [temporaryName page.id]) after
  /-- The page lies whole under its name as soon as it has got it. -/
  whole : page.naming directory ∈ done → page.Whole model directory place disk after
  /-- Whoever takes another page, or this one before it has its name, gets what there was. -/
  take_before : ∀ spill : Spill, spill.directory = directory → ∀ id capacity,
    id ≠ page.id ∨ page.naming directory ∉ done →
      (spill.take model id capacity after).1 = (spill.take model id capacity disk).1
  /-- Whoever takes this page after it has got its name reads the whole of its image. -/
  take_image : ∀ spill : Spill, spill.directory = directory → ∀ capacity,
    page.naming directory ∈ done → ∃ stamp, (spill.take model page.id capacity after).1 =
      Spill.finding model (directory.child (fileName page.id)) page.id capacity
        (some (.file stamp (page.image model).bytes))
  /-- So the page is given back if its states can be restored. -/
  take_whole : ∀ spill : Spill, spill.directory = directory → ∀ capacity,
    page.naming directory ∈ done → (∀ node ∈ page.nodes, model.Restores node.state) →
      0 < page.size → page.size ≤ capacity →
      (spill.take model page.id capacity after).1 = .ok (some ⟨page.id, capacity, page.nodes⟩)
  /-- Whoever looks for the page of a ticket, however often, finds what there was, or takes this
  page when it has got its name. -/
  look : ∀ frontier : Frontier σ, frontier.spill.directory = directory → ∀ ticket,
    (frontier.take model ticket after).1 = (frontier.take model ticket disk).1 ∨
      (ticket = page.id ∧ page.naming directory ∈ done ∧ (frontier.take model ticket after).1 =
        (frontier.spill.take model ticket (frontier.sizing.capacity ticket) after).1)

/-- Whatever steps of writing a page have been done, with whatever pieces of its bytes, the page is
seen whole or as before. -/
theorem seen_of_stops (opens : disk.Opens directory place)
    (complete : pieces.flatten = (page.image model).bytes)
    (stops : (page.steps model directory pieces).Stops disk done after) :
    page.Seen model directory place disk done after := by
  have cases := whole_or_as_before opens complete stops
  have before (unnamed : page.naming directory ∉ done) :
      disk.Changes (· = place ++ [temporaryName page.id]) after :=
    (cases.resolve_right fun named => unnamed named.1).2
  have whole (named : page.naming directory ∈ done) :
      page.Whole model directory place disk after :=
    (cases.resolve_left fun unnamed => unnamed.1 named).2
  -- The file of another page is touched by no step, and that of this page only by the last.
  have take_before {spill : Spill} (same : spill.directory = directory) (id : PageId)
      (capacity : Nat) (other : id ≠ page.id ∨ page.naming directory ∉ done) :
      (spill.take model id capacity after).1 = (spill.take model id capacity disk).1 := by
    subst same
    by_cases named : page.naming spill.directory ∈ done
    · have apart : id ≠ page.id := other.resolve_right (not_not_intro named)
      exact Spill.take_fst_of_changes model capacity opens (whole named).changes
        (not_touched apart)
    · exact Spill.take_fst_of_changes model capacity opens (before named)
        (temporary_ne place page.id id).symm
  have take_image {spill : Spill} (same : spill.directory = directory) (capacity : Nat)
      (named : page.naming directory ∈ done) :
      ∃ stamp, (spill.take model page.id capacity after).1 =
        Spill.finding model (directory.child (fileName page.id)) page.id capacity
          (some (.file stamp (page.image model).bytes)) := by
    subst same
    obtain ⟨stamp, stored⟩ := (whole named).file
    refine ⟨stamp, ?_⟩
    rw [Spill.take_of_file model capacity (whole named).located stored, Spill.finding]
    cases ofImage model page.id capacity (page.image model).bytes <;> rfl
  refine ⟨before, whole, fun _ => take_before, fun _ => take_image, ?_, ?_⟩
  · intro spill same capacity named restores nonempty room
    obtain ⟨stamp, answer⟩ := take_image same capacity named
    rw [answer, Spill.finding, ofImage_image_of_room restores nonempty (whole named).small room]
  · intro frontier same ticket
    rw [frontier.take_fst, frontier.take_fst]
    by_cases other : ticket ≠ page.id ∨ page.naming directory ∉ done
    · exact .inl (by rw [take_before same _ _ other])
    · by_cases kept : frontier.keepsInMemory ticket
      · exact .inl (by rw [if_pos kept, if_pos kept])
      · exact .inr ⟨not_not.mp fun apart => other (.inl apart),
          not_not.mp fun unnamed => other (.inr unnamed), if_neg kept⟩

/-- A page file is all there or not there. Writing a page may come to a halt before any of its
steps, whatever the pieces in which its bytes get into the temporary file. Up to the last step
nothing but the temporary file has changed, and after it the page's name stands for the whole
page; whoever looks for pages sees either the one or the other. A write succeeds exactly if
its last step was done, also if the system refuses one of them; so a write that fails leaves the
file under the page's name as it was. -/
theorem seen_whole_or_as_before (found : disk.lookup directory = .ok (place, .directory))
    (model : Model σ) (page : Page σ) :
    (∀ pieces done after, pieces.flatten = (page.image model).bytes →
      (page.steps model directory pieces).Stops disk done after →
        page.Seen model directory place disk done after) ∧
    (∀ pieces number cause result after,
      ((page.steps model directory pieces).refuseAt number cause).perform disk = (result, after) →
        ∃ done, (page.steps model directory pieces).Stops disk done after ∧
          (result = .ok () ↔ page.naming directory ∈ done)) ∧
    ∀ result after, page.write model directory disk = (result, after) →
      (∃ done, (page.steps model directory [(page.image model).bytes]).Stops disk done after ∧
        ((∃ path, result = .ok path) ↔ page.naming directory ∈ done)) ∧
      ∀ failure, result = .error failure →
        after.get? (place ++ [fileName page.id]) = disk.get? (place ++ [fileName page.id]) := by
  have opens := Disk.opens_of_lookup found
  refine ⟨fun pieces done after => seen_of_stops opens, ?_, ?_⟩
  · intro pieces number cause result after performed
    obtain ⟨done, stops, complete⟩ := Plan.exists_stops_of_refuseAt performed
    exact ⟨done, stops, complete.trans (naming_mem_iff opens stops).symm⟩
  · intro result after written
    obtain ⟨done, stops, named⟩ := exists_stops_of_write opens written
    refine ⟨⟨done, stops, named⟩, fun failure failed => ?_⟩
    have unnamed : page.naming directory ∉ done := by
      rw [← named, failed]
      simp
    have seen : page.Seen model directory place disk done after :=
      seen_of_stops opens (by simp) stops
    exact (seen.before unnamed).elsewhere _ (temporary_ne place page.id page.id).symm

/-- Over an old file of the page and one that was left behind, a write that halts after five bytes
shows the old file, which is no page, and one that goes on shows the page. -/
theorem seen_of_halted_write :
    let disk := ((Disk.empty.set ["runs"] .directory).set ["runs", "7.pq"] (.file 0 [9])).set
      ["runs", "7.pq.tmp"] (.file 1 [9, 9])
    let model := (⟨1, 1, none⟩ : CounterGrid).model
    let page : Page GridState := ⟨7, 1, #[⟨⟨0, 1⟩, 2, ⟨0, 18⟩⟩]⟩
    let pieces := [[1, 0, 0, 0, 2], (page.image model).bytes.drop 5]
    ∃ middle after, (page.steps model ⟨["runs"]⟩ pieces).Stops disk
        [.create ⟨["runs", "7.pq.tmp"]⟩, .append ⟨["runs", "7.pq.tmp"]⟩ [1, 0, 0, 0, 2]] middle ∧
      ((⟨⟨["runs"]⟩⟩ : Spill).take model 7 1 middle).1 =
        .error (.pageRead ⟨["runs", "7.pq"]⟩ (.io .endOfInput)) ∧
      page.write model ⟨["runs"]⟩ disk = (.ok ⟨["runs", "7.pq"]⟩, after) ∧
      ((⟨⟨["runs"]⟩⟩ : Spill).take model 7 1 after).1 = .ok (some page) := by
  intro disk model page pieces
  have above : disk.get? ["runs"] = some .directory := by
    rw [Disk.get?_set_of_ne (by decide), Disk.get?_set_of_ne (by decide),
      Disk.get?_set_self (by decide)]
  have found : disk.lookup ⟨["runs"]⟩ = .ok (["runs"], .directory) :=
    Disk.lookup_eq_ok_iff.mpr ⟨rfl, above⟩
  have front : [.create ⟨["runs", "7.pq.tmp"]⟩, .append ⟨["runs", "7.pq.tmp"]⟩ [1, 0, 0, 0, 2]] <+:
      page.steps model ⟨["runs"]⟩ pieces := by decide +kernel
  obtain ⟨middle, stops⟩ : ∃ middle, (page.steps model ⟨["runs"]⟩ pieces).Stops disk
      [.create ⟨["runs", "7.pq.tmp"]⟩, .append ⟨["runs", "7.pq.tmp"]⟩ [1, 0, 0, 0, 2]] middle :=
    ⟨_, front, rfl⟩
  obtain ⟨after, written⟩ : ∃ after,
      page.write model ⟨["runs"]⟩ disk = (.ok ⟨["runs", "7.pq"]⟩, after) := by
    have succeeds : (page.write model ⟨["runs"]⟩ disk).1.toOption = some ⟨["runs", "7.pq"]⟩ := by
      decide +kernel
    generalize page.write model ⟨["runs"]⟩ disk = answer at succeeds ⊢
    obtain ⟨_ | path, after⟩ := answer
    · cases succeeds
    · exact ⟨after, by rw [Option.some.inj succeeds]⟩
  obtain ⟨seen, -, ends⟩ := seen_whole_or_as_before found model page
  have halted := seen pieces _ _ (by decide) stops
  obtain ⟨⟨done, whole, named⟩, -⟩ := ends _ _ written
  have complete := seen [(page.image model).bytes] _ _ (by decide) whole
  refine ⟨middle, after, stops, ?_, written, ?_⟩
  · rw [halted.take_before _ rfl 7 1 (.inr (by decide +kernel))]
    rfl
  · exact complete.take_whole _ rfl 1 (named.mp ⟨_, rfl⟩)
      (fun _ _ => CounterGrid.lossless_model _ _) (by decide) (by decide)

end Page

end Wavefront
