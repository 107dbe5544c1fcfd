/-
# What several parties have together

The parties of a run are kept in a list, and one of them at a time makes a step. What they
have together before the step is what that one has and what the others have, and after
it the others have the same.
-/

import Mathlib.Algebra.BigOperators.Group.List.Basic
import Mathlib.Algebra.Ring.Nat
import Mathlib.Data.List.Forall2
import Mathlib.Data.List.Lattice
import Mathlib.Data.List.Nodup
import Mathlib.Data.List.Pairwise
import Mathlib.Data.List.Perm.Basic

namespace Wavefront

variable {α β : Type} {parties : List α} {position : Nat} {party next : α}

/-- The parties, the one whose turn it is first. -/
theorem perm_cons_others (found : parties[position]? = some party) :
    parties.Perm (party :: parties.eraseIdx position) := by
  obtain ⟨within, rfl⟩ := List.getElem?_eq_some_iff.mp found
  exact (List.getElem_cons_eraseIdx_perm within).symm

theorem set_perm_cons_others (found : parties[position]? = some party) :
    (parties.set position next).Perm (next :: parties.eraseIdx position) := by
  obtain ⟨within, -⟩ := List.getElem?_eq_some_iff.mp found
  exact List.set_perm_cons_eraseIdx within next

/-- What all parties have is what one of them has and what the others have. -/
theorem flatMap_perm_others (what : α → List β) (found : parties[position]? = some party) :
    (parties.flatMap what).Perm (what party ++ (parties.eraseIdx position).flatMap what) :=
  (perm_cons_others found).flatMap_right what

theorem flatMap_set_perm_others (what : α → List β) (found : parties[position]? = some party) :
    ((parties.set position next).flatMap what).Perm
      (what next ++ (parties.eraseIdx position).flatMap what) :=
  (set_perm_cons_others found).flatMap_right what

theorem sum_map_others (count : α → Nat) (found : parties[position]? = some party) :
    (parties.map count).sum = count party + ((parties.eraseIdx position).map count).sum := by
  rw [((perm_cons_others found).map count).sum_eq, List.map_cons, List.sum_cons]

theorem sum_map_set_others (count : α → Nat) (found : parties[position]? = some party) :
    ((parties.set position next).map count).sum =
      count next + ((parties.eraseIdx position).map count).sum := by
  rw [((set_perm_cons_others found).map count).sum_eq, List.map_cons, List.sum_cons]

/-- A party that stays what it is changes nothing. -/
theorem set_eq_self (found : parties[position]? = some party) :
    parties.set position party = parties := by
  obtain ⟨within, rfl⟩ := List.getElem?_eq_some_iff.mp found
  exact List.set_getElem_self within

/-- The others stay what they are. -/
theorem mem_set_of_mem {other : α} (found : parties[position]? = some party)
    (member : other ∈ parties) : other = party ∨ other ∈ parties.set position next := by
  rcases List.mem_cons.mp ((perm_cons_others found).mem_iff.mp member) with same | among
  · exact .inl same
  · exact .inr ((set_perm_cons_others found).mem_iff.mpr (List.mem_cons_of_mem _ among))

theorem mem_set_self (found : parties[position]? = some party) :
    next ∈ parties.set position next :=
  (set_perm_cons_others found).mem_iff.mpr List.mem_cons_self

theorem mem_of_mem_set {other : α} (member : other ∈ parties.set position next) :
    other = next ∨ other ∈ parties := by
  rcases List.mem_or_eq_of_mem_set member with old | new
  · exact .inr old
  · exact .inl new

theorem forall_mem_set {holds : α → Prop} (each : ∀ party ∈ parties, holds party)
    (new : holds next) : ∀ party ∈ parties.set position next, holds party := by
  intro party member
  rcases mem_of_mem_set member with rfl | old
  · exact new
  · exact each party old

/-! ## Two lots of parties -/

section

variable {related : α → β → Prop} {others : List β}

/-- Parties that are related pair by pair are related at every position. -/
theorem rel_getElem? (pairs : List.Forall₂ related parties others) (position : Nat) :
    Option.Rel related parties[position]? others[position]? := by
  induction pairs generalizing position with
  | nil => exact .none
  | cons pair _ ih =>
    cases position with
    | zero => exact .some pair
    | succ position => simpa using ih position

theorem forall₂_set {other : β} (pairs : List.Forall₂ related parties others)
    (pair : related party other) (position : Nat) :
    List.Forall₂ related (parties.set position party) (others.set position other) := by
  induction pairs generalizing position with
  | nil => exact .nil
  | cons first rest ih =>
    cases position with
    | zero => exact .cons pair rest
    | succ position => exact .cons first (ih position)

end

/-! ## Shelves -/

/-- What all parties have, gone through by their positions. -/
theorem flatMap_range_getElem? (parties : List α) (what : α → List β) :
    ((List.range parties.length).flatMap fun position => parties[position]?.elim [] what) =
      parties.flatMap what := by
  induction parties with
  | nil => rfl
  | cons first rest ih =>
    rw [List.length_cons, List.range_succ_eq_map, List.flatMap_cons, List.flatMap_cons, ← ih,
      List.flatMap_map]
    rfl

/-- Nobody has anything at a position that there is not. -/
theorem elim_getElem?_eq_nil (what : α → List β) (outside : position ∉ List.range parties.length) :
    parties[position]?.elim [] what = [] := by
  have absent : parties[position]? = none := by
    rw [List.getElem?_eq_none_iff]
    exact Nat.le_of_not_lt (mt List.mem_range.mpr outside)
  rw [absent]
  rfl

/-- Items are sorted by their keys, if every key is among some that are apart. -/
theorem perm_flatMap_filter [BEq β] [LawfulBEq β] {items : List α} {keys : List β} {key : α → β}
    (apart : keys.Nodup) (sorted : ∀ item ∈ items, key item ∈ keys) :
    items.Perm (keys.flatMap fun wanted => items.filter (key · == wanted)) := by
  induction keys generalizing items with
  | nil =>
    rw [List.eq_nil_iff_forall_not_mem.mpr fun item member => List.not_mem_nil (sorted item member)]
    rfl
  | cons first rest ih =>
    obtain ⟨other, apart⟩ := List.nodup_cons.mp apart
    -- Those that are left have a key among the rest, and no one of the rest has lost any.
    have left : ∀ item ∈ items.filter fun item => !(key item == first), key item ∈ rest := by
      intro item member
      obtain ⟨inside, differs⟩ := List.mem_filter.mp member
      have ne : key item ≠ first := by simpa using differs
      exact (List.mem_cons.mp (sorted item inside)).resolve_left ne
    have kept : (rest.flatMap fun wanted => (items.filter fun item => !(key item == first)).filter
        (key · == wanted)) = rest.flatMap fun wanted => items.filter (key · == wanted) := by
      apply List.flatMap_congr
      intro wanted among
      rw [List.filter_filter]
      apply List.filter_congr
      intro item _
      by_cases same : key item = wanted
      · have ne : key item ≠ first := fun alike => other (alike ▸ same ▸ among)
        simp [same, same ▸ ne]
      · simp [same]
    rw [List.flatMap_cons]
    have split := List.filter_append_perm (key · == first) items
    exact split.symm.trans ((kept ▸ ih apart left).append_left _)

/-- Some of the items, and those that are left when their keys are taken out. -/
theorem perm_filter_append [DecidableEq β] {items some : List α} {key : α → β}
    (distinct : (items.map key).Nodup) (among : some.Subperm items) :
    items.Perm ((items.filter fun item => key item ∉ some.map key) ++ some) := by
  have unique := List.inj_on_of_nodup_map distinct
  have once := List.Nodup.of_map key distinct
  have apart : some.Nodup := by
    obtain ⟨same, perm, sublist⟩ := among
    exact perm.nodup_iff.mp (sublist.nodup once)
  have taken : (items.filter fun item => !decide (key item ∉ some.map key)).Perm some := by
    refine (List.perm_ext_iff_of_nodup (once.filter _) apart).mpr fun item => ?_
    simp only [List.mem_filter, Bool.not_eq_true', decide_eq_false_iff_not, not_not]
    constructor
    · rintro ⟨inside, same⟩
      obtain ⟨other, there, alike⟩ := List.mem_map.mp same
      exact unique (among.subset there) inside alike ▸ there
    · intro there
      exact ⟨among.subset there, List.mem_map_of_mem there⟩
  have split := List.filter_append_perm (fun item => decide (key item ∉ some.map key)) items
  exact split.symm.trans (taken.append_left _)

section

variable {ι : Type} {items : List α} {spots : List ι} {shelf : ι → List α} {key : α → β} {item : α}
  (same : items.Perm (spots.flatMap shelf)) (bare : ∀ spot, spot ∉ spots → shelf spot = [])

include same bare

/-- If shelves together have the items, then there is nothing else on any of them. -/
theorem shelf_subset (spot : ι) : shelf spot ⊆ items := by
  intro item there
  by_cases inside : spot ∈ spots
  · exact same.mem_iff.mpr (List.mem_flatMap.mpr ⟨spot, inside, there⟩)
  · rw [bare spot inside] at there
    cases there

/-- If shelves together have the items, then there is nothing else in any place. -/
theorem exists_of_place {place : ι × Nat} {value : β}
    (found : (shelf place.1)[place.2]?.map key = some value) :
    ∃ item ∈ items, key item = value := by
  obtain ⟨item, there, alike⟩ := Option.map_eq_some_iff.mp found
  exact ⟨item, shelf_subset same bare place.1 (List.mem_of_getElem? there), alike⟩

/-- If shelves together have every item once, then every item has one place. Items are told apart
by their keys. -/
theorem existsUnique_place (distinct : (items.map key).Nodup) (member : item ∈ items) :
    ∃! place : ι × Nat, (shelf place.1)[place.2]?.map key = some (key item) := by
  have unique := List.inj_on_of_nodup_map distinct
  have once := same.nodup_iff.mp (List.Nodup.of_map key distinct)
  obtain ⟨each, disjoint⟩ := List.nodup_flatMap.mp once
  have among {spot : ι} {index : Nat} (found : (shelf spot)[index]?.map key = some (key item)) :
      spot ∈ spots ∧ (shelf spot)[index]? = some item := by
    obtain ⟨other, there, alike⟩ := Option.map_eq_some_iff.mp found
    have inside : spot ∈ spots := by
      by_contra outside
      rw [bare spot outside] at there
      cases there
    have known := shelf_subset same bare spot (List.mem_of_getElem? there)
    exact ⟨inside, unique known member alike ▸ there⟩
  obtain ⟨spot, inside, there⟩ := List.mem_flatMap.mp (same.mem_iff.mp member)
  obtain ⟨index, found⟩ := List.mem_iff_getElem?.mp there
  refine ⟨(spot, index), congrArg (Option.map key) found, ?_⟩
  rintro ⟨other, position⟩ elsewhere
  obtain ⟨known, here⟩ := among elsewhere
  dsimp only at known here
  obtain rfl : other = spot := by
    by_contra differs
    have : Std.Symm (Function.onFun List.Disjoint shelf) := ⟨fun _ _ => List.Disjoint.symm⟩
    exact disjoint.forall known inside differs (List.mem_of_getElem? here) there
  obtain ⟨within, -⟩ := List.getElem?_eq_some_iff.mp here
  obtain rfl := (List.getElem?_inj within (each other known)).mp (here.trans found.symm)
  rfl

end

end Wavefront
