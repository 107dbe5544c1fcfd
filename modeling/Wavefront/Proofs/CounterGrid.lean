/-
# What the counter grid looks like

As long as both counters stay below `2 ^ 29`, no two states have the same fingerprint. Two
states that had would differ by a vector that the multiplier carries to zero, and such vectors
form a lattice; two of them are short and span it, and against both of them the difference is
so small that it can only be zero.

The states of a grid that can be reached are then counted, with their successors; and a way
from the origin to a state is as long as the sum of its counters says.
-/

import Mathlib.Algebra.BigOperators.Group.List.Basic
import Mathlib.Data.List.Chain
import Mathlib.Data.List.Nodup
import Mathlib.Data.List.ProdSigma
import Mathlib.Tactic.Linarith
import Mathlib.Tactic.LinearCombination
import Mathlib.Tactic.Ring
import Wavefront.CounterGrid
import Wavefront.Proofs.Pool.Counters
import Wavefront.Proofs.Trace.Discovery

namespace Wavefront

namespace GridState

/-! ## Fingerprints -/

/-- Rotating puts the low bits above the high ones. -/
theorem toNat_rotateLeft (word : UInt64) :
    (rotateLeft word 26).toNat = word.toNat % 2 ^ 38 * 2 ^ 26 + word.toNat / 2 ^ 38 := by
  have high : (word >>> (64 - 26)).toNat = word.toNat / 2 ^ 38 := by
    rw [UInt64.toNat_shiftRight, Nat.shiftRight_eq_div_pow]
    rfl
  have low : (word <<< 26).toNat = (word.toNat % 2 ^ 38) <<< 26 := by
    rw [UInt64.toNat_shiftLeft, Nat.shiftLeft_eq, Nat.shiftLeft_eq]
    show word.toNat * 2 ^ 26 % 2 ^ 64 = _
    omega
  have small : word.toNat / 2 ^ 38 < 2 ^ 26 := by
    have limit := word.toNat_lt
    omega
  rw [rotateLeft, UInt64.toNat_or, high, low, ← Nat.shiftLeft_add_eq_or_of_lt small,
    Nat.shiftLeft_eq]

theorem rotateLeft_injective {word other : UInt64}
    (same : rotateLeft word 26 = rotateLeft other 26) : word = other := by
  have turned := congrArg UInt64.toNat same
  rw [toNat_rotateLeft, toNat_rotateLeft] at turned
  have limit := word.toNat_lt
  have limit' := other.toNat_lt
  apply UInt64.toNat_inj.mp
  omega

/-- The multiplier is odd, so multiplying by it can be undone. -/
theorem mul_multiplier_injective {word other : UInt64}
    (same : word * multiplier = other * multiplier) : word = other := by
  have inverse : multiplier * 0x781494a55daaed0d = 1 := by decide
  have undone := congrArg (· * (0x781494a55daaed0d : UInt64)) same
  simpa only [UInt64.mul_assoc, inverse, UInt64.mul_one] using undone

/-- The multiplier carries no small difference to a small one, except zero to zero. The pairs of a
number and what it is carried to form a lattice, which is spanned by two short vectors. A pair
whose parts are less than `2 ^ 29` lies so close to the line along either of them that it can
only be on it, and they have different directions. -/
theorem eq_zero_of_mul_multiplier {difference image wraps : Int}
    (carried : difference * 0xf1357aea2e62a9c5 = image + 2 ^ 64 * wraps)
    (small : -2 ^ 29 < difference ∧ difference < 2 ^ 29) (low : -2 ^ 29 < image ∧ image < 2 ^ 29) :
    difference = 0 ∧ image = 0 := by
  obtain ⟨⟨above, below⟩, ⟨above', below'⟩⟩ := And.intro small low
  have whole (area turns : Int) (same : area = 2 ^ 64 * turns) (low : -2 ^ 63 < area)
      (high : area < 2 ^ 63) : area = 0 := by
    clear carried
    omega
  -- The areas that the pair spans with the two short vectors.
  have first : difference * 3279067730 + image * 3051110358 = 0 := by
    refine whole _ (difference * 2874824195 - wraps * 3051110358) ?_ (by linarith) (by linarith)
    linear_combination -3051110358 * carried
  have second : image * 2954322389 - difference * 2870863337 = 0 := by
    refine whole _ (difference * 2783628413 - wraps * 2954322389) ?_ (by linarith) (by linarith)
    linear_combination -2954322389 * carried
  have left : 2 ^ 64 * difference = 0 := by
    linear_combination 2954322389 * first - 3051110358 * second
  have right : 2 ^ 64 * image = 0 := by
    linear_combination 2870863337 * first + 3279067730 * second
  clear carried first second
  omega

theorem ext_toNat {state other : GridState} (x : state.x.toNat = other.x.toNat)
    (y : state.y.toNat = other.y.toNat) : state = other := by
  rcases state with ⟨_, _⟩
  rcases other with ⟨_, _⟩
  exact GridState.mk.injEq .. ▸ ⟨UInt32.toNat_inj.mp x, UInt32.toNat_inj.mp y⟩

/-- States with small counters have different fingerprints. -/
theorem eq_of_fingerprint_eq {state other : GridState}
    (small : state.x.toNat < 2 ^ 29 ∧ state.y.toNat < 2 ^ 29)
    (small' : other.x.toNat < 2 ^ 29 ∧ other.y.toNat < 2 ^ 29)
    (same : state.fingerprint = other.fingerprint) : state = other := by
  have words := congrArg UInt64.toNat (mul_multiplier_injective (rotateLeft_injective same))
  have numeral : multiplier.toNat = 0xf1357aea2e62a9c5 := rfl
  simp only [UInt64.toNat_add, UInt64.toNat_mul, UInt32.toNat_toUInt64, numeral] at words
  obtain ⟨wraps, carried⟩ : ∃ wraps : Int,
      ((state.x.toNat : Int) - other.x.toNat) * 0xf1357aea2e62a9c5 =
        ((other.y.toNat : Int) - state.y.toNat) + 2 ^ 64 * wraps :=
    ⟨((state.x.toNat * 0xf1357aea2e62a9c5 + state.y.toNat) / 2 ^ 64 : Int) -
      ((other.x.toNat * 0xf1357aea2e62a9c5 + other.y.toNat) / 2 ^ 64 : Int), by omega⟩
  obtain ⟨left, right⟩ := eq_zero_of_mul_multiplier carried (by omega) (by omega)
  exact ext_toNat (by omega) (by omega)

/-! ## Raising counters -/

/-- Both counters together. -/
def sum (state : GridState) : Nat := state.x.toNat + state.y.toNat

/-- One of the counters is raised by one, and the other stays. -/
def Raises (state next : GridState) : Prop :=
  next.x.toNat = state.x.toNat + 1 ∧ next.y = state.y ∨
    next.x = state.x ∧ next.y.toNat = state.y.toNat + 1

variable {state next first last : GridState}

theorem Raises.sum_eq (raises : state.Raises next) : next.sum = state.sum + 1 := by
  unfold sum
  rcases raises with ⟨x, y⟩ | ⟨x, y⟩
  · rw [x, y]
    omega
  · rw [x, y]
    omega

theorem Raises.le (raises : state.Raises next) :
    state.x.toNat ≤ next.x.toNat ∧ state.y.toNat ≤ next.y.toNat := by
  rcases raises with ⟨x, y⟩ | ⟨x, y⟩
  · rw [x, y]
    omega
  · rw [x, y]
    omega

/-- Every state but the origin comes from raising a counter. -/
theorem exists_raises (positive : state.sum ≠ 0) : ∃ before : GridState, before.Raises state := by
  by_cases x : state.x.toNat = 0
  · have y : state.y.toNat ≠ 0 := fun none => positive (by rw [sum, x, none])
    refine ⟨⟨state.x, UInt32.ofNat (state.y.toNat - 1)⟩, .inr ⟨rfl, ?_⟩⟩
    have limit := state.y.toNat_lt
    rw [UInt32.toNat_ofNat', Nat.mod_eq_of_lt (by omega)]
    omega
  · refine ⟨⟨UInt32.ofNat (state.x.toNat - 1), state.y⟩, .inl ⟨?_, rfl⟩⟩
    have limit := state.x.toNat_lt
    rw [UInt32.toNat_ofNat', Nat.mod_eq_of_lt (by omega)]
    omega

/-- Where counters are raised one at a time, the number of states says by how much. -/
theorem length_of_raises {states : List GridState} (chain : states.IsChain Raises)
    (head : states.head? = some first) (final : states.getLast? = some last) :
    first.sum + states.length = last.sum + 1 := by
  induction chain generalizing first with
  | nil => cases head
  | singleton state =>
    cases head
    cases final
    rfl
  | @cons_cons state next rest raises chain ih =>
    cases head
    have later := ih rfl (by rwa [List.getLast?_cons_cons] at final)
    have more := raises.sum_eq
    rw [List.length_cons]
    omega

end GridState

namespace CounterGrid

variable {grid : CounterGrid} {state next : GridState} {bound : UInt32}

/-- Both counters keep to their bounds. -/
def Within (grid : CounterGrid) (state : GridState) : Prop :=
  state.x.toNat ≤ grid.maxX.toNat ∧ state.y.toNat ≤ grid.maxY.toNat

/-- Below a limit, a counter can be raised. -/
theorem toNat_add_one_of_lt {word limit : UInt32} (room : word < limit) :
    (word + 1).toNat = word.toNat + 1 ∧ word.toNat + 1 ≤ limit.toNat := by
  have less := UInt32.lt_iff_toNat_lt.mp room
  have most := limit.toNat_lt
  rw [UInt32.toNat_add, UInt32.toNat_one, Nat.mod_eq_of_lt (by omega)]
  exact ⟨rfl, less⟩

/-- A neighbour of a state is what one of its counters is raised to. -/
theorem raises_of_mem_neighbours (member : next ∈ grid.neighbours state) : state.Raises next := by
  rw [neighbours, List.mem_append, List.mem_ite_nil_right, List.mem_ite_nil_right,
    List.mem_singleton, List.mem_singleton] at member
  rcases member with ⟨room, rfl⟩ | ⟨room, rfl⟩
  · exact .inl ⟨(toNat_add_one_of_lt room).1, rfl⟩
  · exact .inr ⟨rfl, (toNat_add_one_of_lt room).1⟩

/-- The neighbours of a state are all states within the bounds that one of its counters is raised
to. -/
theorem mem_neighbours_iff (within : grid.Within state) :
    next ∈ grid.neighbours state ↔ state.Raises next ∧ grid.Within next := by
  constructor
  · intro member
    refine ⟨raises_of_mem_neighbours member, ?_⟩
    rw [neighbours, List.mem_append, List.mem_ite_nil_right, List.mem_ite_nil_right,
      List.mem_singleton, List.mem_singleton] at member
    rcases member with ⟨room, rfl⟩ | ⟨room, rfl⟩
    · obtain ⟨up, most⟩ := toNat_add_one_of_lt room
      exact ⟨up.trans_le most, within.2⟩
    · obtain ⟨up, most⟩ := toNat_add_one_of_lt room
      exact ⟨within.1, up.trans_le most⟩
  · rintro ⟨⟨x, y⟩ | ⟨x, y⟩, inside⟩
    · have room : state.x < grid.maxX := UInt32.lt_iff_toNat_lt.mpr (x.symm.trans_le inside.1)
      refine List.mem_append.mpr (.inl (List.mem_ite_nil_right.mpr ⟨room, ?_⟩))
      refine List.mem_singleton.mpr (GridState.ext_toNat ?_ (by rw [y]))
      rw [x, (toNat_add_one_of_lt room).1]
    · have room : state.y < grid.maxY := UInt32.lt_iff_toNat_lt.mpr (y.symm.trans_le inside.2)
      refine List.mem_append.mpr (.inr (List.mem_ite_nil_right.mpr ⟨room, ?_⟩))
      refine List.mem_singleton.mpr (GridState.ext_toNat (by rw [x]) ?_)
      rw [y, (toNat_add_one_of_lt room).1]

theorem exceeds_eq_none_iff :
    grid.exceeds state = none ↔ ∀ bound, grid.maxSum = some bound → state.sum ≤ bound.toNat := by
  simp [exceeds, Option.filter_eq_none_iff, GridState.sum]

theorem exceeds_eq_some_iff :
    grid.exceeds state = some bound ↔ grid.maxSum = some bound ∧ bound.toNat < state.sum := by
  simp [exceeds, Option.filter_eq_some_iff, GridState.sum]

/-- A state within the bound on the sum has its neighbours as successors. -/
theorem successors_eq_ok_iff {states : List GridState} :
    grid.successors state = .ok states ↔
      (∀ bound, grid.maxSum = some bound → state.sum ≤ bound.toNat) ∧
        states = grid.neighbours state := by
  rw [← exceeds_eq_none_iff, successors]
  cases grid.exceeds state <;> simp [eq_comm]

/-- A state beyond the bound on the sum is a violation, and nothing else goes wrong. -/
theorem successors_eq_error_iff {stop : Stop} :
    grid.successors state = .error stop ↔
      ∃ bound, grid.maxSum = some bound ∧ bound.toNat < state.sum ∧
        stop = .failure (.violation (violationText state bound)) := by
  rw [successors]
  cases exceeds : grid.exceeds state with
  | none =>
    simp only [reduceCtorEq, false_iff]
    rintro ⟨bound, asked, beyond, -⟩
    exact absurd (exceeds_eq_none_iff.mp exceeds bound asked) (by omega)
  | some bound =>
    obtain ⟨asked, beyond⟩ := exceeds_eq_some_iff.mp exceeds
    simp only [Except.error.injEq]
    constructor
    · rintro rfl
      exact ⟨bound, asked, beyond, rfl⟩
    · rintro ⟨other, asked', -, rfl⟩
      rw [asked, Option.some.injEq] at asked'
      rw [asked']

/-- The states that can be reached are those within the bounds, up to the first sums that exceed
the bound on the sum. -/
theorem reachable_iff :
    grid.model.Reachable grid.initialStates state ↔
      grid.Within state ∧ ∀ bound, grid.maxSum = some bound → state.sum ≤ bound.toNat + 1 := by
  constructor
  · intro reachable
    induction reachable with
    | start member =>
      obtain rfl := List.mem_singleton.mp member
      exact ⟨⟨Nat.zero_le _, Nat.zero_le _⟩, fun bound _ => Nat.zero_le _⟩
    | step before computed member ih =>
      obtain ⟨low, rfl⟩ := successors_eq_ok_iff.mp computed
      obtain ⟨raises, within⟩ := (mem_neighbours_iff ih.1).mp member
      refine ⟨within, fun bound asked => ?_⟩
      rw [raises.sum_eq]
      exact Nat.succ_le_succ (low bound asked)
  · rintro ⟨within, low⟩
    obtain ⟨size, same⟩ : ∃ size, state.sum = size := ⟨_, rfl⟩
    induction size generalizing state with
    | zero =>
      have origin : state = ⟨0, 0⟩ := by
        unfold GridState.sum at same
        exact GridState.ext_toNat (Nat.eq_zero_of_add_eq_zero_right same)
          (Nat.eq_zero_of_add_eq_zero_left same)
      exact .start (List.mem_singleton.mpr origin)
    | succ size ih =>
      obtain ⟨before, raises⟩ := GridState.exists_raises (by omega : state.sum ≠ 0)
      have sums := raises.sum_eq
      have earlier : grid.Within before :=
        ⟨raises.le.1.trans within.1, raises.le.2.trans within.2⟩
      refine .step (ih earlier (fun bound asked => ?_) (by omega))
        (successors_eq_ok_iff.mpr ⟨fun bound asked => ?_, rfl⟩)
        ((mem_neighbours_iff earlier).mpr ⟨raises, within⟩)
      · have less := low bound asked
        omega
      · have less := low bound asked
        omega

/-- The states of a small grid have different fingerprints. -/
theorem eq_of_fingerprint_eq (smallX : grid.maxX.toNat < 2 ^ 29) (smallY : grid.maxY.toNat < 2 ^ 29)
    (first second : GridState) (here : grid.Within first) (there : grid.Within second)
    (same : first.fingerprint = second.fingerprint) : first = second :=
  GridState.eq_of_fingerprint_eq ⟨here.1.trans_lt smallX, here.2.trans_lt smallY⟩
    ⟨there.1.trans_lt smallX, there.2.trans_lt smallY⟩ same

/-! ## Counting -/

/-- All states within the bounds. -/
def states (grid : CounterGrid) : List GridState :=
  (List.range (grid.maxX.toNat + 1) ×ˢ List.range (grid.maxY.toNat + 1)).map
    fun place => ⟨UInt32.ofNat place.1, UInt32.ofNat place.2⟩

theorem toNat_ofNat_of_lt_succ {limit : UInt32} {count : Nat} (small : count < limit.toNat + 1) :
    (UInt32.ofNat count).toNat = count := by
  have most := limit.toNat_lt
  rw [UInt32.toNat_ofNat', Nat.mod_eq_of_lt (by omega)]

theorem mem_states_iff : state ∈ grid.states ↔ grid.Within state := by
  rw [states, List.mem_map]
  constructor
  · rintro ⟨⟨x, y⟩, member, rfl⟩
    obtain ⟨left, right⟩ := List.mem_product.mp member
    rw [List.mem_range] at left right
    exact ⟨by rw [toNat_ofNat_of_lt_succ left]; omega, by rw [toNat_ofNat_of_lt_succ right]; omega⟩
  · rintro ⟨left, right⟩
    refine ⟨(state.x.toNat, state.y.toNat), List.mem_product.mpr ⟨?_, ?_⟩, ?_⟩
    · exact List.mem_range.mpr (Nat.lt_succ_of_le left)
    · exact List.mem_range.mpr (Nat.lt_succ_of_le right)
    · rw [UInt32.ofNat_toNat, UInt32.ofNat_toNat]

theorem nodup_states (grid : CounterGrid) : grid.states.Nodup := by
  refine (List.nodup_range.product List.nodup_range).map_on ?_
  rintro ⟨x, y⟩ here ⟨x', y'⟩ there same
  obtain ⟨left, right⟩ := List.mem_product.mp here
  obtain ⟨left', right'⟩ := List.mem_product.mp there
  rw [List.mem_range] at left right left' right'
  have first := congrArg (fun state => state.x.toNat) same
  have second := congrArg (fun state => state.y.toNat) same
  simp only [toNat_ofNat_of_lt_succ left, toNat_ofNat_of_lt_succ left'] at first
  simp only [toNat_ofNat_of_lt_succ right, toNat_ofNat_of_lt_succ right'] at second
  rw [first, second]

theorem length_states (grid : CounterGrid) :
    grid.states.length = (grid.maxX.toNat + 1) * (grid.maxY.toNat + 1) := by
  rw [states, List.length_map, List.length_product, List.length_range, List.length_range]

/-- A sum over the numbers up to a limit, to which all but the limit add something more. -/
theorem sum_range_succ_ite (limit base more : Nat) :
    ((List.range (limit + 1)).map fun index => base + if index < limit then more else 0).sum =
      (limit + 1) * base + limit * more := by
  have below : (List.range limit).map (fun index => base + if index < limit then more else 0) =
      (List.range limit).map fun _ => base + more :=
    List.map_congr_left fun index member => by rw [if_pos (List.mem_range.mp member)]
  rw [List.range_succ, List.map_append, List.sum_append, below, List.map_const',
    List.sum_replicate, List.length_range]
  simp
  ring

/-- A sum over pairs is a sum of sums. -/
theorem sum_map_product (first second : List Nat) (term : Nat → Nat → Nat) :
    ((first ×ˢ second).map fun place => term place.1 place.2).sum =
      (first.map fun x => (second.map (term x)).sum).sum := by
  induction first with
  | nil => rfl
  | cons x rest ih =>
    rw [List.product_cons, List.map_append, List.sum_append, ih, List.map_map, List.map_cons,
      List.sum_cons]
    rfl

theorem length_neighbours (grid : CounterGrid) (state : GridState) :
    (grid.neighbours state).length = (if state.x.toNat < grid.maxX.toNat then 1 else 0) +
      if state.y.toNat < grid.maxY.toNat then 1 else 0 := by
  simp only [neighbours, List.length_append, UInt32.lt_iff_toNat_lt,
    apply_ite List.length, List.length_singleton, List.length_nil]

/-- The number of neighbours of all states together. -/
theorem sum_length_neighbours (grid : CounterGrid) :
    (grid.states.map fun state => (grid.neighbours state).length).sum =
      grid.maxX.toNat * (grid.maxY.toNat + 1) + grid.maxY.toNat * (grid.maxX.toNat + 1) := by
  have each : (grid.states.map fun state => (grid.neighbours state).length) =
      (List.range (grid.maxX.toNat + 1) ×ˢ List.range (grid.maxY.toNat + 1)).map fun place =>
        (if place.1 < grid.maxX.toNat then 1 else 0) +
          if place.2 < grid.maxY.toNat then 1 else 0 := by
    rw [states, List.map_map]
    refine List.map_congr_left ?_
    rintro ⟨x, y⟩ member
    obtain ⟨left, right⟩ := List.mem_product.mp member
    rw [List.mem_range] at left right
    rw [Function.comp_apply, length_neighbours, toNat_ofNat_of_lt_succ left,
      toNat_ofNat_of_lt_succ right]
  calc (grid.states.map fun state => (grid.neighbours state).length).sum
      = ((List.range (grid.maxX.toNat + 1)).map fun x =>
          ((List.range (grid.maxY.toNat + 1)).map fun y =>
            (if x < grid.maxX.toNat then 1 else 0) +
              if y < grid.maxY.toNat then 1 else 0).sum).sum := by
        rw [each]
        exact sum_map_product _ _ fun x y =>
          (if x < grid.maxX.toNat then 1 else 0) + if y < grid.maxY.toNat then 1 else 0
    _ = ((List.range (grid.maxX.toNat + 1)).map fun x =>
          grid.maxY.toNat + if x < grid.maxX.toNat then grid.maxY.toNat + 1 else 0).sum := by
        congr 2
        funext x
        rw [sum_range_succ_ite]
        split <;> omega
    _ = grid.maxX.toNat * (grid.maxY.toNat + 1) + grid.maxY.toNat * (grid.maxX.toNat + 1) := by
        rw [sum_range_succ_ite]
        ring

end CounterGrid

end Wavefront
