/-
# First-in first-out lists

A list that is taken from at one end and added to at the other, in two halves so
that neither is slow, and with its length at hand.
-/

namespace Wavefront

/-- Elements in the order in which they were put in. -/
structure Fifo (α : Type) where
  /-- The elements to be taken first, in order. -/
  front : List α
  /-- The elements to be taken last, the latest first. -/
  back : List α
  size : Nat
  size_eq : size = front.length + back.length

namespace Fifo

variable {α : Type}

/-- The elements, in the order in which they are taken. -/
def toList (fifo : Fifo α) : List α := fifo.front ++ fifo.back.reverse

/-- Nothing to take. -/
def empty : Fifo α := ⟨[], [], 0, rfl⟩

/-- Put an element in last. -/
def push (fifo : Fifo α) (element : α) : Fifo α :=
  ⟨fifo.front, element :: fifo.back, fifo.size + 1, by rw [fifo.size_eq]; simp; omega⟩

/-- Put elements in after all others, in order. -/
def pushAll (fifo : Fifo α) (elements : List α) : Fifo α :=
  ⟨fifo.front, elements.reverse ++ fifo.back, fifo.size + elements.length, by
    rw [fifo.size_eq]; simp; omega⟩

/-- Take the first element out. -/
def pop? (fifo : Fifo α) : Option (α × Fifo α) :=
  match front : fifo.front with
  | first :: rest =>
      some (first, ⟨rest, fifo.back, fifo.size - 1, by
        rw [fifo.size_eq, front, List.length_cons]; omega⟩)
  | [] =>
      match back : fifo.back.reverse with
      | [] => none
      | first :: rest =>
          some (first, ⟨rest, [], fifo.size - 1, by
            have same := congrArg List.length back
            rw [List.length_reverse] at same
            rw [fifo.size_eq, front, same]; simp⟩)

@[simp]
theorem toList_empty : (empty : Fifo α).toList = [] := rfl

theorem size_eq_length (fifo : Fifo α) : fifo.size = fifo.toList.length := by
  rw [fifo.size_eq]; simp [toList]

@[simp]
theorem toList_push (fifo : Fifo α) (element : α) :
    (fifo.push element).toList = fifo.toList ++ [element] := by
  simp [toList, push]

@[simp]
theorem toList_pushAll (fifo : Fifo α) (elements : List α) :
    (fifo.pushAll elements).toList = fifo.toList ++ elements := by
  simp [toList, pushAll]

theorem pop?_eq_none_iff (fifo : Fifo α) : fifo.pop? = none ↔ fifo.toList = [] := by
  unfold pop? toList
  split
  · rename_i front
    simp [front]
  · rename_i front
    split
    · rename_i back
      simp [front, back]
    · rename_i back
      simp [front, back]

theorem toList_of_pop? {fifo rest : Fifo α} {first : α} (taken : fifo.pop? = some (first, rest)) :
    fifo.toList = first :: rest.toList := by
  unfold pop? at taken
  unfold toList
  split at taken
  · rename_i front
    cases taken
    simp [front]
  · rename_i front
    split at taken
    · simp at taken
    · rename_i back
      cases taken
      simp [front, back]

end Fifo

end Wavefront
