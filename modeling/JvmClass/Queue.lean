namespace JvmClass

/-!
# Queues

A first-in, first-out queue as two lists: elements leave at the head of `front`
and arrive at the head of `back`.  `Queue.toList` is the order in which they
will leave.
-/

/-- A first-in, first-out queue. -/
structure Queue (α : Type) where
  front : List α
  back : List α
  deriving Repr

namespace Queue

variable {α : Type}

/-- The queue of the elements of a list. -/
def ofList (elements : List α) : Queue α :=
  ⟨elements, []⟩

/-- The elements in the order in which they leave. -/
def toList (queue : Queue α) : List α :=
  queue.front ++ queue.back.reverse

/-- Adds an element behind all others. -/
def push (queue : Queue α) (element : α) : Queue α :=
  { queue with back := element :: queue.back }

/-- The element that leaves next and the queue without it. -/
def pop? (queue : Queue α) : Option (α × Queue α) :=
  match queue.front with
  | element :: front => some (element, { queue with front })
  | [] =>
      match queue.back.reverse with
      | element :: front => some (element, ⟨front, []⟩)
      | [] => none

/-- A list leaves in its own order. -/
@[simp] theorem toList_ofList (elements : List α) : (ofList elements).toList = elements := by
  simp [ofList, toList]

/-- A new element leaves last. -/
@[simp] theorem toList_push (queue : Queue α) (element : α) :
    (queue.push element).toList = queue.toList ++ [element] := by
  simp [push, toList]

/-- The element that leaves is the first, and the others stay in order. -/
theorem pop?_eq_some {queue rest : Queue α} {element : α}
    (popped : queue.pop? = some (element, rest)) :
    queue.toList = element :: rest.toList := by
  unfold pop? at popped
  unfold toList
  split at popped
  · rename_i front_eq
    simp only [Option.some.injEq, Prod.mk.injEq] at popped
    obtain ⟨rfl, rfl⟩ := popped
    simp [front_eq]
  · rename_i front_eq
    split at popped
    · rename_i back_eq
      simp only [Option.some.injEq, Prod.mk.injEq] at popped
      obtain ⟨rfl, rfl⟩ := popped
      simp [front_eq, back_eq]
    · simp at popped

/-- Nothing leaves exactly if there is nothing. -/
theorem pop?_eq_none_iff {queue : Queue α} : queue.pop? = none ↔ queue.toList = [] := by
  unfold pop? toList
  split
  · rename_i front_eq
    simp [front_eq]
  · rename_i front_eq
    split
    · rename_i back_eq
      simp [front_eq, back_eq]
    · rename_i back_eq
      simp [front_eq, back_eq]

end Queue
end JvmClass
