/-
# Bounded first-in first-out queues

The abstract queue of a given capacity, as a labelled step relation: an event
says which element went in or came out. Along every run the elements that
came out, followed by those still inside, are the elements that went in, in
their order; a system that is simulated by the queue loses, duplicates and
reorders nothing.

Key definitions: `Event`, `Step`, `entered`, `left`.
Key theorems: `run_entered`, `run_left_getElem`.
-/
import AgcSpec.Lib.Run

namespace Fifo

open Runs

variable {α : Type}

/-- What a user of the queue sees. -/
inductive Event (α : Type) where
  | enq (x : α)
  | deq (x : α)

/-- A queue with room for `cap` elements, its front first. -/
inductive Step (cap : ℕ) : List α → Event α → List α → Prop
  | enq {q : List α} {x : α} : q.length < cap → Step cap q (.enq x) (q ++ [x])
  | deq {q : List α} {x : α} : Step cap (x :: q) (.deq x) q

/-- The elements that went in, in order. -/
def entered (es : List (Event α)) : List α := es.filterMap fun
  | .enq x => some x
  | .deq _ => none

/-- The elements that came out, in order. -/
def left (es : List (Event α)) : List α := es.filterMap fun
  | .enq _ => none
  | .deq x => some x

/-- What came out and what is inside is what went in. -/
theorem run_entered {cap : ℕ} {es : List (Event α)} {q : List α} (h : Run (Step cap) [] es q) :
    entered es = left es ++ q := by
  refine h.history (I := fun es q => entered es = left es ++ q) rfl ?_
  rintro es q a q' ih (⟨-⟩ | -)
  · simp only [entered, left, List.filterMap_append] at ih ⊢
    simp [ih]
  · simp only [entered, left, List.filterMap_append] at ih ⊢
    simp [ih]

/-- Event by event: the `k`-th element to come out is the `k`-th that went in. -/
theorem run_left_getElem {cap : ℕ} {es : List (Event α)} {q : List α}
    (h : Run (Step cap) [] es q)
    {k : ℕ} (hk : k < (left es).length) : (left es)[k]? = (entered es)[k]? := by
  rw [run_entered h, List.getElem?_append_left hk]

end Fifo
