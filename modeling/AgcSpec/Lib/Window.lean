/-
# Circular buffers and sliding windows

A circular buffer is a list and a position; a new element takes the place of
the one at the position, which is the oldest, and the position moves on, from
the last place to the first. Read from the position on (`unroll`), the buffer
is the window of the last elements of its history, and what an element
replaces is the one that came a whole window before it.

Key definitions: `next`, `unroll`, `IsWindow`, `lagged`.
Key theorems: `IsWindow.push`, `IsWindow.oldest`, `lagged_append`.
-/
import Mathlib.Data.List.Basic

namespace Window

variable {α β : Type}

/-- The place after `pos` in a buffer of `n` places. -/
def next (n pos : ℕ) : ℕ := if pos + 1 = n then 0 else pos + 1

/-- The elements of a circular buffer, the oldest first. -/
def unroll (l : List α) (pos : ℕ) : List α := l.drop pos ++ l.take pos

theorem unroll_set (l : List α) {pos : ℕ} (h : pos < l.length) (x : α) :
    unroll (l.set pos x) (next l.length pos) = (unroll l pos).tail ++ [x] := by
  have hset : l.set pos x = l.take pos ++ x :: l.drop (pos + 1) :=
    List.set_eq_take_append_cons_drop ▸ if_pos h
  have hlen : (l.take pos).length = pos := List.length_take_of_le (Nat.le_of_lt h)
  have htail : (unroll l pos).tail = l.drop (pos + 1) ++ l.take pos := by
    rw [unroll, List.drop_eq_getElem_cons h]
    rfl
  rw [htail, hset, unroll, next]
  split
  · rename_i hn
    have hd : l.drop (pos + 1) = [] := List.drop_eq_nil_of_le (by omega)
    simp [hd]
  · rw [List.drop_append, List.take_append, hlen, List.drop_eq_nil_of_le (by omega),
      List.take_of_length_le (by omega)]
    simp

/-- A buffer is the window at the end of a history. -/
structure IsWindow (start es l : List α) (pos : ℕ) : Prop where
  length : l.length = start.length
  pos_lt : pos < l.length
  unroll_eq : unroll l pos = (start ++ es).drop es.length

theorem IsWindow.start {start : List α} (h : start ≠ []) : IsWindow start [] start 0 :=
  ⟨rfl, List.length_pos_of_ne_nil h, by simp [unroll]⟩

/-- The element at the position is the one a window before the next. -/
theorem IsWindow.oldest {start es l : List α} {pos : ℕ} (h : IsWindow start es l pos) :
    (start ++ es)[es.length]? = l[pos]? := by
  have h1 : (unroll l pos)[0]? = l[pos]? := by
    rw [unroll, List.getElem?_append_left (by rw [List.length_drop]; have := h.pos_lt; omega)]
    simp
  rw [← h1, h.unroll_eq]
  simp

/-- A new element moves the window on. -/
theorem IsWindow.push {start es l : List α} {pos : ℕ} (h : IsWindow start es l pos) (x : α) :
    IsWindow start (es ++ [x]) (l.set pos x) (next l.length pos) := by
  have hpos := h.pos_lt
  refine ⟨by simpa using h.length, ?_, ?_⟩
  · rw [List.length_set, next]
    split <;> omega
  · have hle : es.length + 1 ≤ (start ++ es).length := by
      have := h.length
      simp only [List.length_append]
      omega
    rw [unroll_set l hpos, h.unroll_eq, List.tail_drop, ← List.append_assoc, List.length_append,
      List.length_singleton, List.drop_append_of_le_length hle]

/-- Every element of a history with the one that came a window before it. -/
def lagged (f : α → α → β) (start es : List α) : List β := List.zipWith f es (start ++ es)

theorem lagged_append (f : α → α → β) {start es : List α} {x y : α}
    (h : (start ++ es)[es.length]? = some y) :
    lagged f start (es ++ [x]) = lagged f start es ++ [f x y] := by
  obtain ⟨hlt, hy⟩ := List.getElem?_eq_some_iff.mp h
  have hsplit : start ++ (es ++ [x]) = (start ++ es).take es.length ++
      ((start ++ es).drop es.length ++ [x]) := by
    rw [← List.append_assoc, ← List.append_assoc, List.take_append_drop]
  have hlen : ((start ++ es).take es.length).length = es.length :=
    List.length_take_of_le (Nat.le_of_lt hlt)
  have hpre : lagged f start es = List.zipWith f es ((start ++ es).take es.length) := by
    rw [lagged, List.zipWith_eq_zipWith_take_min, Nat.min_eq_left (Nat.le_of_lt hlt),
      List.take_length]
  rw [hpre, lagged, hsplit, List.zipWith_append hlen.symm, List.drop_eq_getElem_cons hlt, hy]
  simp

end Window
