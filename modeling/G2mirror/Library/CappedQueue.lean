import Mathlib.Data.List.DropRight

/-!
# Queues with a capacity

A queue that appends at the back and evicts from the front is the same as
keeping the last `cap` elements of everything appended. The lemmas here state
this once, for an arbitrary element type, in terms of `List.rtake`.
-/

namespace CappedQueue

variable {α β : Type*}

/-- Append at the back and evict from the front down to the capacity. -/
def push (cap : ℕ) (queue : List α) (x : α) : List α := (queue ++ [x]).rtake cap

/-- Append several elements, the first of the list first. -/
def pushAll (cap : ℕ) (queue xs : List α) : List α := xs.foldl (push cap) queue

/-- Keeping the last elements keeps at most that many. -/
@[simp] theorem length_rtake (l : List α) (n : ℕ) : (l.rtake n).length = min n l.length := by
  simp only [List.rtake, List.length_drop]
  omega

/-- A list no longer than the bound is kept whole. -/
theorem rtake_of_length_le {l : List α} {n : ℕ} (h : l.length ≤ n) : l.rtake n = l := by
  simp [List.rtake, Nat.sub_eq_zero_of_le h]

/-- The last elements of an append: all of the back, then what still fits of the front. -/
theorem rtake_append (l r : List α) (n : ℕ) :
    (l ++ r).rtake n = l.rtake (n - r.length) ++ r.rtake n := by
  rcases Nat.le_total n r.length with h | h
  · have hdrop : l.length ≤ l.length + r.length - n := by omega
    simp only [List.rtake, List.length_append, List.drop_append, Nat.sub_eq_zero_of_le h,
      Nat.sub_zero, List.drop_length, List.drop_of_length_le hdrop, List.nil_append]
    congr 1
    omega
  · have hr : r.rtake n = r := rtake_of_length_le h
    rw [hr, List.rtake, List.rtake, List.length_append, List.drop_append_of_le_length (by omega)]
    congr 2
    omega

/-- Keeping the last elements twice keeps the smaller number of them. -/
theorem rtake_rtake (l : List α) (m n : ℕ) : (l.rtake m).rtake n = l.rtake (min n m) := by
  simp only [List.rtake, List.length_drop, List.drop_drop]
  congr 1
  omega

/-- The last elements are a suffix. -/
theorem rtake_suffix (l : List α) (n : ℕ) : l.rtake n <:+ l := List.drop_suffix _ _

/-- Fewer last elements are a suffix of more of them. -/
theorem rtake_suffix_rtake (l : List α) {m n : ℕ} (h : m ≤ n) : l.rtake m <:+ l.rtake n := by
  rw [← Nat.min_eq_left h, ← rtake_rtake]
  exact rtake_suffix _ _

/-- Appending grows the queue by one until it is full. -/
@[simp] theorem length_push (cap : ℕ) (queue : List α) (x : α) :
    (push cap queue x).length = min cap (queue.length + 1) := by
  simp [push]

/-- A queue with room keeps everything when one element is appended. -/
theorem push_of_lt {cap : ℕ} {queue : List α} (x : α) (h : queue.length < cap) :
    push cap queue x = queue ++ [x] :=
  rtake_of_length_le (by rw [List.length_append]; exact h)

/-- A full queue loses its front when one element is appended. -/
theorem push_of_full {cap : ℕ} {front : α} {queue : List α} (x : α)
    (h : (front :: queue).length = cap) : push cap (front :: queue) x = queue ++ [x] := by
  unfold push List.rtake
  rw [List.cons_append, List.length_cons, List.length_append, List.length_singleton]
  rw [List.length_cons] at h
  rw [show queue.length + 1 + 1 - cap = 1 by omega, List.drop_one, List.tail_cons]

/-- What a queue ends with is still there after one more element, as long as both fit. -/
theorem append_suffix_push {cap : ℕ} {queue back : List α} (x : α) (h : back <:+ queue)
    (hcap : back.length < cap) : back ++ [x] <:+ push cap queue x := by
  obtain ⟨front, rfl⟩ := h
  rw [push, List.append_assoc, rtake_append]
  have hfit : (back ++ [x]).rtake cap = back ++ [x] :=
    rtake_of_length_le (by rw [List.length_append]; exact hcap)
  rw [hfit]
  exact List.suffix_append _ _

/-- A list is what is left without a suffix, and the suffix. -/
theorem rdrop_append_of_suffix {l back : List α} (h : back <:+ l) :
    l.rdrop back.length ++ back = l := by
  obtain ⟨front, rfl⟩ := h
  rw [List.rdrop, List.length_append, Nat.add_sub_cancel, List.take_left]

/-- A suffix is what one gets by keeping as many last elements as it has. -/
theorem rtake_length_of_suffix {l back : List α} (h : back <:+ l) : l.rtake back.length = back := by
  obtain ⟨front, rfl⟩ := h
  rw [rtake_append, Nat.sub_self, List.rtake_zero, List.nil_append, rtake_of_length_le le_rfl]

/-- Appending several elements keeps the last ones of everything appended. The
bound holds of every queue that `push` itself has built. -/
theorem pushAll_eq_rtake {cap : ℕ} {queue : List α} (xs : List α) (h : queue.length ≤ cap) :
    pushAll cap queue xs = (queue ++ xs).rtake cap := by
  induction xs generalizing queue with
  | nil => simp [pushAll, rtake_of_length_le h]
  | cons x xs ih =>
    have hpush : (push cap queue x).length ≤ cap := by
      rw [length_push]
      exact Nat.min_le_left _ _
    change pushAll cap (push cap queue x) xs = _
    rw [ih hpush, push]
    have hsplit : queue ++ x :: xs = (queue ++ [x]) ++ xs := by simp
    rw [hsplit, rtake_append _ xs, rtake_append _ xs, rtake_rtake,
      Nat.min_eq_left (Nat.sub_le _ _)]

/-- What a queue ends with is still there after several more elements, as long as all fit. -/
theorem append_suffix_pushAll {cap : ℕ} {queue back xs : List α} (h : back <:+ queue)
    (hcap : (back ++ xs).length ≤ cap) : back ++ xs <:+ pushAll cap queue xs := by
  induction xs generalizing queue back with
  | nil => rwa [List.append_nil]
  | cons x xs ih =>
    rw [List.length_append, List.length_cons] at hcap
    have hfits : back.length < cap := by omega
    have hnext := ih (append_suffix_push x h hfits) (by
      rw [List.length_append, List.length_append, List.length_singleton]
      omega)
    rwa [List.append_assoc, List.singleton_append] at hnext

/-- Appending nothing changes nothing. -/
@[simp] theorem pushAll_nil (cap : ℕ) (queue : List α) : pushAll cap queue [] = queue := rfl

/-- Appending in two portions is appending their concatenation. -/
theorem pushAll_append (cap : ℕ) (queue xs ys : List α) :
    pushAll cap queue (xs ++ ys) = pushAll cap (pushAll cap queue xs) ys :=
  List.foldl_append

end CappedQueue
