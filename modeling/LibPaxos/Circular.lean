import Mathlib

universe u

-- A list laid out in the cells of a fixed array, from `head` on and around the end.
structure Circular {α : Type u} (cells : List α) (head : Nat) (xs : List α) : Prop where
  head_lt : head < cells.length
  length_le : xs.length ≤ cells.length
  get : ∀ i < xs.length, cells[(head + i) % cells.length]? = xs[i]?

namespace Circular

variable {α : Type u} {cells : List α} {head : Nat} {xs : List α}

-- One lap is enough: an index never passes the end twice.
theorem mod_eq_ite {x size : Nat} (h : x < size + size) :
    x % size = if x < size then x else x - size := by
  split_ifs with hlt
  · exact Nat.mod_eq_of_lt hlt
  · rw [Nat.mod_eq_sub_mod (by omega), Nat.mod_eq_of_lt (by omega)]

-- Different offsets below the size are different cells.
theorem index_ne {size a b : Nat} (hhead : head < size) (ha : a < size) (hb : b < size)
    (hne : a ≠ b) : (head + a) % size ≠ (head + b) % size := by
  rw [mod_eq_ite (by omega), mod_eq_ite (by omega)]
  split_ifs <;> omega

theorem index_lt {size i : Nat} (hhead : head < size) : (head + i) % size < size :=
  Nat.mod_lt _ (by omega)

theorem nil (h : head < cells.length) : Circular cells head [] :=
  ⟨h, Nat.zero_le _, fun i hi => absurd hi (Nat.not_lt_zero i)⟩

theorem push_back (h : Circular cells head xs) (hroom : xs.length < cells.length) (x : α) :
    Circular (cells.set ((head + xs.length) % cells.length) x) head (xs ++ [x]) := by
  refine ⟨by simpa using h.head_lt, by simpa using hroom, fun i hi => ?_⟩
  rw [List.length_append, List.length_singleton] at hi
  rw [List.length_set]
  cases Nat.lt_or_ge i xs.length with
  | inl hold =>
    have hne := index_ne h.head_lt hroom (by omega) (Nat.ne_of_gt hold)
    rw [List.getElem?_set_ne hne, List.getElem?_append_left hold, h.get i hold]
  | inr hnew =>
    obtain rfl : i = xs.length := by omega
    rw [List.getElem?_set_self (index_lt h.head_lt)]
    simp

-- The cell before the head, which is the last one for head 0.
theorem push_front (h : Circular cells head xs) (hroom : xs.length < cells.length) (x : α) :
    Circular (cells.set (if 1 ≤ head then head - 1 else cells.length - 1) x)
      (if 1 ≤ head then head - 1 else cells.length - 1) (x :: xs) := by
  have hhead := h.head_lt
  generalize hfront : (if 1 ≤ head then head - 1 else cells.length - 1) = front
  have hlt : front < cells.length := by
    rw [← hfront]
    split_ifs <;> omega
  -- Offset `i` from the old head is offset `i + 1` from the new one.
  have hshift (i : Nat) (hi : i < cells.length) :
      (front + (i + 1)) % cells.length = (head + i) % cells.length := by
    rw [mod_eq_ite (by omega), mod_eq_ite (by omega), ← hfront]
    split_ifs <;> omega
  refine ⟨by simpa using hlt, by simpa using hroom, fun i hi => ?_⟩
  rw [List.length_set]
  cases i with
  | zero =>
    rw [Nat.add_zero, Nat.mod_eq_of_lt hlt, List.getElem?_set_self hlt, List.getElem?_cons_zero]
  | succ i =>
    rw [List.length_cons] at hi
    have hne : front ≠ (front + (i + 1)) % cells.length := by
      have := index_ne hlt (show 0 < cells.length by omega) (show i + 1 < cells.length by omega)
        (by omega)
      rwa [Nat.add_zero, Nat.mod_eq_of_lt hlt] at this
    rw [List.getElem?_set_ne hne, hshift i (by omega), h.get i (by omega), List.getElem?_cons_succ]

theorem front {x : α} (h : Circular cells head (x :: xs)) : cells[head]? = some x := by
  have hget := h.get 0 (by simp)
  rwa [Nat.add_zero, Nat.mod_eq_of_lt h.head_lt] at hget

theorem pop_front {x : α} (h : Circular cells head (x :: xs)) :
    Circular cells ((head + 1) % cells.length) xs := by
  have hhead := h.head_lt
  have hlen := h.length_le
  rw [List.length_cons] at hlen
  refine ⟨index_lt hhead, by omega, fun i hi => ?_⟩
  have hshift : ((head + 1) % cells.length + i) % cells.length =
      (head + (i + 1)) % cells.length := by
    rw [Nat.mod_add_mod]
    congr 1
    omega
  rw [hshift, h.get (i + 1) (by simpa using hi), List.getElem?_cons_succ]

end Circular
