import Mathlib

-- Numbers in memory, least significant byte first.
def toBytes : Nat → Nat → List UInt8
  | 0, _ => []
  | width + 1, n => UInt8.ofNat n :: toBytes width (n / 256)

def ofBytes : List UInt8 → Nat
  | [] => 0
  | b :: rest => b.toNat + 256 * ofBytes rest

@[simp] theorem length_toBytes (width n : Nat) : (toBytes width n).length = width := by
  induction width generalizing n with
  | zero => rfl
  | succ width ih => simp [toBytes, ih]

theorem ofBytes_toBytes {width n : Nat} (h : n < 256 ^ width) : ofBytes (toBytes width n) = n := by
  induction width generalizing n with
  | zero =>
      rw [Nat.pow_zero] at h
      simp only [toBytes, ofBytes]
      omega
  | succ width ih =>
      rw [Nat.pow_succ] at h
      have hrest : n / 256 < 256 ^ width := by omega
      have hbyte : (UInt8.ofNat n).toNat = n % 256 := UInt8.toNat_ofNat'
      simp only [toBytes, ofBytes, ih hrest, hbyte]
      omega

-- The bytes from `offset` on, if all of them are there.
def bytesAt (data : List UInt8) (offset size : Nat) : Option (List UInt8) :=
  if offset + size ≤ data.length then some ((data.drop offset).take size) else none

def numberAt (data : List UInt8) (offset width : Nat) : Option Nat :=
  (bytesAt data offset width).map ofBytes

theorem bytesAt_append (before rest : List UInt8) {offset size : Nat}
    (h : before.length ≤ offset) :
    bytesAt (before ++ rest) offset size = bytesAt rest (offset - before.length) size := by
  have hdrop : (before ++ rest).drop offset = rest.drop (offset - before.length) := by
    rw [List.drop_append, List.drop_eq_nil_of_le h, List.nil_append]
  have hroom : offset + size ≤ (before ++ rest).length ↔
      offset - before.length + size ≤ rest.length := by
    rw [List.length_append]
    omega
  simp only [bytesAt, hdrop, hroom]

theorem bytesAt_zero (data rest : List UInt8) :
    bytesAt (data ++ rest) 0 data.length = some data := by
  simp [bytesAt]

theorem numberAt_append (before rest : List UInt8) {offset width : Nat}
    (h : before.length ≤ offset) :
    numberAt (before ++ rest) offset width = numberAt rest (offset - before.length) width := by
  rw [numberAt, bytesAt_append before rest h, numberAt]

theorem numberAt_toBytes (width : Nat) {n : Nat} (h : n < 256 ^ width) (rest : List UInt8) :
    numberAt (toBytes width n ++ rest) 0 width = some n := by
  have hbytes := bytesAt_zero (toBytes width n) rest
  rw [length_toBytes] at hbytes
  rw [numberAt, hbytes, Option.map_some, ofBytes_toBytes h]

-- What lies in a prefix is read from there as well.
theorem bytesAt_take (data : List UInt8) {count offset size : Nat} (h : offset + size ≤ count) :
    bytesAt (data.take count) offset size = bytesAt data offset size := by
  have hroom : offset + size ≤ (data.take count).length ↔ offset + size ≤ data.length := by
    rw [List.length_take]
    omega
  have hbytes : ((data.take count).drop offset).take size = (data.drop offset).take size := by
    rw [List.drop_take, List.take_take, Nat.min_eq_left (by omega)]
  simp only [bytesAt, hroom, hbytes]

theorem numberAt_take (data : List UInt8) {count offset width : Nat} (h : offset + width ≤ count) :
    numberAt (data.take count) offset width = numberAt data offset width := by
  rw [numberAt, bytesAt_take data h, numberAt]

theorem length_of_bytesAt {data bytes : List UInt8} {offset size : Nat}
    (h : bytesAt data offset size = some bytes) :
    bytes.length = size ∧ offset + size ≤ data.length := by
  rw [bytesAt] at h
  split at h
  · cases h
    rw [List.length_take, List.length_drop]
    omega
  · cases h

theorem ofBytes_lt (bytes : List UInt8) : ofBytes bytes < 256 ^ bytes.length := by
  induction bytes with
  | nil => exact Nat.one_pos
  | cons b rest ih =>
      have hb : b.toNat < 256 := b.toNat_lt
      rw [ofBytes, List.length_cons, Nat.pow_succ]
      omega

theorem ofBytes_append (xs ys : List UInt8) :
    ofBytes (xs ++ ys) = ofBytes xs + 256 ^ xs.length * ofBytes ys := by
  induction xs with
  | nil => simp [ofBytes]
  | cons b rest ih =>
      rw [List.cons_append, ofBytes, ih, ofBytes, List.length_cons, Nat.pow_succ]
      ring

-- Strings of one length are ordered as the numbers they are with their first byte
-- the most significant.
theorem map_toNat_lt_iff {xs ys : List UInt8} (h : xs.length = ys.length) :
    xs.map UInt8.toNat < ys.map UInt8.toNat ↔ ofBytes xs.reverse < ofBytes ys.reverse := by
  induction xs generalizing ys with
  | nil =>
      rw [List.eq_nil_of_length_eq_zero h.symm]
      simp
  | cons a xs ih =>
      cases ys with
      | nil => cases h
      | cons b ys =>
          rw [List.length_cons, List.length_cons, Nat.add_right_cancel_iff] at h
          have hx := ofBytes_lt xs.reverse
          have hy := ofBytes_lt ys.reverse
          rw [List.length_reverse] at hx hy
          rw [List.map_cons, List.map_cons, List.cons_lt_cons_iff, ih h, List.reverse_cons,
            List.reverse_cons, ofBytes_append, ofBytes_append, List.length_reverse,
            List.length_reverse]
          simp only [ofBytes, Nat.mul_zero, Nat.add_zero]
          rw [h] at hx ⊢
          generalize 256 ^ ys.length = w at hx hy ⊢
          rcases Nat.lt_trichotomy a.toNat b.toNat with hlt | heq | hgt
          · have := Nat.mul_le_mul_left w hlt
            rw [Nat.mul_succ] at this
            refine iff_of_true (.inl hlt) (by omega)
          · rw [heq]
            omega
          · have := Nat.mul_le_mul_left w hgt
            rw [Nat.mul_succ] at this
            refine iff_of_false (by omega) (by omega)
