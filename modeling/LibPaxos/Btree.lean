import Mathlib

universe u v

variable {κ : Type u} {ν : Type v} [LinearOrder κ]

def insertEntry (k : κ) (v : ν) : List (κ × ν) → List (κ × ν)
  | [] => [(k, v)]
  | e :: rest =>
      if k < e.1 then (k, v) :: e :: rest
      else if k = e.1 then (k, v) :: rest
      else e :: insertEntry k v rest

theorem mem_keys_insertEntry {k x : κ} {v : ν} {es : List (κ × ν)} :
    x ∈ (insertEntry k v es).map Prod.fst ↔ x = k ∨ x ∈ es.map Prod.fst := by
  induction es with
  | nil => simp [insertEntry]
  | cons e rest ih =>
      rw [insertEntry]
      split_ifs with hlt heq
      · simp
      · simp [heq]
      · rw [List.map_cons, List.mem_cons, ih, List.map_cons, List.mem_cons]
        tauto

theorem sorted_insertEntry (k : κ) (v : ν) {es : List (κ × ν)}
    (h : (es.map Prod.fst).Pairwise (· < ·)) :
    ((insertEntry k v es).map Prod.fst).Pairwise (· < ·) := by
  induction es with
  | nil => simp [insertEntry]
  | cons e rest ih =>
      rw [List.map_cons, List.pairwise_cons] at h
      rw [insertEntry]
      split_ifs with hlt heq
      · rw [List.map_cons, List.pairwise_cons, List.map_cons, List.pairwise_cons]
        refine ⟨fun x hx => ?_, h⟩
        rcases List.mem_cons.mp hx with rfl | hx
        · exact hlt
        · exact lt_trans hlt (h.1 x hx)
      · rw [List.map_cons, List.pairwise_cons]
        exact ⟨fun x hx => heq ▸ h.1 x hx, h.2⟩
      · rw [List.map_cons, List.pairwise_cons]
        refine ⟨fun x hx => ?_, ih h.2⟩
        rcases mem_keys_insertEntry.mp hx with rfl | hx
        · exact lt_of_le_of_ne (not_lt.mp hlt) (Ne.symm heq)
        · exact h.1 x hx

theorem lookup_cons_eq_ite (x : κ) (e : κ × ν) (rest : List (κ × ν)) :
    (e :: rest).lookup x = if x = e.1 then some e.2 else rest.lookup x := by
  obtain ⟨key, value⟩ := e
  by_cases h : x = key
  · rw [if_pos h, h, List.lookup_cons_self]
  · rw [if_neg h, List.lookup_cons, beq_false_of_ne h]

theorem lookup_insertEntry (k x : κ) (v : ν) (es : List (κ × ν)) :
    (insertEntry k v es).lookup x = if x = k then some v else es.lookup x := by
  induction es with
  | nil => rw [insertEntry, lookup_cons_eq_ite]
  | cons e rest ih =>
      by_cases hlt : k < e.1
      · rw [insertEntry, if_pos hlt, lookup_cons_eq_ite]
      · by_cases heq : k = e.1
        · rw [insertEntry, if_neg hlt, if_pos heq, lookup_cons_eq_ite, lookup_cons_eq_ite]
          split_ifs with hx hx'
          · rfl
          · exact absurd (hx'.trans heq.symm) hx
          · rfl
        · rw [insertEntry, if_neg hlt, if_neg heq, lookup_cons_eq_ite, ih, lookup_cons_eq_ite]
          split_ifs with hx hx'
          · exact absurd (hx'.symm.trans hx) heq
          · rfl
          · rfl
          · rfl

-- A map whose cursor visits the entries in the order of their keys.
structure Btree (κ : Type u) (ν : Type v) [LinearOrder κ] where
  entries : List (κ × ν)
  sorted : (entries.map Prod.fst).Pairwise (· < ·)

namespace Btree

def empty : Btree κ ν := ⟨[], .nil⟩

def put (t : Btree κ ν) (k : κ) (v : ν) : Btree κ ν :=
  ⟨insertEntry k v t.entries, sorted_insertEntry k v t.sorted⟩

def keys (t : Btree κ ν) : List κ := t.entries.map Prod.fst

def get (t : Btree κ ν) (k : κ) : Option ν := t.entries.lookup k

theorem get_put (t : Btree κ ν) (k x : κ) (v : ν) :
    (t.put k v).get x = if x = k then some v else t.get x := lookup_insertEntry k x v t.entries

theorem mem_keys_iff {t : Btree κ ν} {k : κ} : k ∈ t.keys ↔ t.get k ≠ none := by
  rw [get, Ne, List.lookup_eq_none_iff, keys, List.mem_map]
  constructor
  · rintro ⟨e, he, rfl⟩ hall
    simpa using hall e he
  · intro hall
    push Not at hall
    obtain ⟨e, he, hk⟩ := hall
    have hkey : k = e.1 := by simpa using hk
    exact ⟨e, he, hkey.symm⟩

-- The last key a cursor visits is the greatest.
theorem le_of_getLast {t : Btree κ ν} {last x : κ} (h : t.keys.getLast? = some last)
    (hx : x ∈ t.keys) : x ≤ last := by
  obtain ⟨before, hkeys⟩ := List.getLast?_eq_some_iff.mp h
  have hsorted := t.sorted
  change t.keys.Pairwise (· < ·) at hsorted
  rw [hkeys, List.pairwise_append] at hsorted
  rw [hkeys] at hx
  rcases List.mem_append.mp hx with hx | hx
  · exact le_of_lt (hsorted.2.2 x hx last (List.mem_singleton.mpr rfl))
  · rw [List.mem_singleton.mp hx]

end Btree
