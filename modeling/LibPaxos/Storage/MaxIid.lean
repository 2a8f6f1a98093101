import LibPaxos.Btree
import LibPaxos.Bytes
import LibPaxos.Storage.Bdb

namespace LibPaxos

-- The key of a record is its iid as the host stores it. Berkeley DB compares keys as
-- strings of unsigned bytes.
def dbKey (iid : Nat) : List Nat := (toBytes 4 iid).map UInt8.toNat

def keyIid (key : List Nat) : Nat := ofBytes (key.map UInt8.ofNat)

-- The storage with the btree that Berkeley DB keeps its records in.
structure BdbFile where
  storage : BdbStorage
  tree : Btree (List Nat) AcceptorRecord

def BdbFile.open (acceptorId : Nat) : BdbFile where
  storage := BdbStorage.storageOpen acceptorId
  tree := .empty

inductive SaveCall where
  | accept (ar : AcceptReq)
  | prepare (pr : PrepareReq) (rec : Option AcceptorRecord)
  deriving Repr, DecidableEq

def SaveCall.iid : SaveCall → Nat
  | .accept ar => ar.iid
  | .prepare pr _ => pr.iid

def BdbFile.save (f : BdbFile) : SaveCall → BdbFile
  | .accept ar =>
      let (storage, buf) := f.storage.storageSaveAccept ar
      ⟨storage, f.tree.put (dbKey ar.iid) buf⟩
  | .prepare pr rec =>
      let (storage, buf) := f.storage.storageSavePrepare pr rec
      ⟨storage, f.tree.put (dbKey pr.iid) buf⟩

-- What the calls of a cursor answer: the keys that DB_NEXT visits and the result that
-- ends the loop. `none` is a cursor that could not be acquired.
def storageGetMaxIid : Option (List (List Nat) × DbResult) → Nat
  | none => 1
  | some (keys, ret) =>
      let maxIid := keys.foldl (fun _ key => keyIid key) 0
      match ret with
      | .notFound => maxIid
      | _ => 0

-- The cursor of a database without errors.
def BdbFile.cursor (f : BdbFile) : Option (List (List Nat) × DbResult) :=
  some (f.tree.keys, .notFound)

-- The iid read from the most significant byte of its key on.
def byteSwap (iid : Nat) : Nat := ofBytes (toBytes 4 iid).reverse

theorem keyIid_dbKey {iid : Nat} (h : iid < 2 ^ 32) : keyIid (dbKey iid) = iid := by
  have hsame : ((toBytes 4 iid).map UInt8.toNat).map UInt8.ofNat = toBytes 4 iid := by
    rw [List.map_map]
    exact (List.map_congr_left fun b _ => UInt8.ofNat_toNat).trans (List.map_id' _)
  rw [keyIid, dbKey, hsame, ofBytes_toBytes (by omega)]

theorem dbKey_inj {i j : Nat} (hi : i < 2 ^ 32) (hj : j < 2 ^ 32) (h : dbKey i = dbKey j) :
    i = j := by
  rw [← keyIid_dbKey hi, h, keyIid_dbKey hj]

theorem dbKey_lt_iff (i j : Nat) : dbKey i < dbKey j ↔ byteSwap i < byteSwap j :=
  map_toNat_lt_iff (by simp)

theorem dbKey_le_iff (i j : Nat) : dbKey i ≤ dbKey j ↔ byteSwap i ≤ byteSwap j := by
  rw [← not_lt, dbKey_lt_iff, not_lt]

def BdbFile.stored (f : BdbFile) (iid : Nat) : Prop := f.storage.db iid ≠ none

-- The btree holds the records of the storage, each under the key of its iid.
structure BdbFile.Agrees (f : BdbFile) : Prop where
  range : ∀ iid, f.stored iid → iid < 2 ^ 32
  records : ∀ iid < 2 ^ 32, f.tree.get (dbKey iid) = f.storage.db iid
  keys : ∀ key ∈ f.tree.keys, ∃ iid < 2 ^ 32, key = dbKey iid

theorem BdbFile.Agrees.open (acceptorId : Nat) : (BdbFile.open acceptorId).Agrees :=
  ⟨fun _ h => absurd rfl h, fun _ _ => rfl, fun _ h => absurd h List.not_mem_nil⟩

theorem BdbFile.Agrees.put {f : BdbFile} (h : f.Agrees) {iid : Nat} (hiid : iid < 2 ^ 32)
    (storage : BdbStorage) (rec : AcceptorRecord) (hdb : storage.db = dbPut f.storage.db iid rec) :
    BdbFile.Agrees ⟨storage, f.tree.put (dbKey iid) rec⟩ := by
  refine ⟨fun i hi => ?_, fun i hi => ?_, fun key hkey => ?_⟩
  · rw [BdbFile.stored, hdb, dbPut] at hi
    by_cases he : i = iid
    · exact he ▸ hiid
    · rw [Function.update_of_ne he] at hi
      exact h.range i hi
  · dsimp only
    rw [Btree.get_put, hdb, dbPut]
    by_cases he : i = iid
    · rw [he, if_pos rfl, Function.update_self]
    · rw [if_neg fun hkey => he (dbKey_inj hi hiid hkey), Function.update_of_ne he, h.records i hi]
  · rw [Btree.mem_keys_iff, Btree.get_put] at hkey
    by_cases he : key = dbKey iid
    · exact ⟨iid, hiid, he⟩
    · rw [if_neg he, ← Btree.mem_keys_iff] at hkey
      exact h.keys key hkey

theorem BdbFile.Agrees.save {f : BdbFile} (h : f.Agrees) {c : SaveCall} (hc : c.iid < 2 ^ 32) :
    (f.save c).Agrees := by
  cases c with
  | accept ar => exact h.put hc _ _ rfl
  | prepare pr rec => exact h.put hc _ _ rfl

theorem BdbFile.Agrees.run {f : BdbFile} (h : f.Agrees) {calls : List SaveCall}
    (hcalls : ∀ c ∈ calls, c.iid < 2 ^ 32) : (calls.foldl BdbFile.save f).Agrees := by
  induction calls generalizing f with
  | nil => exact h
  | cons c rest ih =>
      obtain ⟨hc, hrest⟩ := List.forall_mem_cons.mp hcalls
      exact ih (h.save hc) hrest

theorem BdbFile.Agrees.mem_keys {f : BdbFile} (h : f.Agrees) {iid : Nat} (hiid : iid < 2 ^ 32) :
    dbKey iid ∈ f.tree.keys ↔ f.stored iid := by
  rw [Btree.mem_keys_iff, h.records iid hiid, BdbFile.stored]

theorem BdbFile.stored_save (f : BdbFile) (c : SaveCall) (iid : Nat) :
    (f.save c).stored iid ↔ iid = c.iid ∨ f.stored iid := by
  have hput (rec : AcceptorRecord) :
      dbPut f.storage.db c.iid rec iid ≠ none ↔ iid = c.iid ∨ f.stored iid := by
    rw [dbPut]
    by_cases he : iid = c.iid
    · simp [he]
    · simp [he, BdbFile.stored]
  cases c with
  | accept ar => exact hput _
  | prepare pr rec => exact hput _

-- The stored iids are those of the calls.
theorem BdbFile.stored_run (acceptorId : Nat) (calls : List SaveCall) (iid : Nat) :
    (calls.foldl BdbFile.save (BdbFile.open acceptorId)).stored iid ↔
      iid ∈ calls.map SaveCall.iid := by
  induction calls using List.reverseRecOn with
  | nil => simp [BdbFile.stored, BdbFile.open, BdbStorage.storageOpen]
  | append_singleton calls c ih =>
      rw [List.foldl_append, List.foldl_cons, List.foldl_nil, BdbFile.stored_save, ih,
        List.map_append, List.mem_append, List.map_singleton, List.mem_singleton, or_comm]

-- The largest stored iid, or 0 if none is stored.
def BdbFile.Largest (f : BdbFile) (m : Nat) : Prop :=
  (∀ iid, f.stored iid → iid ≤ m) ∧ (f.stored m ∨ m = 0 ∧ ∀ iid, ¬f.stored iid)

theorem BdbFile.Largest.unique {f : BdbFile} {m m' : Nat} (h : f.Largest m) (h' : f.Largest m') :
    m = m' := by
  obtain ⟨hle, hm⟩ := h
  obtain ⟨hle', hm'⟩ := h'
  rcases hm with hm | ⟨rfl, hnone⟩
  · rcases hm' with hm' | ⟨_, hnone'⟩
    · exact Nat.le_antisymm (hle' m hm) (hle m' hm')
    · exact absurd hm (hnone' m)
  · rcases hm' with hm' | ⟨rfl, _⟩
    · exact absurd hm' (hnone m')
    · rfl

theorem BdbFile.Agrees.exists_largest {f : BdbFile} (h : f.Agrees) : ∃ m, f.Largest m := by
  by_cases hany : ∃ iid, f.stored iid
  · have hbound (iid : Nat) (hi : f.stored iid) : iid ≤ 2 ^ 32 := Nat.le_of_lt (h.range iid hi)
    obtain ⟨i, hi⟩ := hany
    classical
    have hm := Nat.findGreatest_spec (P := f.stored) (hbound i hi) hi
    exact ⟨_, fun iid hiid => Nat.le_findGreatest (hbound iid hiid) hiid, .inl hm⟩
  · push Not at hany
    exact ⟨0, fun iid hi => absurd hi (hany iid), .inr ⟨rfl, hany⟩⟩

-- The loop keeps the last key that the cursor visits.
theorem storageGetMaxIid_cursor (f : BdbFile) :
    storageGetMaxIid f.cursor = (f.tree.keys.getLast?.map keyIid).getD 0 := by
  have hloop (keys : List (List Nat)) (start : Nat) :
      keys.foldl (fun _ key => keyIid key) start = (keys.getLast?.map keyIid).getD start := by
    induction keys using List.reverseRecOn with
    | nil => rfl
    | append_singleton keys key _ => simp
  exact hloop f.tree.keys 0

-- The answer is a stored iid with the greatest swapped bytes.
theorem BdbFile.Agrees.maxIid_cases {f : BdbFile} (h : f.Agrees) :
    ((∀ iid, ¬f.stored iid) ∧ storageGetMaxIid f.cursor = 0) ∨
      ∃ last, storageGetMaxIid f.cursor = last ∧ f.stored last ∧
        ∀ iid, f.stored iid → byteSwap iid ≤ byteSwap last := by
  rw [storageGetMaxIid_cursor]
  cases hlast : f.tree.keys.getLast? with
  | none =>
      refine .inl ⟨fun iid hi => ?_, rfl⟩
      have hm := (h.mem_keys (h.range iid hi)).mpr hi
      rw [List.getLast?_eq_none_iff.mp hlast] at hm
      exact absurd hm List.not_mem_nil
  | some key =>
      obtain ⟨last, hrange, rfl⟩ := h.keys key (List.mem_of_getLast? hlast)
      refine .inr ⟨last, ?_, ?_, fun iid hi => ?_⟩
      · exact keyIid_dbKey hrange
      · exact (h.mem_keys hrange).mp (List.mem_of_getLast? hlast)
      · rw [← dbKey_le_iff]
        exact Btree.le_of_getLast hlast ((h.mem_keys (h.range iid hi)).mpr hi)

-- The answer is the largest stored iid exactly if that one also has the greatest
-- swapped bytes.
theorem max_iid_iff (acceptorId : Nat) (calls : List SaveCall)
    (hcalls : ∀ c ∈ calls, c.iid < 2 ^ 32) (f : BdbFile)
    (hf : f = calls.foldl BdbFile.save (BdbFile.open acceptorId)) :
    f.Largest (storageGetMaxIid f.cursor) ↔
      ∀ m, f.Largest m → ∀ iid, f.stored iid → byteSwap iid ≤ byteSwap m := by
  have h : f.Agrees := hf ▸ (BdbFile.Agrees.open acceptorId).run hcalls
  constructor
  · intro hlargest m hm
    rcases h.maxIid_cases with ⟨hnone, _⟩ | ⟨last, he, _, hall⟩
    · exact fun iid hi => absurd hi (hnone iid)
    · rw [he] at hlargest
      rwa [hm.unique hlargest]
  · intro hswap
    obtain ⟨m, hm⟩ := h.exists_largest
    rcases h.maxIid_cases with ⟨hnone, he⟩ | ⟨last, he, hlast, hall⟩
    · rw [he]
      exact ⟨fun iid hi => absurd hi (hnone iid), .inr ⟨rfl, hnone⟩⟩
    · have hstored : f.stored m := by
        rcases hm.2 with hs | ⟨_, hnone⟩
        · exact hs
        · exact absurd hlast (hnone last)
      have hsame : dbKey last = dbKey m := by
        apply le_antisymm
        · exact (dbKey_le_iff last m).mpr (hswap m hm last hlast)
        · exact (dbKey_le_iff m last).mpr (hall m hstored)
      rw [he, dbKey_inj (h.range last hlast) (h.range m hstored) hsame]
      exact hm

theorem max_iid_iff_sparse :
    let f := [SaveCall.prepare ⟨3, 10⟩ none, .accept ⟨65543, 10, [1]⟩, .accept ⟨7, 10, []⟩].foldl
      BdbFile.save (BdbFile.open 0)
    f.Largest (storageGetMaxIid f.cursor) := by
  intro f
  have hstored := BdbFile.stored_run 0
    [SaveCall.prepare ⟨3, 10⟩ none, .accept ⟨65543, 10, [1]⟩, .accept ⟨7, 10, []⟩]
  refine (max_iid_iff 0 _ (by decide) f rfl).mpr fun m hm iid hi => ?_
  have htop : 65543 ≤ m := hm.1 65543 ((hstored 65543).mpr (by decide))
  have hmem : m ∈ [3, 65543, 7] := by
    rcases hm.2 with hs | ⟨rfl, _⟩
    · exact (hstored m).mp hs
    · omega
  obtain rfl : m = 65543 := by
    simp only [List.mem_cons, List.not_mem_nil, or_false] at hmem
    omega
  have hall : ∀ i ∈ [3, 65543, 7], byteSwap i ≤ byteSwap 65543 := by decide
  exact hall iid ((hstored iid).mp hi)

-- The key of 255 starts with the byte 255, that of 256 with the byte 0.
theorem max_iid_of_two :
    let f := [SaveCall.accept ⟨255, 10, [1]⟩, .accept ⟨256, 10, [1]⟩].foldl
      BdbFile.save (BdbFile.open 0)
    storageGetMaxIid f.cursor = 255 ∧ f.stored 256 ∧
      ¬f.Largest (storageGetMaxIid f.cursor) := by
  intro f
  have hlast : storageGetMaxIid f.cursor = 255 := by decide
  have hstored : f.stored 256 := (BdbFile.stored_run 0 _ 256).mpr (by decide)
  refine ⟨hlast, hstored, fun h => ?_⟩
  have := h.1 256 hstored
  omega

end LibPaxos
