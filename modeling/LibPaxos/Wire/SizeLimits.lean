import LibPaxos.Storage.Bdb
import LibPaxos.Storage.Mem
import LibPaxos.Wire.Framing

namespace LibPaxos.Wire

-- Whether a handler hands the frame, alone in its buffer, to its `switch`.
def reachesSwitch
    (handle : (Bool → Nat → List UInt8 → Bool) → Bool × Evbuffer → Option (Bool × Evbuffer))
    (f : Frame) : Bool :=
  (handle (fun _ _ _ => true) (false, f.send [])).any fun t => t.1

-- `DB->get` into user memory of `ulen` bytes (`DB_DBT_USERMEM`). A record that fits is
-- copied. How the call fails on a longer one is left open.
structure DbUserMem where
  get : (Nat → Option AcceptorRecord) → (iid ulen : Nat) → DbResult
  get_fits : ∀ db iid ulen rec, db iid = some rec → acceptAckSize rec ≤ ulen →
    get db iid ulen = .found rec

-- The Berkeley DB storage with the size of `record_buf`.
structure BdbBuffered (mem : DbUserMem) where
  store : BdbStorage

namespace BdbBuffered

variable {mem : DbUserMem}

def storageGetRecord (s : BdbBuffered mem) (iid : Nat) :
    Option (BdbBuffered mem × Option AcceptorRecord) :=
  let result := mem.get s.store.db iid PAXOS_MAX_VALUE_SIZE
  let (store, rec) := s.store.storageGetRecord result
  match rec with
  | none => some (⟨store⟩, none)
  | some r => if iid = r.iid then some (⟨store⟩, some r) else none

-- A value that does not fit behind the struct is copied past the end of the buffer.
def storageSaveAccept (s : BdbBuffered mem) (ar : AcceptReq) :
    Option (BdbBuffered mem × AcceptorRecord) :=
  let (store, rec) := s.store.storageSaveAccept ar
  if acceptAckSize rec ≤ PAXOS_MAX_VALUE_SIZE then some (⟨store⟩, rec) else none

end BdbBuffered

instance BdbBuffered.storage (mem : DbUserMem) : Storage (BdbBuffered mem) where
  storageOpen id := ⟨BdbStorage.storageOpen id⟩
  storageGetRecord := BdbBuffered.storageGetRecord
  storageSaveAccept := BdbBuffered.storageSaveAccept
  storageSavePrepare s pr rec :=
    let (store, rec) := s.store.storageSavePrepare pr rec
    some (⟨store⟩, rec)

-- The way of a value through the system: to the acceptor, into its storage and
-- out again, and back to the learners and proposers.
structure SizesAgree (σ : Type) [Storage σ] (value : Value) : Prop where
  acceptReq : ∀ ar, ar.value = value → (Frame.acceptReq ar).Sendable →
    reachesSwitch handleReq (.acceptReq ar) = true
  stored : ∀ (s : σ) ar, ar.value = value → ∃ s' rec,
    storageSaveAccept s ar = some (s', rec) ∧
      ∃ s'', storageGetRecord s' ar.iid = some (s'', some rec)
  acceptAck : ∀ rec pad, rec.value = value → (Frame.acceptAck rec pad).Sendable →
    reachesSwitch learnerHandleMsg (.acceptAck rec pad) = true ∧
      reachesSwitch proposerHandleMsg (.acceptAck rec pad) = true
  prepareAck : ∀ rec, rec.value = value → (Frame.prepareAck rec).Sendable →
    reachesSwitch proposerHandleMsg (.prepareAck rec) = true

theorem reachesSwitch_iff
    {handle : (Bool → Nat → List UInt8 → Bool) → Bool × Evbuffer → Option (Bool × Evbuffer)}
    (hhandle : ∀ dispatch t, handle dispatch t = some (handleMsg dispatch t)) {f : Frame}
    (h : f.Sendable) :
    reachesSwitch handle f = true ↔ f.payload.length ≤ PAXOS_MAX_VALUE_SIZE := by
  have hbuf : f.send [] = f.bytes ++ [] := by
    rw [Frame.send_eq h, List.nil_append, List.append_nil]
  rw [reachesSwitch, hhandle, hbuf, handleMsg_frame _ h, receiveFrame]
  simp

-- An empty value can be submitted as well.
theorem reachesSwitch_submit_iff {value : Value} (hsize : value.length < 2 ^ 31) :
    reachesSwitch proposerHandleMsg (.submit value) = true ↔
      value.length ≤ PAXOS_MAX_VALUE_SIZE := by
  cases value with
  | nil => decide
  | cons b rest => exact reachesSwitch_iff (fun _ _ => rfl) ⟨List.cons_ne_nil b rest, hsize⟩

-- A storage that keeps exactly the records of at most `limit` bytes.
def StoresUpTo (σ : Type) [Storage σ] (limit : Nat) : Prop :=
  ∀ (s : σ) ar, (∃ s' rec, storageSaveAccept s ar = some (s', rec) ∧
    ∃ s'', storageGetRecord s' ar.iid = some (s'', some rec)) ↔ ar.value.length + 32 ≤ limit

theorem bdbBuffered_storesUpTo (mem : DbUserMem) :
    StoresUpTo (BdbBuffered mem) PAXOS_MAX_VALUE_SIZE := by
  intro s ar
  have hsize : acceptAckSize (s.store.storageSaveAccept ar).2 = ar.value.length + 32 := rfl
  constructor
  · rintro ⟨s', rec, hsave, -⟩
    simp only [Storage.storageSaveAccept, BdbBuffered.storageSaveAccept, hsize] at hsave
    split at hsave
    · assumption
    · cases hsave
  · intro hfits
    have hdb : (s.store.storageSaveAccept ar).1.db ar.iid =
        some (s.store.storageSaveAccept ar).2 := by
      simp [BdbStorage.storageSaveAccept, dbPut]
    have hget := mem.get_fits _ ar.iid PAXOS_MAX_VALUE_SIZE _ hdb hfits
    have hiid : ar.iid = (s.store.storageSaveAccept ar).2.iid := rfl
    refine ⟨⟨(s.store.storageSaveAccept ar).1⟩, (s.store.storageSaveAccept ar).2, ?_, ?_⟩
    · simp only [Storage.storageSaveAccept, BdbBuffered.storageSaveAccept, hsize]
      rw [if_pos hfits]
    · simp only [Storage.storageGetRecord, BdbBuffered.storageGetRecord, hget,
        BdbStorage.storageGetRecord]
      rw [if_pos hiid]
      exact ⟨_, rfl⟩

theorem memStorage_storesUpTo (junk : Fin MAX_RECORDS → AcceptorRecord) :
    StoresUpTo (MemStorage junk) MAX_SIZE_RECORD := by
  intro s ar
  have hsize : acceptAckSize (acceptRecord s.acceptorId ar) = ar.value.length + 32 := rfl
  constructor
  · rintro ⟨s', rec, hsave, -⟩
    simp only [Storage.storageSaveAccept, MemStorage.storageSaveAccept, hsize] at hsave
    split at hsave
    · assumption
    · cases hsave
  · intro hfits
    refine ⟨s.write ar.iid (acceptRecord s.acceptorId ar), acceptRecord s.acceptorId ar, ?_,
      s.write ar.iid (acceptRecord s.acceptorId ar), ?_⟩
    · simp only [Storage.storageSaveAccept, MemStorage.storageSaveAccept, hsize]
      rw [if_pos hfits]
    · have hiid : (acceptRecord s.acceptorId ar).iid = ar.iid := rfl
      simp [Storage.storageGetRecord, MemStorage.storageGetRecord, hiid]

-- The record is the largest thing a value becomes, so what the storage takes
-- decides. The frames on the way have shorter structs in front of the value.
theorem sizesAgree_iff {σ : Type} [Storage σ] {limit : Nat} (h : StoresUpTo σ limit)
    (hlimit : limit ≤ PAXOS_MAX_VALUE_SIZE) (value : Value) :
    SizesAgree σ value ↔ value.length + 32 ≤ limit := by
  constructor
  · intro hsizes
    exact (h (storageOpen 0) ⟨0, 0, value⟩).mp (hsizes.stored (storageOpen 0) ⟨0, 0, value⟩ rfl)
  · intro hfits
    refine ⟨?_, ?_, ?_, ?_⟩
    · rintro ar rfl hsend
      have hpass : (Frame.acceptReq ar).payload.length ≤ PAXOS_MAX_VALUE_SIZE := by
        rw [Frame.payload, length_acceptReqBytes, acceptReqSize]
        omega
      exact (reachesSwitch_iff (fun _ _ => rfl) hsend).mpr hpass
    · rintro s ar rfl
      exact (h s ar).mpr hfits
    · rintro rec pad rfl hsend
      have hpass : (Frame.acceptAck rec pad).payload.length ≤ PAXOS_MAX_VALUE_SIZE := by
        obtain ⟨-, -, -, -, -, hpad⟩ := hsend
        rw [Frame.payload, length_acceptAckBytes rec hpad, acceptAckSize]
        omega
      exact ⟨(reachesSwitch_iff (fun _ _ => rfl) hsend).mpr hpass,
        (reachesSwitch_iff (fun _ _ => rfl) hsend).mpr hpass⟩
    · rintro rec rfl hsend
      have hsize : prepareAckSize rec.toPrepareAck = rec.value.length + 24 := rfl
      have hpass : (Frame.prepareAck rec).payload.length ≤ PAXOS_MAX_VALUE_SIZE := by
        rw [Frame.length_prepareAck_payload, hsize]
        omega
      exact (reachesSwitch_iff (fun _ _ => rfl) hsend).mpr hpass

-- Each stage checks the same constant with another struct in front of the value.
-- An admitted value makes its way through exactly when it leaves room for the
-- largest of them, and on the memory storage when it fits one of its slots.
theorem size_limits_agree_iff (value : Value) (hsize : value.length < 2 ^ 31)
    (hreach : reachesSwitch proposerHandleMsg (.submit value) = true) :
    value.length ≤ PAXOS_MAX_VALUE_SIZE ∧
    (∀ mem, SizesAgree (BdbBuffered mem) value ↔ value.length ≤ 255968) ∧
    ∀ junk, SizesAgree (MemStorage junk) value ↔ value.length ≤ 8160 := by
  refine ⟨(reachesSwitch_submit_iff hsize).mp hreach, fun mem => ?_, fun junk => ?_⟩
  · rw [sizesAgree_iff (bdbBuffered_storesUpTo mem) le_rfl, PAXOS_MAX_VALUE_SIZE]
    omega
  · rw [sizesAgree_iff (memStorage_storesUpTo junk) (by decide), MAX_SIZE_RECORD]
    omega

def DB_BUFFER_SMALL : Int := -30999

-- The call as Berkeley DB documents it.
def DbUserMem.documented : DbUserMem where
  get db iid ulen :=
    match dbGet db iid with
    | .found rec => if acceptAckSize rec ≤ ulen then .found rec else .error DB_BUFFER_SMALL
    | result => result
  get_fits db iid ulen rec hrec hfits := by simp [dbGet, hrec, hfits]

theorem size_limits_agree_small :
    [1, 2, 3].length < 2 ^ 31 ∧ reachesSwitch proposerHandleMsg (.submit [1, 2, 3]) = true ∧
      SizesAgree (BdbBuffered .documented) [1, 2, 3] := by
  have hreach : reachesSwitch proposerHandleMsg (.submit [1, 2, 3]) = true := by decide
  exact ⟨by decide, hreach,
    ((size_limits_agree_iff [1, 2, 3] (by decide) hreach).2.1 _).mpr (by decide)⟩

-- The longest value a proposer takes is too long for every acceptor. A value that
-- passes the acceptor's check overruns the buffer of the database, and a much
-- shorter one a slot of the memory storage.
theorem admitted_value_lost :
    (reachesSwitch proposerHandleMsg (.submit (List.replicate 256000 0)) = true ∧
      reachesSwitch handleReq (.acceptReq ⟨1, 101, List.replicate 256000 0⟩) = false) ∧
    (reachesSwitch proposerHandleMsg (.submit (List.replicate 255969 0)) = true ∧
      reachesSwitch handleReq (.acceptReq ⟨1, 101, List.replicate 255969 0⟩) = true ∧
      ∀ mem, ¬SizesAgree (BdbBuffered mem) (List.replicate 255969 0)) ∧
    (reachesSwitch proposerHandleMsg (.submit (List.replicate 8161 0)) = true ∧
      ∀ junk, ¬SizesAgree (MemStorage junk) (List.replicate 8161 0)) := by
  have hreach (n : Nat) (hn : n ≤ PAXOS_MAX_VALUE_SIZE) :
      reachesSwitch proposerHandleMsg (.submit (List.replicate n 0)) = true := by
    rw [PAXOS_MAX_VALUE_SIZE] at hn
    rw [reachesSwitch_submit_iff] <;> rw [List.length_replicate]
    · exact hn
    · omega
  have hcheck (n : Nat) (hn : n < 2 ^ 31) :
      reachesSwitch handleReq (.acceptReq ⟨1, 101, List.replicate n 0⟩) = true ↔
        n + 16 ≤ PAXOS_MAX_VALUE_SIZE := by
    have hsend : (Frame.acceptReq ⟨1, 101, List.replicate n 0⟩).Sendable := by
      refine ⟨show 1 < 2 ^ 32 by decide, show 101 < 2 ^ 32 by decide, ?_⟩
      rw [acceptReqSize, List.length_replicate]
      omega
    refine (reachesSwitch_iff (fun _ _ => rfl) hsend).trans ?_
    rw [Frame.payload, length_acceptReqBytes, acceptReqSize, List.length_replicate]
  refine ⟨⟨hreach _ (by decide), ?_⟩, ⟨hreach _ (by decide), (hcheck _ (by decide)).mpr (by decide),
    fun mem => ?_⟩, hreach _ (by decide), fun junk => ?_⟩
  · rw [← Bool.not_eq_true, hcheck _ (by decide)]
    decide
  · rw [sizesAgree_iff (bdbBuffered_storesUpTo mem) le_rfl, List.length_replicate]
    decide
  · rw [sizesAgree_iff (memStorage_storesUpTo junk) (by decide), List.length_replicate]
    decide

end LibPaxos.Wire
