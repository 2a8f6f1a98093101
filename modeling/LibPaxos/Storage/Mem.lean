import LibPaxos.Storage

namespace LibPaxos

def MAX_SIZE_RECORD : Nat := 8 * 1024

def MAX_RECORDS : Nat := 4 * 1024

-- The slot of the ring that an instance is kept in.
def recordSlot (iid : Nat) : Fin MAX_RECORDS := ⟨iid % MAX_RECORDS, Nat.mod_lt _ (by decide)⟩

-- Each slot is one `malloc` of `MAX_SIZE_RECORD` bytes. `junk` is what these
-- hold before `storage_open` clears their iid.
structure MemStorage (junk : Fin MAX_RECORDS → AcceptorRecord) where
  acceptorId : Nat
  records : Fin MAX_RECORDS → AcceptorRecord

namespace MemStorage

variable {junk : Fin MAX_RECORDS → AcceptorRecord}

def storageOpen (acceptorId : Nat) : MemStorage junk where
  acceptorId := acceptorId
  records := fun i => { junk i with iid := 0 }

-- Every write goes through the pointer to the slot.
def write (s : MemStorage junk) (iid : Nat) (rec : AcceptorRecord) : MemStorage junk :=
  { s with records := Function.update s.records (recordSlot iid) rec }

-- An iid below the one in the slot ends the process with `exit(1)`.
def storageGetRecord (s : MemStorage junk) (iid : Nat) :
    Option (MemStorage junk × Option AcceptorRecord) :=
  let recordBuffer := s.records (recordSlot iid)
  if iid < recordBuffer.iid then none
  else if iid = recordBuffer.iid then some (s, some recordBuffer)
  else some (s, none)

-- A value that does not fit behind the struct is copied past the end of the slot.
def storageSaveAccept (s : MemStorage junk) (ar : AcceptReq) :
    Option (MemStorage junk × AcceptorRecord) :=
  let recordBuffer := acceptRecord s.acceptorId ar
  if acceptAckSize recordBuffer ≤ MAX_SIZE_RECORD then
    some (s.write ar.iid recordBuffer, recordBuffer)
  else none

-- A `rec` that is not NULL points to the slot itself.
def storageSavePrepare (s : MemStorage junk) (pr : PrepareReq) (rec : Option AcceptorRecord) :
    MemStorage junk × AcceptorRecord :=
  let recordBuffer := prepareRecord s.acceptorId pr
    (rec.map fun _ => s.records (recordSlot pr.iid))
  (s.write pr.iid recordBuffer, recordBuffer)

end MemStorage

instance MemStorage.storage (junk : Fin MAX_RECORDS → AcceptorRecord) :
    Storage (MemStorage junk) where
  storageOpen := MemStorage.storageOpen
  storageGetRecord := MemStorage.storageGetRecord
  storageSaveAccept := MemStorage.storageSaveAccept
  storageSavePrepare s pr rec := some (s.storageSavePrepare pr rec)

@[simp] theorem MemStorage.write_acceptorId {junk : Fin MAX_RECORDS → AcceptorRecord}
    (s : MemStorage junk) (iid : Nat) (rec : AcceptorRecord) :
    (s.write iid rec).acceptorId = s.acceptorId := rfl

@[simp] theorem MemStorage.write_records {junk : Fin MAX_RECORDS → AcceptorRecord}
    (s : MemStorage junk) (iid : Nat) (rec : AcceptorRecord) :
    (s.write iid rec).records = Function.update s.records (recordSlot iid) rec := rfl

end LibPaxos
