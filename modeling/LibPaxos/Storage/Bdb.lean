import LibPaxos.Storage

namespace LibPaxos

-- `record_buf` is the one buffer that every read fills and every write is made
-- from. Berkeley DB itself is a map from keys to records.
structure BdbStorage where
  acceptorId : Nat
  recordBuf : AcceptorRecord
  db : Nat → Option AcceptorRecord

-- The result codes of `DB->get`.
inductive DbResult where
  | found (rec : AcceptorRecord)
  | notFound
  | error (code : Int)

def dbGet (db : Nat → Option AcceptorRecord) (iid : Nat) : DbResult :=
  match db iid with
  | some rec => .found rec
  | none => .notFound

def dbPut (db : Nat → Option AcceptorRecord) (iid : Nat) (rec : AcceptorRecord) :
    Nat → Option AcceptorRecord :=
  Function.update db iid (some rec)

namespace BdbStorage

-- `malloc` and `memset`: the buffer starts as zeros.
def storageOpen (acceptorId : Nat) : BdbStorage where
  acceptorId := acceptorId
  recordBuf := ⟨0, 0, 0, 0, false, []⟩
  db := fun _ => none

-- A found record is copied to the buffer. An error is logged and then answered
-- like a missing record.
def storageGetRecord (s : BdbStorage) (result : DbResult) : BdbStorage × Option AcceptorRecord :=
  match result with
  | .found rec => ({ s with recordBuf := rec }, some rec)
  | .notFound => (s, none)
  | .error _ => (s, none)

def storageSaveAccept (s : BdbStorage) (ar : AcceptReq) : BdbStorage × AcceptorRecord :=
  let buf := acceptRecord s.acceptorId ar
  ({ s with recordBuf := buf, db := dbPut s.db ar.iid buf }, buf)

-- A `rec` that is not NULL points to `record_buf`, so the new ballot is written
-- there before the buffer is stored.
def storageSavePrepare (s : BdbStorage) (pr : PrepareReq) (rec : Option AcceptorRecord) :
    BdbStorage × AcceptorRecord :=
  let buf := prepareRecord s.acceptorId pr rec
  ({ s with recordBuf := buf, db := dbPut s.db pr.iid buf }, buf)

end BdbStorage

instance BdbStorage.storage : Storage BdbStorage where
  storageOpen := BdbStorage.storageOpen
  storageGetRecord s iid :=
    match dbGet s.db iid with
    | .found rec =>
        -- `assert(iid == record_buffer->iid)`
        if rec.iid = iid then some (s.storageGetRecord (.found rec)) else none
    | result => some (s.storageGetRecord result)
  storageSaveAccept s ar := some (s.storageSaveAccept ar)
  storageSavePrepare s pr rec := some (s.storageSavePrepare pr rec)

-- A record that is stored under its own iid keeps all records under theirs.
theorem keyed_update {db : Nat → Option AcceptorRecord}
    (h : ∀ iid rec, db iid = some rec → rec.iid = iid) {iid : Nat} {rec : AcceptorRecord}
    (hrec : rec.iid = iid) :
    ∀ i r, Function.update db iid (some rec) i = some r → r.iid = i := by
  intro i r hr
  by_cases hi : i = iid
  · subst hi
    rw [Function.update_self] at hr
    cases hr
    exact hrec
  · rw [Function.update_of_ne hi] at hr
    exact h i r hr

theorem iid_prepareRecord (acceptorId : Nat) {pr : PrepareReq} {rec : Option AcceptorRecord}
    (h : ∀ r, rec = some r → r.iid = pr.iid) : (prepareRecord acceptorId pr rec).iid = pr.iid := by
  cases rec with
  | none => rfl
  | some r => exact h r rfl

-- With an error-free database the storage is a map: every record is stored under
-- its own iid, so the assertion after a read holds.
instance BdbStorage.mapStorage : MapStorage BdbStorage where
  acceptorId s := s.acceptorId
  records s := s.db
  wf s := ∀ iid rec, s.db iid = some rec → rec.iid = iid
  open_eq _ := ⟨nofun, rfl, rfl⟩
  get_eq s iid hwf := by
    cases h : s.db iid with
    | none =>
        refine ⟨s, ?_, hwf, rfl, rfl⟩
        simp [Storage.storageGetRecord, dbGet, h, BdbStorage.storageGetRecord]
    | some rec =>
        refine ⟨{ s with recordBuf := rec }, ?_, hwf, rfl, rfl⟩
        simp [Storage.storageGetRecord, dbGet, h, hwf iid rec h, BdbStorage.storageGetRecord]
  saveAccept_eq s ar hwf := ⟨_, rfl, keyed_update hwf rfl, rfl, rfl⟩
  savePrepare_eq s pr hwf :=
    ⟨_, rfl, keyed_update hwf (iid_prepareRecord s.acceptorId (hwf pr.iid)), rfl, rfl⟩

end LibPaxos
