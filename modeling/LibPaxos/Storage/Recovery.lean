import LibPaxos.Transactional
import LibPaxos.Storage.Bdb

namespace LibPaxos

open MapStorage

-- A storage that outlives its process: `storageReopen` is what the next process
-- finds when it opens the files of the last one.
class DurableStorage (σ : Type) extends Storage σ where
  storageReopen : σ → σ

-- Nothing that was stored is lost.
class DurableMap (σ : Type) extends MapStorage σ, DurableStorage σ where
  reopen_eq : ∀ s : σ, wf s → wf (storageReopen s) ∧
    acceptorId (storageReopen s) = acceptorId s ∧ records (storageReopen s) = records s

instance Logged.durable (σ : Type) [DurableStorage σ] : DurableStorage (Logged σ) where
  storageReopen s := { s with store := DurableStorage.storageReopen s.store }

-- The files stay, the buffer is a new one.
instance BdbStorage.durable : DurableMap BdbStorage where
  storageReopen s := { BdbStorage.storageOpen s.acceptorId with db := s.db }
  reopen_eq _ h := ⟨h, rfl, rfl⟩

-- The options of `paxos_config` that `storage_open` reads.
structure BdbConfig where
  bdbSync : Bool := false
  bdbTrashFiles : Bool := false
  deriving Repr, DecidableEq

-- `struct storage` with its environment and the transaction it has begun. Berkeley DB
-- is any store that keeps the promises of `Transactional`: recovery (`DB_RECOVER`) undoes
-- what was not committed, and under `DB_TXN_WRITE_NOSYNC` a commit can be lost with the
-- machine.
structure TxStorage (ε : Type) where
  acceptorId : Nat
  recordBuf : AcceptorRecord
  env : ε

section

open Transactional

variable {ε : Type} [Transactional ε Nat AcceptorRecord]

namespace TxStorage

-- `dir` is what recovery makes of the environment directory, if there is one. Opening
-- the file of the database is a transaction of its own.
def storageOpen (cfg : BdbConfig) (acceptorId : Nat) (dir : Option ε) : TxStorage ε where
  acceptorId := acceptorId
  recordBuf := ⟨0, 0, 0, 0, false, []⟩
  env :=
    let env := if cfg.bdbTrashFiles then create else dir.getD create
    commit cfg.bdbSync (txnBegin env)

def storageTxBegin (s : TxStorage ε) : TxStorage ε := { s with env := txnBegin s.env }

def storageTxCommit (cfg : BdbConfig) (s : TxStorage ε) : TxStorage ε :=
  { s with env := commit cfg.bdbSync s.env }

def storageGetRecord (s : TxStorage ε) (iid : Nat) :
    Option (TxStorage ε × Option AcceptorRecord) :=
  match get s.env iid with
  | some rec =>
      -- `assert(iid == record_buffer->iid)`
      if rec.iid = iid then some ({ s with recordBuf := rec }, some rec) else none
  | none => some (s, none)

def storageSaveAccept (s : TxStorage ε) (ar : AcceptReq) : TxStorage ε × AcceptorRecord :=
  let buf := acceptRecord s.acceptorId ar
  ({ s with recordBuf := buf, env := put s.env ar.iid buf }, buf)

def storageSavePrepare (s : TxStorage ε) (pr : PrepareReq) (rec : Option AcceptorRecord) :
    TxStorage ε × AcceptorRecord :=
  let buf := prepareRecord s.acceptorId pr rec
  ({ s with recordBuf := buf, env := put s.env pr.iid buf }, buf)

end TxStorage

-- The acceptor makes every call within a transaction, so the storage it starts with has
-- one open.
instance TxStorage.storage : Storage (TxStorage ε) where
  storageOpen id := (TxStorage.storageOpen {} id none).storageTxBegin
  storageGetRecord := TxStorage.storageGetRecord
  storageSaveAccept s ar := some (s.storageSaveAccept ar)
  storageSavePrepare s pr rec := some (s.storageSavePrepare pr rec)

-- No transaction is open in the environment that is found or made.
theorem TxStorage.working_found (cfg : BdbConfig) {dir : Option ε}
    (h : ∀ e ∈ dir, working e = none) :
    working (if cfg.bdbTrashFiles then create else dir.getD create : ε) = none := by
  split_ifs
  · exact working_create
  · cases dir with
    | none => exact working_create
    | some e => exact h e rfl

theorem TxStorage.working_storageOpen (cfg : BdbConfig) (id : Nat) (dir : Option ε)
    (h : ∀ e ∈ dir, working e = none) : working (TxStorage.storageOpen cfg id dir).env = none :=
  working_commit_begin _ (working_found cfg h)

-- Within a transaction the storage is a map.
instance TxStorage.mapStorage : MapStorage (TxStorage ε) where
  acceptorId s := s.acceptorId
  records s := (working s.env).getD fun _ => none
  wf s := ∃ db, working s.env = some db ∧ ∀ iid rec, db iid = some rec → rec.iid = iid
  open_eq id := by
    have hopen := TxStorage.working_storageOpen (ε := ε) {} id none (by simp)
    have hbegin := working_begin _ hopen
    have hnone : committed (TxStorage.storageOpen (ε := ε) {} id none).env = fun _ => none :=
      (committed_commit_begin _ working_create).trans committed_create
    rw [hnone] at hbegin
    refine ⟨⟨_, hbegin, by simp⟩, rfl, ?_⟩
    change (working (txnBegin _)).getD _ = _
    rw [hbegin]
    rfl
  get_eq s iid hwf := by
    obtain ⟨db, hdb, hkeys⟩ := hwf
    have hget : get s.env iid = db iid := get_eq s.env db iid hdb
    cases h : db iid with
    | none =>
        refine ⟨s, ?_, ⟨db, hdb, hkeys⟩, rfl, rfl⟩
        simp [Storage.storageGetRecord, TxStorage.storageGetRecord, hget, hdb, h]
    | some rec =>
        refine ⟨{ s with recordBuf := rec }, ?_, ⟨db, hdb, hkeys⟩, rfl, rfl⟩
        simp [Storage.storageGetRecord, TxStorage.storageGetRecord, hget, hdb, h, hkeys iid rec h]
  saveAccept_eq s ar hwf := by
    obtain ⟨db, hdb, hkeys⟩ := hwf
    have hput := working_put s.env db ar.iid (acceptRecord s.acceptorId ar) hdb
    refine ⟨_, rfl, ⟨_, hput, keyed_update hkeys rfl⟩, rfl, ?_⟩
    simp [hput, hdb]
  savePrepare_eq s pr hwf := by
    obtain ⟨db, hdb, hkeys⟩ := hwf
    rw [hdb, Option.getD_some]
    have hput := working_put s.env db pr.iid (prepareRecord s.acceptorId pr (db pr.iid)) hdb
    have hiid := iid_prepareRecord s.acceptorId (hkeys pr.iid)
    refine ⟨_, rfl, ⟨_, hput, keyed_update hkeys hiid⟩, rfl, ?_⟩
    simp [hput]

end

end LibPaxos
