import LibPaxos.Messages

namespace LibPaxos

-- The interface of `storage.h` that the acceptor calls. `none` is a call that
-- ends the process. The transaction brackets have no effect on the records.
class Storage (σ : Type) where
  storageOpen : Nat → σ
  storageGetRecord : σ → Nat → Option (σ × Option AcceptorRecord)
  storageSaveAccept : σ → AcceptReq → Option (σ × AcceptorRecord)
  storageSavePrepare : σ → PrepareReq → Option AcceptorRecord → Option (σ × AcceptorRecord)

export Storage (storageOpen storageGetRecord storageSaveAccept storageSavePrepare)

-- The record `storage_save_accept` writes.
def acceptRecord (acceptorId : Nat) (ar : AcceptReq) : AcceptorRecord where
  acceptorId := acceptorId
  iid := ar.iid
  ballot := ar.ballot
  valueBallot := ar.ballot
  isFinal := false
  value := ar.value

-- The record `storage_save_prepare` writes: a new one, or the old one with the
-- ballot replaced.
def prepareRecord (acceptorId : Nat) (pr : PrepareReq) : Option AcceptorRecord → AcceptorRecord
  | none =>
      { acceptorId := acceptorId
        iid := pr.iid
        ballot := pr.ballot
        valueBallot := 0
        isFinal := false
        value := [] }
  | some rec => { rec with ballot := pr.ballot }

-- A storage that behaves as a durable map from iid to record. `wf` is what the
-- implementation keeps true of its own state. `storage_save_prepare` is called
-- with the record that `storage_get_record` found for the same iid.
class MapStorage (σ : Type) extends Storage σ where
  acceptorId : σ → Nat
  records : σ → Nat → Option AcceptorRecord
  wf : σ → Prop
  open_eq : ∀ id, wf (storageOpen id) ∧ acceptorId (storageOpen id) = id ∧
    records (storageOpen id) = fun _ => none
  get_eq : ∀ s iid, wf s → ∃ s', storageGetRecord s iid = some (s', records s iid) ∧
    wf s' ∧ acceptorId s' = acceptorId s ∧ records s' = records s
  saveAccept_eq : ∀ s ar, wf s → ∃ s',
    storageSaveAccept s ar = some (s', acceptRecord (acceptorId s) ar) ∧
    wf s' ∧ acceptorId s' = acceptorId s ∧
    records s' = Function.update (records s) ar.iid (some (acceptRecord (acceptorId s) ar))
  savePrepare_eq : ∀ s pr, wf s → ∃ s',
    storageSavePrepare s pr (records s pr.iid) =
      some (s', prepareRecord (acceptorId s) pr (records s pr.iid)) ∧
    wf s' ∧ acceptorId s' = acceptorId s ∧
    records s' = Function.update (records s) pr.iid
      (some (prepareRecord (acceptorId s) pr (records s pr.iid)))

-- A storage that also keeps the list of the requests `storage_save_accept` was
-- called with. The acceptor runs over it unchanged.
structure Logged (σ : Type) where
  store : σ
  saved : List AcceptReq

instance Logged.storage (σ : Type) [Storage σ] : Storage (Logged σ) where
  storageOpen id := ⟨storageOpen id, []⟩
  storageGetRecord s iid := (storageGetRecord s.store iid).map fun (store, rec) =>
    ({ s with store := store }, rec)
  storageSaveAccept s ar := (storageSaveAccept s.store ar).map fun (store, rec) =>
    ({ store := store, saved := s.saved ++ [ar] }, rec)
  storageSavePrepare s pr rec := (storageSavePrepare s.store pr rec).map fun (store, rec) =>
    ({ s with store := store }, rec)

end LibPaxos
