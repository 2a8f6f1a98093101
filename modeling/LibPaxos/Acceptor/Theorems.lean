import LibPaxos.Acceptor

namespace LibPaxos

open MapStorage

variable {σ : Type} [MapStorage σ]

-- What a request does to the record of its instance, whatever the storage.
def onPrepare (id : Nat) (pr : PrepareReq) : Option AcceptorRecord → AcceptorRecord
  | some r => if pr.ballot ≤ r.ballot ∨ r.isFinal then r else prepareRecord id pr (some r)
  | none => prepareRecord id pr none

def accepts (ar : AcceptReq) : Option AcceptorRecord → Bool
  | some r => r.ballot ≤ ar.ballot
  | none => true

def onAccept (id : Nat) (ar : AcceptReq) (rec : Option AcceptorRecord) : AcceptorRecord :=
  if accepts ar rec then acceptRecord id ar else rec.getD (acceptRecord id ar)

-- One request of an acceptor as seen from outside: the record of one instance is
-- replaced, and `added` went through `storage_save_accept`.
structure Logged.Becomes (s s' : Logged σ) (iid : Nat) (rec : Option AcceptorRecord)
    (added : List AcceptReq) : Prop where
  wf : wf s'.store
  acceptorId : acceptorId s'.store = acceptorId s.store
  records : records s'.store = Function.update (records s.store) iid rec
  saved : s'.saved = s.saved ++ added

private theorem getRecord_logged (s : Logged σ) (iid : Nat) (hwf : wf s.store) :
    ∃ s' : Logged σ, storageGetRecord s iid = some (s', records s.store iid) ∧
      s.Becomes s' iid (records s.store iid) [] := by
  obtain ⟨store, hget, hwf', hid, hrec⟩ := get_eq s.store iid hwf
  refine ⟨{ s with store := store }, ?_, hwf', hid, ?_, by simp⟩
  · simp [storageGetRecord, Storage.storageGetRecord] at hget ⊢
    simp [hget]
  · rw [hrec, Function.update_eq_self]

private theorem Logged.Becomes.then {s s' s'' : Logged σ} {iid : Nat}
    {rec rec' : Option AcceptorRecord} {added : List AcceptReq}
    (h : s.Becomes s' iid rec []) (h' : s'.Becomes s'' iid rec' added) :
    s.Becomes s'' iid rec' added where
  wf := h'.wf
  acceptorId := h'.acceptorId.trans h.acceptorId
  records := by rw [h'.records, h.records, Function.update_idem]
  saved := by rw [h'.saved, h.saved, List.append_nil]

theorem acceptorReceivePrepare_eq (s : Logged σ) (req : PrepareReq) (hwf : wf s.store) :
    ∃ s' : Logged σ, acceptorReceivePrepare s req =
        some (s', onPrepare (acceptorId s.store) req (records s.store req.iid)) ∧
      s.Becomes s' req.iid (some (onPrepare (acceptorId s.store) req (records s.store req.iid)))
        [] := by
  obtain ⟨mid, hget, hmid⟩ := getRecord_logged s req.iid hwf
  have hrec : records mid.store req.iid = records s.store req.iid := by
    rw [hmid.records, Function.update_self]
  obtain ⟨store, hsave, hwf', hid, hrec'⟩ := savePrepare_eq mid.store req hmid.wf
  rw [hrec, hmid.acceptorId] at hsave
  have hlast : s.Becomes ⟨store, mid.saved⟩ req.iid
      (some (prepareRecord (acceptorId s.store) req (records s.store req.iid))) [] := by
    refine hmid.then ⟨hwf', hid, ?_, by simp⟩
    rw [hrec', hrec, hmid.acceptorId]
  have hlogged : storageSavePrepare mid req (records s.store req.iid) =
      some (⟨store, mid.saved⟩,
        prepareRecord (acceptorId s.store) req (records s.store req.iid)) := by
    simp only [Storage.storageSavePrepare] at hsave ⊢
    simp [hsave]
  unfold acceptorReceivePrepare
  rw [hget]
  simp only [Option.bind_eq_bind, Option.bind_some, applyPrepare]
  cases hr : records s.store req.iid with
  | none =>
      rw [hr] at hlogged hlast
      exact ⟨_, hlogged, hlast⟩
  | some r =>
      rw [hr] at hlogged hlast hmid
      by_cases hge : req.ballot ≤ r.ballot
      · exact ⟨mid, by simp [onPrepare, hge], by simpa [onPrepare, hge] using hmid⟩
      · by_cases hf : r.isFinal = true
        · exact ⟨mid, by simp [onPrepare, hf], by simpa [onPrepare, hf] using hmid⟩
        · refine ⟨⟨store, mid.saved⟩, ?_, by simpa [onPrepare, hge, hf] using hlast⟩
          simp only [ge_iff_le, hge, if_false, hf, onPrepare, or_self, Bool.false_eq_true]
          exact hlogged

theorem acceptorReceiveAccept_eq (s : Logged σ) (req : AcceptReq) (hwf : wf s.store) :
    ∃ s' : Logged σ, acceptorReceiveAccept s req =
        some (s', onAccept (acceptorId s.store) req (records s.store req.iid)) ∧
      s.Becomes s' req.iid (some (onAccept (acceptorId s.store) req (records s.store req.iid)))
        (if accepts req (records s.store req.iid) then [req] else []) := by
  obtain ⟨mid, hget, hmid⟩ := getRecord_logged s req.iid hwf
  obtain ⟨store, hsave, hwf', hid, hrec'⟩ := saveAccept_eq mid.store req hmid.wf
  rw [hmid.acceptorId] at hsave
  have hlast : s.Becomes ⟨store, mid.saved ++ [req]⟩ req.iid
      (some (acceptRecord (acceptorId s.store) req)) [req] := by
    refine hmid.then ⟨hwf', hid, ?_, rfl⟩
    rw [hrec', hmid.acceptorId]
  have hlogged : storageSaveAccept mid req =
      some (⟨store, mid.saved ++ [req]⟩, acceptRecord (acceptorId s.store) req) := by
    simp only [Storage.storageSaveAccept] at hsave ⊢
    simp [hsave]
  unfold acceptorReceiveAccept
  rw [hget]
  simp only [Option.bind_eq_bind, Option.bind_some, applyAccept]
  cases hr : records s.store req.iid with
  | none => exact ⟨_, hlogged, by simpa [onAccept, accepts] using hlast⟩
  | some r =>
      rw [hr] at hmid
      by_cases hgt : req.ballot < r.ballot
      · have hn : ¬r.ballot ≤ req.ballot := by omega
        exact ⟨mid, by simp [onAccept, accepts, hgt, hn],
          by simpa [onAccept, accepts, hn] using hmid⟩
      · have hle : r.ballot ≤ req.ballot := by omega
        refine ⟨⟨store, mid.saved ++ [req]⟩, ?_, by simpa [onAccept, accepts, hle] using hlast⟩
        simp only [gt_iff_lt, hgt, if_false, onAccept, accepts, hle, decide_true, if_true]
        exact hlogged

theorem acceptorReceiveRepeat_eq (s : Logged σ) (iid : Nat) (hwf : wf s.store) :
    ∃ s' : Logged σ, acceptorReceiveRepeat s iid = some (s', records s.store iid) ∧
      s.Becomes s' iid (records s.store iid) [] :=
  getRecord_logged s iid hwf

end LibPaxos
