import LibPaxos.Acceptor.ReadErrors
import LibPaxos.Storage.Recovery
import LibPaxos.Storage.Refinement
import LibPaxos.Transition

namespace LibPaxos

section

variable {σ : Type} [Storage σ]

-- What a request does with the record that was found for its instance.
def applyReq (s : σ) (rec : Option AcceptorRecord) :
    AcceptorReq → Option (σ × Option AcceptorRecord)
  | .prepare req => (applyPrepare s req rec).map fun (s, rec) => (s, some rec)
  | .accept req => (applyAccept s req rec).map fun (s, rec) => (s, some rec)
  | .repeat _ => some (s, rec)

theorem acceptorReceive_eq_bind (s : σ) (req : AcceptorReq) :
    acceptorReceive s req = (storageGetRecord s req.iid).bind fun r => applyReq r.1 r.2 req := by
  cases req with
  | prepare req =>
      cases h : storageGetRecord s req.iid <;>
        simp [acceptorReceive, acceptorReceivePrepare, AcceptorReq.iid, applyReq, h]
  | accept req =>
      cases h : storageGetRecord s req.iid <;>
        simp [acceptorReceive, acceptorReceiveAccept, AcceptorReq.iid, applyReq, h]
  | «repeat» iid =>
      cases h : storageGetRecord s iid <;>
        simp [acceptorReceive, acceptorReceiveRepeat, AcceptorReq.iid, applyReq, h]

-- The record of an instance after a request, which is also what is returned.
def recordAfter (id : Nat) (rec : Option AcceptorRecord) : AcceptorReq → Option AcceptorRecord
  | .prepare req => some (onPrepare id req rec)
  | .accept req => some (onAccept id req rec)
  | .repeat _ => rec

end

-- How far an acceptor has come with a request. After the commit only the answer
-- remains.
inductive Stage where
  | idle
  | begun (req : AcceptorReq)
  | found (req : AcceptorReq) (rec : Option AcceptorRecord)
  | applied (req : AcceptorReq) (rec : Option AcceptorRecord)
  | committed (req : AcceptorReq) (rec : Option AcceptorRecord)
  deriving Repr, DecidableEq

-- `answers` are those that left the process, over all its restarts.
structure AcceptorProcess (ε : Type) where
  store : TxStorage ε
  stage : Stage
  answers : List (AcceptorReq × Option AcceptorRecord)

-- After a failure the next process starts with what recovery has `found`.
inductive CrashEvent (ε : Type) where
  | receive (req : AcceptorReq)
  | advance
  | fail (failure : Failure) (found : ε)

open Transactional

section

variable {ε : Type} [Transactional ε Nat AcceptorRecord]

namespace AcceptorProcess

def restart (cfg : BdbConfig) (p : AcceptorProcess ε) (found : ε) : AcceptorProcess ε :=
  { p with
    store := .storageOpen cfg p.store.acceptorId (some found)
    stage := .idle }

-- The calls of `acceptor_receive_prepare` and its siblings one by one. A crash can
-- come between any two of them.
def step (cfg : BdbConfig) (p : AcceptorProcess ε) : CrashEvent ε → Option (AcceptorProcess ε)
  | .receive req =>
      if p.stage = .idle then
        some { p with store := p.store.storageTxBegin, stage := .begun req }
      else none
  | .advance =>
      match p.stage with
      | .idle => none
      | .begun req => (storageGetRecord p.store req.iid).map fun (store, rec) =>
          { p with store := store, stage := .found req rec }
      | .found req rec => (applyReq p.store rec req).map fun (store, rec) =>
          { p with store := store, stage := .applied req rec }
      | .applied req rec =>
          some { p with store := p.store.storageTxCommit cfg, stage := .committed req rec }
      | .committed req rec =>
          some { p with stage := .idle, answers := p.answers ++ [(req, rec)] }
  | .fail _ found => some (p.restart cfg found)

end AcceptorProcess

variable (ε) in
def acceptorProcess (cfg : BdbConfig) (id : Nat) :
    TransitionSystem (AcceptorProcess ε) (CrashEvent ε) where
  init := ⟨.storageOpen cfg id none, .idle, []⟩
  step := AcceptorProcess.step cfg

-- Recovery finds nothing but what the failure can leave.
def CrashEvent.Possible (p : AcceptorProcess ε) : CrashEvent ε → Prop
  | .fail failure found => Recovers failure p.store.env found
  | _ => True

-- A failure of the machine is survived only if commits are flushed.
def CrashEvent.Survivable (cfg : BdbConfig) : CrashEvent ε → Prop
  | .fail .system _ => cfg.bdbSync = true
  | _ => True

end

open MapStorage

-- What the requests do to a storage that is a map.
section

variable {σ : Type} [MapStorage σ]

-- A call leaves `rec` as the record of instance `iid`.
structure Stores (s s' : σ) (iid : Nat) (rec : Option AcceptorRecord) : Prop where
  wf : wf s'
  acceptorId : acceptorId s' = acceptorId s
  records : records s' = Function.update (records s) iid rec

theorem Stores.refl {s : σ} (h : MapStorage.wf s) {iid : Nat} {rec : Option AcceptorRecord}
    (hrec : MapStorage.records s iid = rec) : Stores s s iid rec :=
  ⟨h, rfl, by rw [← hrec, Function.update_eq_self]⟩

theorem applyPrepare_stores (s : σ) (req : PrepareReq) (h : wf s) :
    ∃ s', applyPrepare s req (records s req.iid) =
        some (s', onPrepare (acceptorId s) req (records s req.iid)) ∧
      Stores s s' req.iid (some (onPrepare (acceptorId s) req (records s req.iid))) := by
  obtain ⟨s', hsave, hwf, hid, hrec⟩ := savePrepare_eq s req h
  cases hold : records s req.iid with
  | none =>
      rw [hold] at hsave hrec
      exact ⟨s', hsave, hwf, hid, hrec⟩
  | some r =>
      rw [hold] at hsave hrec
      by_cases hkeep : req.ballot ≤ r.ballot ∨ r.isFinal = true
      · refine ⟨s, ?_, .refl h ?_⟩
        · rcases hkeep with hb | hf
          · simp [applyPrepare, onPrepare, hb]
          · simp [applyPrepare, onPrepare, hf]
        · rw [hold, onPrepare, if_pos hkeep]
      · refine ⟨s', ?_, hwf, hid, ?_⟩
        · obtain ⟨hb, hf⟩ := not_or.mp hkeep
          simp only [applyPrepare, ge_iff_le, hb, hf, if_false, onPrepare, or_self,
            Bool.false_eq_true]
          exact hsave
        · rw [onPrepare, if_neg hkeep]
          exact hrec

theorem applyAccept_stores (s : σ) (req : AcceptReq) (h : wf s) :
    ∃ s', applyAccept s req (records s req.iid) =
        some (s', onAccept (acceptorId s) req (records s req.iid)) ∧
      Stores s s' req.iid (some (onAccept (acceptorId s) req (records s req.iid))) := by
  obtain ⟨s', hsave, hwf, hid, hrec⟩ := saveAccept_eq s req h
  cases hold : records s req.iid with
  | none => exact ⟨s', hsave, hwf, hid, hrec⟩
  | some r =>
      by_cases hgt : req.ballot < r.ballot
      · have hn : ¬r.ballot ≤ req.ballot := by omega
        refine ⟨s, by simp [applyAccept, onAccept, accepts, hgt, hn], .refl h ?_⟩
        rw [hold]
        simp [onAccept, accepts, hn]
      · have hle : r.ballot ≤ req.ballot := by omega
        have hnew : onAccept (acceptorId s) req (some r) = acceptRecord (acceptorId s) req := by
          simp [onAccept, accepts, hle]
        refine ⟨s', ?_, hwf, hid, ?_⟩
        · rw [hnew, applyAccept, if_neg hgt, hsave]
        · rw [hnew, hrec]

theorem applyReq_stores (s : σ) (req : AcceptorReq) (h : wf s) :
    ∃ s', applyReq s (records s req.iid) req =
        some (s', recordAfter (acceptorId s) (records s req.iid) req) ∧
      Stores s s' req.iid (recordAfter (acceptorId s) (records s req.iid) req) := by
  cases req with
  | prepare req =>
      obtain ⟨s', happly, hstores⟩ := applyPrepare_stores s req h
      exact ⟨s', by simp [applyReq, AcceptorReq.iid, happly, recordAfter], hstores⟩
  | accept req =>
      obtain ⟨s', happly, hstores⟩ := applyAccept_stores s req h
      exact ⟨s', by simp [applyReq, AcceptorReq.iid, happly, recordAfter], hstores⟩
  | «repeat» iid => exact ⟨s, rfl, .refl h rfl⟩

theorem acceptorReceive_stores (s : σ) (req : AcceptorReq) (h : wf s) :
    ∃ s', acceptorReceive s req =
        some (s', recordAfter (acceptorId s) (records s req.iid) req) ∧
      Stores s s' req.iid (recordAfter (acceptorId s) (records s req.iid) req) := by
  obtain ⟨mid, hget, hwf, hid, hrec⟩ := get_eq s req.iid h
  obtain ⟨s', happly, hstores⟩ := applyReq_stores mid req hwf
  rw [hrec, hid] at happly hstores
  refine ⟨s', ?_, hstores.wf, hstores.acceptorId.trans hid, ?_⟩
  · rw [acceptorReceive_eq_bind, hget]
    exact happly
  · rw [hstores.records, hrec]

end

section

variable {ε : Type} [Transactional ε Nat AcceptorRecord] {s s' : TxStorage ε}
  {rec rec' : Option AcceptorRecord}

theorem TxStorage.working_of_wf (h : wf s) : working s.env = some (records s) := by
  obtain ⟨db, hdb, _⟩ := h
  simp [MapStorage.records, hdb]

theorem TxStorage.env_getRecord {iid : Nat} (h : storageGetRecord s iid = some (s', rec)) :
    s'.env = s.env := by
  simp only [TxStorage.storageGetRecord] at h
  split at h
  · split_ifs at h
    cases h
    rfl
  · cases h
    rfl

-- A request writes one record or none.
theorem TxStorage.env_applyReq {req : AcceptorReq} (h : applyReq s rec req = some (s', rec')) :
    s'.env = s.env ∨ ∃ iid r, s'.env = put s.env iid r := by
  cases req with
  | prepare req =>
      obtain ⟨⟨mid, r⟩, happly, he⟩ := Option.map_eq_some_iff.mp h
      cases he
      cases rec with
      | none =>
          cases happly
          exact .inr ⟨_, _, rfl⟩
      | some old =>
          simp only [applyPrepare] at happly
          split_ifs at happly
          · cases happly
            exact .inl rfl
          · cases happly
            exact .inl rfl
          · cases happly
            exact .inr ⟨_, _, rfl⟩
  | accept req =>
      obtain ⟨⟨mid, r⟩, happly, he⟩ := Option.map_eq_some_iff.mp h
      cases he
      cases rec with
      | none =>
          cases happly
          exact .inr ⟨_, _, rfl⟩
      | some old =>
          simp only [applyAccept] at happly
          split_ifs at happly
          · cases happly
            exact .inl rfl
          · cases happly
            exact .inr ⟨_, _, rfl⟩
  | «repeat» iid =>
      cases h
      exact .inl rfl

variable {db : Nat → Option AcceptorRecord}

theorem TxStorage.committed_applyReq (hworking : working s.env = some db) {req : AcceptorReq}
    (h : applyReq s rec req = some (s', rec')) : committed s'.env = committed s.env := by
  rcases env_applyReq h with he | ⟨iid, r, he⟩
  · rw [he]
  · rw [he, committed_put s.env db iid r hworking]

theorem TxStorage.flushed_applyReq (hworking : working s.env = some db) {req : AcceptorReq}
    (h : applyReq s rec req = some (s', rec')) (hflushed : Flushed s.env) : Flushed s'.env := by
  rcases env_applyReq h with he | ⟨iid, r, he⟩
  · rwa [he]
  · rw [he]
    exact flushed_put s.env db iid r hworking hflushed

end

-- What the stage of a request says about the open transaction. `db` is what was
-- committed.
def Stage.Valid (id : Nat) (db : Nat → Option AcceptorRecord)
    (working : Option (Nat → Option AcceptorRecord)) : Stage → Prop
  | .idle => working = none
  | .begun _ => working = some db
  | .found req rec => working = some db ∧ rec = db req.iid
  | .applied req rec => rec = recordAfter id (db req.iid) req ∧
      working = some (Function.update db req.iid rec)
  | .committed _ _ => working = none

-- The answer that is still to be written.
def Stage.pending : Stage → List (AcceptorReq × Option AcceptorRecord)
  | .committed req rec => [(req, rec)]
  | _ => []

variable {ε : Type} [Transactional ε Nat AcceptorRecord]

-- An acceptor that was never interrupted has handled the requests of `log` and is in
-- state `s`: the records are those that are committed, and no answer is another one.
structure Uninterrupted (id : Nat) (p : AcceptorProcess ε)
    (log : List (AcceptorReq × Option AcceptorRecord)) (s : BdbStorage) : Prop where
  serves : (acceptorServer BdbStorage).Serves (storageOpen id) log s
  wf : wf s
  acceptorId : s.acceptorId = id
  db : s.db = committed p.store.env
  answers : (p.answers ++ p.stage.pending).Sublist log
  self : p.store.acceptorId = id
  stage : p.stage.Valid id (committed p.store.env) (working p.store.env)

variable {cfg : BdbConfig} {id : Nat} {p p' : AcceptorProcess ε}
  {log : List (AcceptorReq × Option AcceptorRecord)} {s : BdbStorage}

-- A restart that finds all that was committed.
theorem Uninterrupted.restart (h : Uninterrupted id p log s) (htrash : cfg.bdbTrashFiles = false)
    {found : ε} (hworking : working found = none)
    (hfound : committed found = committed p.store.env) :
    Uninterrupted id (p.restart cfg found) log s := by
  have henv : (p.restart cfg found).store.env = commit cfg.bdbSync (txnBegin found) := by
    simp [AcceptorProcess.restart, TxStorage.storageOpen, htrash]
  refine ⟨h.serves, h.wf, h.acceptorId, ?_, ?_, h.self, ?_⟩
  · rw [h.db, henv, committed_commit_begin _ hworking, hfound]
  · simp only [AcceptorProcess.restart, Stage.pending, List.append_nil]
    exact (List.sublist_append_left _ _).trans h.answers
  · rw [henv]
    exact working_commit_begin _ hworking

-- While the open transaction has changed nothing it sees the records that were
-- committed.
theorem Uninterrupted.view (h : Uninterrupted id p log s)
    (hworking : working p.store.env = some (committed p.store.env)) :
    MapStorage.wf p.store ∧ MapStorage.records p.store = committed p.store.env := by
  refine ⟨⟨_, hworking, fun iid rec hrec => h.wf iid rec ?_⟩, ?_⟩
  · rw [h.db]
    exact hrec
  · simp [MapStorage.records, hworking]

theorem Uninterrupted.begun (h : Uninterrupted id p log s) (hidle : p.stage = .idle)
    (req : AcceptorReq) :
    Uninterrupted id { p with store := p.store.storageTxBegin, stage := .begun req } log s := by
  have hnone : working p.store.env = none := by
    have hvalid := h.stage
    rwa [hidle] at hvalid
  have hcommitted := committed_begin p.store.env hnone
  refine ⟨h.serves, h.wf, h.acceptorId, h.db.trans hcommitted.symm, ?_, h.self, ?_⟩
  · have hanswers := h.answers
    rwa [hidle] at hanswers
  · exact (working_begin p.store.env hnone).trans (congrArg some hcommitted.symm)

theorem Uninterrupted.found (h : Uninterrupted id p log s) {req : AcceptorReq}
    (hstage : p.stage = .begun req) {store : TxStorage ε} {rec : Option AcceptorRecord}
    (hget : storageGetRecord p.store req.iid = some (store, rec)) :
    Uninterrupted id { p with store := store, stage := .found req rec } log s := by
  have hworking : working p.store.env = some (committed p.store.env) := by
    have hvalid := h.stage
    rwa [hstage] at hvalid
  obtain ⟨hwf, hrec⟩ := h.view hworking
  obtain ⟨_, hfound, _, hid, _⟩ := get_eq p.store req.iid hwf
  have henv := TxStorage.env_getRecord hget
  cases hfound.symm.trans hget
  refine ⟨h.serves, h.wf, h.acceptorId, ?_, ?_, hid.trans h.self, ?_, ?_⟩
  · rw [henv]
    exact h.db
  · have hanswers := h.answers
    rwa [hstage] at hanswers
  · rwa [henv]
  · rw [hrec, henv]

theorem Uninterrupted.applied (h : Uninterrupted id p log s) {req : AcceptorReq}
    {rec : Option AcceptorRecord} (hstage : p.stage = .found req rec) {store : TxStorage ε}
    {rec' : Option AcceptorRecord} (happly : applyReq p.store rec req = some (store, rec')) :
    Uninterrupted id { p with store := store, stage := .applied req rec' } log s := by
  have hvalid := h.stage
  rw [hstage] at hvalid
  obtain ⟨hworking, rfl⟩ := hvalid
  obtain ⟨hwf, hrec⟩ := h.view hworking
  have hcommitted := TxStorage.committed_applyReq hworking happly
  obtain ⟨_, hafter, hstores⟩ := applyReq_stores p.store req hwf
  have hself : MapStorage.acceptorId p.store = id := h.self
  rw [hself, hrec] at hafter hstores
  cases hafter.symm.trans happly
  refine ⟨h.serves, h.wf, h.acceptorId, h.db.trans hcommitted.symm, ?_,
    hstores.acceptorId.trans hself, ?_, ?_⟩
  · have hanswers := h.answers
    rwa [hstage] at hanswers
  · rw [hcommitted]
  · rw [TxStorage.working_of_wf hstores.wf, hstores.records, hrec, hcommitted]

-- The commit is where the acceptor that is never interrupted handles the request.
theorem Uninterrupted.committed (h : Uninterrupted id p log s) {req : AcceptorReq}
    {rec : Option AcceptorRecord} (hstage : p.stage = .applied req rec) :
    ∃ s', Uninterrupted id
      { p with store := p.store.storageTxCommit cfg, stage := .committed req rec }
      (log ++ [(req, rec)]) s' := by
  have hvalid := h.stage
  rw [hstage] at hvalid
  obtain ⟨hrec, hworking⟩ := hvalid
  obtain ⟨s', hs', hstores⟩ := acceptorReceive_stores s req h.wf
  have hid : MapStorage.acceptorId s = id := h.acceptorId
  have hdb : MapStorage.records s = Transactional.committed p.store.env := h.db
  rw [hid, hdb, ← hrec] at hs' hstores
  refine ⟨s', .snoc h.serves hs', hstores.wf, hstores.acceptorId.trans hid, ?_, ?_, h.self, ?_⟩
  · have hnew := hstores.records
    rw [hdb, ← committed_commit cfg.bdbSync _ _ hworking] at hnew
    exact hnew
  · have hanswers := h.answers
    rw [hstage] at hanswers
    simp only [Stage.pending, List.append_nil] at hanswers ⊢
    exact hanswers.append (.refl _)
  · exact working_commit cfg.bdbSync _ _ hworking

theorem Uninterrupted.step (h : Uninterrupted id p log s) (htrash : cfg.bdbTrashFiles = false)
    (hflushed : cfg.bdbSync = true → Flushed p.store.env) {e : CrashEvent ε} (he : e.Possible p)
    (hsafe : e.Survivable cfg) (hstep : (acceptorProcess ε cfg id).step p e = some p') :
    ∃ log' s', Uninterrupted id p' log' s' := by
  cases e with
  | receive req =>
      simp only [acceptorProcess, AcceptorProcess.step] at hstep
      split_ifs at hstep with hidle
      cases hstep
      exact ⟨log, s, h.begun hidle req⟩
  | advance =>
      simp only [acceptorProcess, AcceptorProcess.step] at hstep
      cases hstage : p.stage with
      | idle =>
          rw [hstage] at hstep
          cases hstep
      | begun req =>
          rw [hstage] at hstep
          obtain ⟨⟨store, rec⟩, hget, rfl⟩ := Option.map_eq_some_iff.mp hstep
          exact ⟨log, s, h.found hstage hget⟩
      | found req rec =>
          rw [hstage] at hstep
          obtain ⟨⟨store, rec'⟩, happly, rfl⟩ := Option.map_eq_some_iff.mp hstep
          exact ⟨log, s, h.applied hstage happly⟩
      | applied req rec =>
          rw [hstage] at hstep
          cases hstep
          exact ⟨_, h.committed hstage⟩
      | committed req rec =>
          rw [hstage] at hstep
          cases hstep
          have hanswers := h.answers
          have hvalid := h.stage
          rw [hstage] at hanswers hvalid
          refine ⟨log, s, h.serves, h.wf, h.acceptorId, h.db, ?_, h.self, hvalid⟩
          simpa [Stage.pending] using hanswers
  | fail failure found =>
      cases hstep
      refine ⟨log, s, h.restart htrash (working_recovers _ _ _ he) (committed_recovers he ?_)⟩
      rintro rfl
      exact hflushed hsafe

theorem TxStorage.flushed_storageOpen {cfg : BdbConfig} (hsync : cfg.bdbSync = true) (id : Nat)
    (dir : Option ε) (h : ∀ e ∈ dir, working e = none) :
    Flushed (TxStorage.storageOpen cfg id dir).env := by
  simp only [TxStorage.storageOpen, hsync]
  exact flushed_commit_begin (working_found cfg h)

-- With `bdb_sync` all that is committed is on the disk at any moment.
theorem Uninterrupted.flushed (h : Uninterrupted id p log s) (hsync : cfg.bdbSync = true)
    (hflushed : Flushed p.store.env) {e : CrashEvent ε} (he : e.Possible p)
    (hstep : (acceptorProcess ε cfg id).step p e = some p') : Flushed p'.store.env := by
  have hvalid := h.stage
  cases e with
  | receive req =>
      simp only [acceptorProcess, AcceptorProcess.step] at hstep
      split_ifs at hstep with hidle
      cases hstep
      rw [hidle] at hvalid
      exact flushed_begin _ hvalid hflushed
  | advance =>
      simp only [acceptorProcess, AcceptorProcess.step] at hstep
      cases hstage : p.stage with
      | idle =>
          rw [hstage] at hstep
          cases hstep
      | begun req =>
          rw [hstage] at hstep
          obtain ⟨⟨store, rec⟩, hget, rfl⟩ := Option.map_eq_some_iff.mp hstep
          rwa [← TxStorage.env_getRecord hget] at hflushed
      | found req rec =>
          rw [hstage] at hstep hvalid
          obtain ⟨⟨store, rec'⟩, happly, rfl⟩ := Option.map_eq_some_iff.mp hstep
          exact TxStorage.flushed_applyReq hvalid.1 happly hflushed
      | applied req rec =>
          rw [hstage] at hstep hvalid
          cases hstep
          simp only [TxStorage.storageTxCommit, hsync]
          exact flushed_commit _ _ hvalid.2
      | committed req rec =>
          rw [hstage] at hstep
          cases hstep
          exact hflushed
  | fail failure found =>
      cases hstep
      apply TxStorage.flushed_storageOpen hsync
      rintro _ ⟨⟩
      exact working_recovers _ _ _ he

theorem Uninterrupted.init (cfg : BdbConfig) (id : Nat) :
    Uninterrupted id (acceptorProcess ε cfg id).init [] (storageOpen id) := by
  have henv : (acceptorProcess ε cfg id).init.store.env = commit cfg.bdbSync (txnBegin create) := by
    simp [acceptorProcess, TxStorage.storageOpen]
  refine ⟨.nil, fun iid rec hrec => (Option.not_mem_none rec hrec).elim, rfl, ?_, .refl _, rfl, ?_⟩
  · rw [henv, committed_commit_begin _ working_create, committed_create]
    rfl
  · rw [henv]
    exact working_commit_begin _ working_create

theorem Uninterrupted.of_reachable (htrash : cfg.bdbTrashFiles = false)
    (hr : (acceptorProcess ε cfg id).Reachable (fun p e => e.Possible p ∧ e.Survivable cfg) p) :
    ∃ log s, Uninterrupted id p log s := by
  have hinv : (∃ log s, Uninterrupted id p log s) ∧
      (cfg.bdbSync = true → Flushed p.store.env) := by
    refine hr.invariant (fun p => (∃ log s, Uninterrupted id p log s) ∧
      (cfg.bdbSync = true → Flushed p.store.env)) ⟨⟨_, _, .init cfg id⟩, ?_⟩ ?_
    · exact fun hsync => TxStorage.flushed_storageOpen hsync id none (by simp)
    · rintro p e p' _ ⟨⟨log, s, h⟩, hflushed⟩ ⟨he, hsafe⟩ hstep
      exact ⟨h.step htrash hflushed he hsafe hstep,
        fun hsync => h.flushed hsync (hflushed hsync) he hstep⟩
  exact hinv.1

-- To those that get its answers an acceptor that crashes at any moment is one that was
-- never interrupted and some of whose answers were lost, if the files are kept and, where
-- the machine can fail, commits are flushed.
theorem crashes_lose_only_answers (cfg : BdbConfig) (id : Nat) (htrash : cfg.bdbTrashFiles = false)
    (p : AcceptorProcess ε)
    (hr : (acceptorProcess ε cfg id).Reachable
      (fun p e => e.Possible p ∧ e.Survivable cfg) p) :
    ∃ log s, (acceptorServer BdbStorage).Serves (storageOpen id) log s ∧
      s.db = committed p.store.env ∧ p.answers.Sublist log := by
  obtain ⟨log, s, h⟩ := Uninterrupted.of_reachable htrash hr
  exact ⟨log, s, h.serves, h.db, (List.sublist_append_left _ _).trans h.answers⟩

-- The process is killed after it has committed a request and before it has answered
-- it. The next process finds the value.
theorem crashes_lose_only_answers_killed :
    ∃ (p : AcceptorProcess (Journal Nat AcceptorRecord))
      (log : List (AcceptorReq × Option AcceptorRecord)) (s : BdbStorage),
      p.answers = [(.prepare ⟨1, 10⟩, some ⟨0, 1, 10, 0, false, []⟩),
        (.repeat 1, some ⟨0, 1, 10, 10, false, [7]⟩)] ∧
      (acceptorServer BdbStorage).Serves (storageOpen 0) log s ∧
      s.db = committed p.store.env ∧ p.answers.Sublist log := by
  obtain ⟨p, hr, hanswers⟩ : ∃ p, (acceptorProcess (Journal Nat AcceptorRecord) {} 0).Reachable
        (fun p e => e.Possible p ∧ e.Survivable {}) p ∧
      p.answers = [(.prepare ⟨1, 10⟩, some ⟨0, 1, 10, 0, false, []⟩),
        (.repeat 1, some ⟨0, 1, 10, 10, false, [7]⟩)] := by
    have hr := TransitionSystem.reachable_of_run
      (fun p e => e.Possible p ∧ e.Survivable {})
      (m := acceptorProcess (Journal Nat AcceptorRecord) {} 0)
      (.of_forall (by simp [CrashEvent.Possible, CrashEvent.Survivable]) _)
      (rfl : (acceptorProcess (Journal Nat AcceptorRecord) {} 0).run _
        [.receive (.prepare ⟨1, 10⟩), .advance, .advance, .advance, .advance,
          .receive (.accept ⟨1, 10, [7]⟩), .advance, .advance, .advance] = some _)
    have hkilled := hr.step (e := CrashEvent.fail .process _) ⟨rfl, trivial⟩ rfl
    exact ⟨_, hkilled.run [.receive (.repeat 1), .advance, .advance, .advance, .advance]
      (.of_forall (by simp [CrashEvent.Possible, CrashEvent.Survivable]) _) rfl, rfl⟩
  obtain ⟨log, s, hserves, hdb, hsub⟩ := crashes_lose_only_answers {} 0 rfl p hr
  exact ⟨p, log, s, hanswers, hserves, hdb, hsub⟩

-- A record is at least as new as another one.
def AcceptAck.Below (rec rec' : AcceptorRecord) : Prop :=
  rec.ballot ≤ rec'.ballot ∧ rec.valueBallot ≤ rec'.valueBallot

-- Every answer still binds the acceptor.
def AcceptorProcess.KeepsPromises (p : AcceptorProcess ε) : Prop :=
  ∀ req rec, (req, some rec) ∈ p.answers →
    ∃ rec', committed p.store.env req.iid = some rec' ∧ rec.Below rec'

end LibPaxos
