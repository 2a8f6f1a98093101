import LibPaxos.Acceptor.History
import LibPaxos.Transition

namespace LibPaxos

-- A result of `DB->get` that is an error.
structure DbError where
  code : Int
  code_ne_zero : code ≠ 0

-- A database whose next read fails if `failure` says so.
structure FlakyBdb where
  store : BdbStorage
  failure : Option DbError

instance FlakyBdb.storage : Storage FlakyBdb where
  storageOpen id := ⟨storageOpen id, none⟩
  storageGetRecord s iid :=
    match s.failure with
    | some err =>
        let (store, rec) := s.store.storageGetRecord (.error err.code)
        some (⟨store, none⟩, rec)
    | none => (storageGetRecord s.store iid).map fun (store, rec) => (⟨store, none⟩, rec)
  storageSaveAccept s ar := (storageSaveAccept s.store ar).map fun (store, rec) =>
    ({ s with store := store }, rec)
  storageSavePrepare s pr rec := (storageSavePrepare s.store pr rec).map fun (store, rec) =>
    ({ s with store := store }, rec)

-- Every request reads once. An event is a request and the error of its read.
def flakyAcceptor (id : Nat) : TransitionSystem BdbStorage (Option DbError × AcceptorReq) where
  init := storageOpen id
  step s e := (acceptorReceive (⟨s, e.1⟩ : FlakyBdb) e.2).map fun (s, _) => s.store

-- The ballots do not fall, and what was accepted is replaced only by an accept
-- request of at least the stored ballot.
def KeepsPromises (id : Nat) (s : BdbStorage) (e : Option DbError × AcceptorReq) : Prop :=
  ∃ s', (flakyAcceptor id).step s e = some s' ∧ ∀ i rec, s.db i = some rec →
    ∃ rec', s'.db i = some rec' ∧ rec.ballot ≤ rec'.ballot ∧
      ((rec'.valueBallot, rec'.value) = (rec.valueBallot, rec.value) ∨
        ∃ ar, e.2 = .accept ar ∧ ar.iid = i ∧ rec.ballot ≤ ar.ballot)

-- A read fails only where a new record does no harm.
def HarmlessError (s : BdbStorage) : Option DbError × AcceptorReq → Prop
  | (none, _) => True
  | (some _, .prepare pr) => ∀ rec ∈ s.db pr.iid,
      rec.ballot ≤ pr.ballot ∧ rec.valueBallot = 0 ∧ rec.value = []
  | (some _, .accept ar) => ∀ rec ∈ s.db ar.iid, rec.ballot ≤ ar.ballot
  | (some _, .repeat _) => True

instance HarmlessError.decidable (s : BdbStorage) :
    (e : Option DbError × AcceptorReq) → Decidable (HarmlessError s e)
  | (none, _) => isTrue trivial
  | (some _, .prepare _) => Option.decidableForallMem _
  | (some _, .accept _) => Option.decidableForallMem _
  | (some _, .repeat _) => isTrue trivial

-- What `storage_get_record` answers.
def readRecord (failure : Option DbError) (rec : Option AcceptorRecord) : Option AcceptorRecord :=
  if failure.isSome then none else rec

-- Every record is stored under its own iid, so that the assertion after a read holds.
def BdbStorage.Keyed (s : BdbStorage) : Prop := ∀ iid rec, s.db iid = some rec → rec.iid = iid

theorem flaky_getRecord {s : BdbStorage} (h : s.Keyed) (failure : Option DbError) (iid : Nat) :
    ∃ buf, storageGetRecord (⟨s, failure⟩ : FlakyBdb) iid =
      some (⟨{ s with recordBuf := buf }, none⟩, readRecord failure (s.db iid)) := by
  cases failure with
  | some err => exact ⟨s.recordBuf, rfl⟩
  | none =>
      cases hrec : s.db iid with
      | none =>
          refine ⟨s.recordBuf, ?_⟩
          simp [storageGetRecord, dbGet, hrec, BdbStorage.storageGetRecord, readRecord]
      | some rec =>
          refine ⟨rec, ?_⟩
          simp [storageGetRecord, dbGet, hrec, h iid rec hrec, BdbStorage.storageGetRecord,
            readRecord]

theorem readRecord_some {failure : Option DbError} {found : Option AcceptorRecord}
    {rec : AcceptorRecord} (h : readRecord failure found = some rec) : found = some rec := by
  cases failure with
  | none => exact h
  | some err => cases h

-- One request replaces one record. Its read decides what that record is built from.
structure BdbStorage.Becomes (s s' : BdbStorage) (iid : Nat) (rec : AcceptorRecord) : Prop where
  acceptorId : s'.acceptorId = s.acceptorId
  db : s'.db = Function.update s.db iid (some rec)

theorem flaky_prepare (id : Nat) {s : BdbStorage} (h : s.Keyed) (failure : Option DbError)
    (pr : PrepareReq) :
    ∃ s', (flakyAcceptor id).step s (failure, .prepare pr) = some s' ∧
      s.Becomes s' pr.iid (onPrepare s.acceptorId pr (readRecord failure (s.db pr.iid))) := by
  obtain ⟨buf, hget⟩ := flaky_getRecord h failure pr.iid
  have hreceive : acceptorReceivePrepare (⟨s, failure⟩ : FlakyBdb) pr =
      applyPrepare (⟨{ s with recordBuf := buf }, none⟩ : FlakyBdb) pr
        (readRecord failure (s.db pr.iid)) := by
    simp only [acceptorReceivePrepare, hget, Option.bind_eq_bind, Option.bind_some]
  simp only [flakyAcceptor, acceptorReceive, hreceive]
  cases hread : readRecord failure (s.db pr.iid) with
  | none => exact ⟨_, rfl, rfl, rfl⟩
  | some rec =>
      have hrec := readRecord_some hread
      by_cases hge : pr.ballot ≤ rec.ballot
      · have hsame : onPrepare s.acceptorId pr (some rec) = rec := by simp [onPrepare, hge]
        refine ⟨{ s with recordBuf := buf }, by simp [applyPrepare, hge], rfl, ?_⟩
        rw [hsame, ← hrec, Function.update_eq_self]
      · by_cases hfinal : rec.isFinal = true
        · have hsame : onPrepare s.acceptorId pr (some rec) = rec := by simp [onPrepare, hfinal]
          refine ⟨{ s with recordBuf := buf }, by simp [applyPrepare, hfinal], rfl, ?_⟩
          rw [hsame, ← hrec, Function.update_eq_self]
        · have hnew : onPrepare s.acceptorId pr (some rec) =
              prepareRecord s.acceptorId pr (some rec) := by simp [onPrepare, hge, hfinal]
          rw [hnew]
          refine ⟨(BdbStorage.storageSavePrepare { s with recordBuf := buf } pr (some rec)).1, ?_,
            rfl, rfl⟩
          simp only [applyPrepare, ge_iff_le, hge, hfinal, if_false, Bool.false_eq_true]
          rfl

theorem flaky_accept (id : Nat) {s : BdbStorage} (h : s.Keyed) (failure : Option DbError)
    (ar : AcceptReq) :
    ∃ s', (flakyAcceptor id).step s (failure, .accept ar) = some s' ∧
      s.Becomes s' ar.iid (onAccept s.acceptorId ar (readRecord failure (s.db ar.iid))) := by
  obtain ⟨buf, hget⟩ := flaky_getRecord h failure ar.iid
  have hreceive : acceptorReceiveAccept (⟨s, failure⟩ : FlakyBdb) ar =
      applyAccept (⟨{ s with recordBuf := buf }, none⟩ : FlakyBdb) ar
        (readRecord failure (s.db ar.iid)) := by
    simp only [acceptorReceiveAccept, hget, Option.bind_eq_bind, Option.bind_some]
  simp only [flakyAcceptor, acceptorReceive, hreceive]
  cases hread : readRecord failure (s.db ar.iid) with
  | none => exact ⟨_, rfl, rfl, rfl⟩
  | some rec =>
      have hrec := readRecord_some hread
      by_cases hgt : rec.ballot > ar.ballot
      · have hsame : onAccept s.acceptorId ar (some rec) = rec := by
          simp [onAccept, accepts, hgt]
        refine ⟨{ s with recordBuf := buf }, by simp [applyAccept, hgt], rfl, ?_⟩
        rw [hsame, ← hrec, Function.update_eq_self]
      · have hle : rec.ballot ≤ ar.ballot := by omega
        have hnew : onAccept s.acceptorId ar (some rec) = acceptRecord s.acceptorId ar := by
          simp [onAccept, accepts, hle]
        rw [hnew]
        refine ⟨(BdbStorage.storageSaveAccept { s with recordBuf := buf } ar).1, ?_, rfl, rfl⟩
        simp only [applyAccept, hgt, if_false]
        rfl

theorem flaky_repeat (id : Nat) {s : BdbStorage} (h : s.Keyed) (failure : Option DbError)
    (iid : Nat) :
    ∃ s', (flakyAcceptor id).step s (failure, .repeat iid) = some s' ∧
      s'.acceptorId = s.acceptorId ∧ s'.db = s.db := by
  obtain ⟨buf, hget⟩ := flaky_getRecord h failure iid
  refine ⟨{ s with recordBuf := buf }, ?_, rfl, rfl⟩
  simp only [flakyAcceptor, acceptorReceive, acceptorReceiveRepeat, hget, Option.map_some]

-- The promises of one instance decide, since the others stay.
theorem keepsPromises_iff (id : Nat) {s s' : BdbStorage} {e : Option DbError × AcceptorReq}
    {iid : Nat} {rec : AcceptorRecord} (hstep : (flakyAcceptor id).step s e = some s')
    (hb : s.Becomes s' iid rec) :
    KeepsPromises id s e ↔ ∀ old ∈ s.db iid, old.ballot ≤ rec.ballot ∧
      ((rec.valueBallot, rec.value) = (old.valueBallot, old.value) ∨
        ∃ ar, e.2 = .accept ar ∧ ar.iid = iid ∧ old.ballot ≤ ar.ballot) := by
  constructor
  · rintro ⟨next, he, hkeep⟩ old hold
    obtain rfl : next = s' := Option.some.inj (he.symm.trans hstep)
    obtain ⟨new, hnew, hrest⟩ := hkeep iid old hold
    rw [hb.db, Function.update_self, Option.some.injEq] at hnew
    rw [hnew]
    exact hrest
  · intro hkeep
    refine ⟨s', hstep, fun i old hold => ?_⟩
    by_cases hi : i = iid
    · subst hi
      exact ⟨rec, by rw [hb.db, Function.update_self], hkeep old hold⟩
    · exact ⟨old, by rw [hb.db, Function.update_of_ne hi, hold], Nat.le_refl _, .inl rfl⟩

theorem BdbStorage.Becomes.keyed {s s' : BdbStorage} {iid : Nat} {rec : AcceptorRecord}
    (hb : s.Becomes s' iid rec) (h : s.Keyed) (hrec : rec.iid = iid) : s'.Keyed := by
  intro i item hitem
  rw [hb.db] at hitem
  by_cases hi : i = iid
  · subst hi
    rw [Function.update_self, Option.some.injEq] at hitem
    exact hitem ▸ hrec
  · rw [Function.update_of_ne hi] at hitem
    exact h i item hitem

theorem BdbStorage.Keyed.step {id : Nat} {s s' : BdbStorage} (h : s.Keyed)
    {e : Option DbError × AcceptorReq} (hstep : (flakyAcceptor id).step s e = some s') :
    s'.Keyed := by
  obtain ⟨failure, req⟩ := e
  cases req with
  | prepare pr =>
      obtain ⟨next, he, hb⟩ := flaky_prepare id h failure pr
      obtain rfl : next = s' := Option.some.inj (he.symm.trans hstep)
      apply hb.keyed h
      cases hr : readRecord failure (s.db pr.iid) with
      | none => rfl
      | some rec =>
          have hiid := h pr.iid rec (readRecord_some hr)
          simp only [onPrepare]
          split_ifs
          · exact hiid
          · exact hiid
  | accept ar =>
      obtain ⟨next, he, hb⟩ := flaky_accept id h failure ar
      obtain rfl : next = s' := Option.some.inj (he.symm.trans hstep)
      apply hb.keyed h
      cases hr : readRecord failure (s.db ar.iid) with
      | none => rfl
      | some rec =>
          simp only [onAccept]
          split_ifs
          · rfl
          · exact h ar.iid rec (readRecord_some hr)
  | «repeat» iid =>
      obtain ⟨next, he, _, hdb⟩ := flaky_repeat id h failure iid
      obtain rfl : next = s' := Option.some.inj (he.symm.trans hstep)
      intro i rec hrec
      rw [hdb] at hrec
      exact h i rec hrec

-- A failed read is answered like a missing record, and the new record replaces the
-- one that could not be read.
theorem keepsPromises_iff_harmless (id : Nat) {s : BdbStorage} (h : s.Keyed)
    (e : Option DbError × AcceptorReq) : KeepsPromises id s e ↔ HarmlessError s e := by
  obtain ⟨failure, req⟩ := e
  cases req with
  | prepare pr =>
      obtain ⟨s', hstep, hb⟩ := flaky_prepare id h failure pr
      rw [keepsPromises_iff id hstep hb]
      cases failure with
      | some err =>
          apply forall₂_congr
          intro old hold
          simp only [readRecord, Option.isSome_some, if_true, onPrepare, prepareRecord,
            Prod.mk.injEq, reduceCtorEq, false_and, exists_false, or_false]
          rw [eq_comm, @eq_comm _ [] old.value]
      | none =>
          refine ⟨fun _ => trivial, fun _ old hold => ?_⟩
          have hread : readRecord none (s.db pr.iid) = some old := hold
          rw [hread]
          refine ⟨(onPrepare_grows _ pr old).1, .inl ?_⟩
          simp only [onPrepare]
          split_ifs
          · rfl
          · rfl
  | accept ar =>
      obtain ⟨s', hstep, hb⟩ := flaky_accept id h failure ar
      rw [keepsPromises_iff id hstep hb]
      cases failure with
      | some err =>
          apply forall₂_congr
          intro old hold
          constructor
          · exact fun hkeep => hkeep.1
          · exact fun hle => ⟨hle, .inr ⟨ar, rfl, rfl, hle⟩⟩
      | none =>
          refine ⟨fun _ => trivial, fun _ old hold => ?_⟩
          have hread : readRecord none (s.db ar.iid) = some old := hold
          rw [hread]
          by_cases hle : old.ballot ≤ ar.ballot
          · have hnew : onAccept s.acceptorId ar (some old) = acceptRecord s.acceptorId ar := by
              simp [onAccept, accepts, hle]
            rw [hnew]
            exact ⟨hle, .inr ⟨ar, rfl, rfl, hle⟩⟩
          · have hsame : onAccept s.acceptorId ar (some old) = old := by
              simp [onAccept, accepts, hle]
            rw [hsame]
            exact ⟨Nat.le_refl _, .inl rfl⟩
  | «repeat» iid =>
      obtain ⟨s', hstep, _, hdb⟩ := flaky_repeat id h failure iid
      have hharmless : HarmlessError s (failure, .repeat iid) := by
        cases failure <;> exact trivial
      refine ⟨fun _ => hharmless, fun _ => ⟨s', hstep, fun i rec hrec => ?_⟩⟩
      exact ⟨rec, by rw [hdb, hrec], Nat.le_refl _, .inl rfl⟩

-- Every sequence of requests, with every pattern of read errors.
theorem promises_survive_read_errors (id : Nat) (events : List (Option DbError × AcceptorReq)) :
    (flakyAcceptor id).Meets (KeepsPromises id) (storageOpen id) events ↔
      (flakyAcceptor id).Meets HarmlessError (storageOpen id) events := by
  apply TransitionSystem.Meets.iff_of_invariant BdbStorage.Keyed
  · exact fun s hs e _ => keepsPromises_iff_harmless id hs e
  · exact fun s e s' hs _ _ hstep => hs.step hstep
  · intro iid rec hrec
    cases hrec

-- The acceptor has promised ballot 20. A read fails, and it promises ballot 10.
theorem promise_undone_by_read_error :
    ¬(flakyAcceptor 0).Meets (KeepsPromises 0) (storageOpen 0)
      [(none, .prepare ⟨1, 20⟩), (some ⟨5, by decide⟩, .prepare ⟨1, 10⟩)] := by
  intro h
  obtain ⟨_, h⟩ := h
  obtain ⟨⟨s', hstep, hkeep⟩, _⟩ := h _ rfl
  obtain ⟨rec, hrec, hle, _⟩ := hkeep 1 ⟨0, 1, 20, 0, false, []⟩ rfl
  cases hstep
  cases hrec
  exact absurd hle (by decide)

end LibPaxos
