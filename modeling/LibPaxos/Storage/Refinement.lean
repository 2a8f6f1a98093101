import LibPaxos.Acceptor.History
import LibPaxos.Server
import LibPaxos.Storage.Mem

namespace LibPaxos

-- An acceptor as a server of requests: it answers with the record it returns.
def acceptorServer (σ : Type) [Storage σ] : Server σ AcceptorReq (Option AcceptorRecord) :=
  acceptorReceive

def AcceptorReq.iid : AcceptorReq → Nat
  | .prepare req => req.iid
  | .accept req => req.iid
  | .repeat iid => iid

-- The requests that the two stores are compared on: the iid is not the one that
-- marks an empty slot, and a record with the value fits a slot.
def AcceptorReq.FitsSlot : AcceptorReq → Prop
  | .prepare req => 1 ≤ req.iid
  | .accept req => 1 ≤ req.iid ∧ acceptAckSize (acceptRecord 0 req) ≤ MAX_SIZE_RECORD
  | .repeat iid => 1 ≤ iid

-- A request that stored a record came before, for a larger iid of the same slot.
def TooOld (past : List AcceptorReq) (req : AcceptorReq) : Prop :=
  ∃ iid, (∃ earlier ∈ past, (earlier.ballotFor iid).isSome) ∧
    req.iid < iid ∧ iid % MAX_RECORDS = req.iid % MAX_RECORDS

variable {junk : Fin MAX_RECORDS → AcceptorRecord}

-- A slot holds the record of the largest iid stored in its class, as the
-- database has it, or still the iid 0 that `storage_open` gave it.
structure Mirrors (m : MemStorage junk) (d : BdbStorage) : Prop where
  acceptorId : m.acceptorId = d.acceptorId
  keyed : ∀ iid rec, d.db iid = some rec → rec.iid = iid
  newest : ∀ iid rec, d.db iid = some rec → iid ≤ (m.records (recordSlot iid)).iid
  held : ∀ i, (m.records i).iid ≠ 0 →
    recordSlot (m.records i).iid = i ∧ d.db (m.records i).iid = some (m.records i)

theorem Mirrors.opened (id : Nat) :
    Mirrors (storageOpen id : MemStorage junk) (storageOpen id : BdbStorage) where
  acceptorId := rfl
  keyed iid rec h := by cases h
  newest iid rec h := by cases h
  held i h := absurd rfl h

-- A read gives what the database gives, unless the slot has moved on to a
-- larger iid.
theorem Mirrors.getRecord {m : MemStorage junk} {d : BdbStorage} (h : Mirrors m d) {iid : Nat}
    (hiid : 1 ≤ iid) (hle : (m.records (recordSlot iid)).iid ≤ iid) :
    storageGetRecord m iid = some (m, d.db iid) := by
  have hnlt : ¬iid < (m.records (recordSlot iid)).iid := by omega
  simp only [storageGetRecord, MemStorage.storageGetRecord, hnlt, if_false]
  by_cases heq : iid = (m.records (recordSlot iid)).iid
  · have hheld := (h.held (recordSlot iid) (by omega)).2
    rw [← heq] at hheld
    rw [if_pos heq, hheld]
  · rw [if_neg heq]
    cases hd : d.db iid with
    | none => rfl
    | some rec =>
        have := h.newest iid rec hd
        omega

theorem Mirrors.write {m : MemStorage junk} {d : BdbStorage} (h : Mirrors m d)
    {rec buf : AcceptorRecord} {iid : Nat} (hiid : rec.iid = iid)
    (hle : (m.records (recordSlot iid)).iid ≤ iid) :
    Mirrors (m.write iid rec) { d with recordBuf := buf, db := dbPut d.db iid rec } where
  acceptorId := h.acceptorId
  keyed j r hj := by
    by_cases hne : j = iid
    · subst hne
      simp only [dbPut, Function.update_self, Option.some.injEq] at hj
      exact hj ▸ hiid
    · simp only [dbPut, ne_eq, hne, not_false_eq_true, Function.update_of_ne] at hj
      exact h.keyed j r hj
  newest j r hj := by
    by_cases hslot : recordSlot j = recordSlot iid
    · rw [MemStorage.write_records, hslot, Function.update_self, hiid]
      by_cases hne : j = iid
      · omega
      · simp only [dbPut, ne_eq, hne, not_false_eq_true, Function.update_of_ne] at hj
        have := h.newest j r hj
        rw [hslot] at this
        omega
    · have hne : j ≠ iid := fun he => hslot (he ▸ rfl)
      rw [MemStorage.write_records, Function.update_of_ne hslot]
      simp only [dbPut, ne_eq, hne, not_false_eq_true, Function.update_of_ne] at hj
      exact h.newest j r hj
  held i hi := by
    by_cases hslot : i = recordSlot iid
    · subst hslot
      simp only [MemStorage.write_records, Function.update_self, hiid, dbPut, and_self]
    · rw [MemStorage.write_records, Function.update_of_ne hslot] at hi ⊢
      obtain ⟨hs, hd⟩ := h.held i hi
      have hne : (m.records i).iid ≠ iid := by
        intro he
        rw [he] at hs
        exact hslot hs.symm
      exact ⟨hs, by simpa [dbPut, hne] using hd⟩

-- The pointer that a read returned still points to the record of the database.
theorem Mirrors.slot_eq {m : MemStorage junk} {d : BdbStorage} (h : Mirrors m d) {iid : Nat}
    {rec : AcceptorRecord} (hiid : 1 ≤ iid) (hle : (m.records (recordSlot iid)).iid ≤ iid)
    (hd : d.db iid = some rec) : m.records (recordSlot iid) = rec := by
  have hnew := h.newest iid rec hd
  have heq : (m.records (recordSlot iid)).iid = iid := by omega
  have hheld := (h.held (recordSlot iid) (by omega)).2
  rw [heq, hd] at hheld
  exact (Option.some.inj hheld).symm

theorem Mirrors.bdbRecord {m : MemStorage junk} {d : BdbStorage} (h : Mirrors m d) (iid : Nat) :
    ∃ d', storageGetRecord d iid = some (d', d.db iid) ∧ d'.db = d.db ∧ Mirrors m d' := by
  obtain ⟨d', hget, hkeyed, hid, hdb⟩ := MapStorage.get_eq d iid h.keyed
  have hdb' : d'.db = d.db := hdb
  refine ⟨d', hget, hdb', h.acceptorId.trans hid.symm, hkeyed, ?_, ?_⟩
  · rw [hdb']
    exact h.newest
  · rw [hdb']
    exact h.held

theorem isSome_dbPut (db : Nat → Option AcceptorRecord) (iid : Nat) (rec : AcceptorRecord)
    (i : Nat) : (dbPut db iid rec i).isSome ↔ (db i).isSome ∨ i = iid := by
  by_cases hi : i = iid
  · subst hi
    simp [dbPut]
  · simp [dbPut, hi]

-- Both stores answer a request for `iid` with the same record, and now hold a
-- record of `iid`.
def Agree (d : BdbStorage) (iid : Nat) (onMem : Option (MemStorage junk × AcceptorRecord))
    (onBdb : Option (BdbStorage × AcceptorRecord)) : Prop :=
  ∃ m' d' rec, onMem = some (m', rec) ∧ onBdb = some (d', rec) ∧ Mirrors m' d' ∧
    ∀ i, (d'.db i).isSome ↔ (d.db i).isSome ∨ i = iid

-- A request that is answered from the record and stores nothing.
theorem Mirrors.keep {m : MemStorage junk} {d : BdbStorage} (h : Mirrors m d) {iid : Nat}
    {rec : AcceptorRecord} (hd : d.db iid = some rec) :
    Agree d iid (some (m, rec)) (some (d, rec)) := by
  refine ⟨m, d, rec, rfl, rfl, h, fun i => ⟨Or.inl, ?_⟩⟩
  rintro (hi | rfl)
  · exact hi
  · rw [hd]
    rfl

theorem Mirrors.savePrepare {m : MemStorage junk} {d : BdbStorage} (h : Mirrors m d)
    (pr : PrepareReq) (hiid : 1 ≤ pr.iid) (hle : (m.records (recordSlot pr.iid)).iid ≤ pr.iid) :
    Agree d pr.iid (storageSavePrepare m pr (d.db pr.iid))
      (storageSavePrepare d pr (d.db pr.iid)) := by
  have hbuf : prepareRecord m.acceptorId pr
      ((d.db pr.iid).map fun _ => m.records (recordSlot pr.iid)) =
      prepareRecord d.acceptorId pr (d.db pr.iid) := by
    rw [h.acceptorId]
    cases hd : d.db pr.iid with
    | none => rfl
    | some rec => rw [Option.map_some, h.slot_eq hiid hle hd]
  have hrec : (prepareRecord d.acceptorId pr (d.db pr.iid)).iid = pr.iid := by
    cases hd : d.db pr.iid with
    | none => rfl
    | some rec => exact h.keyed pr.iid rec hd
  refine ⟨m.write pr.iid (prepareRecord d.acceptorId pr (d.db pr.iid)), _, _, ?_, rfl,
    h.write hrec hle, isSome_dbPut _ _ _⟩
  simp only [storageSavePrepare, MemStorage.storageSavePrepare, hbuf]

theorem Mirrors.saveAccept {m : MemStorage junk} {d : BdbStorage} (h : Mirrors m d)
    (ar : AcceptReq) (hle : (m.records (recordSlot ar.iid)).iid ≤ ar.iid)
    (hfits : acceptAckSize (acceptRecord 0 ar) ≤ MAX_SIZE_RECORD) :
    Agree d ar.iid (storageSaveAccept m ar) (storageSaveAccept d ar) := by
  refine ⟨m.write ar.iid (acceptRecord d.acceptorId ar), _, acceptRecord d.acceptorId ar, ?_, rfl,
    h.write rfl hle, isSome_dbPut _ _ _⟩
  rw [← h.acceptorId]
  exact if_pos hfits

theorem Mirrors.applyPrepare {m : MemStorage junk} {d : BdbStorage} (h : Mirrors m d)
    (pr : PrepareReq) (hiid : 1 ≤ pr.iid) (hle : (m.records (recordSlot pr.iid)).iid ≤ pr.iid) :
    Agree d pr.iid (applyPrepare m pr (d.db pr.iid)) (applyPrepare d pr (d.db pr.iid)) := by
  have hsave := h.savePrepare pr hiid hle
  cases hd : d.db pr.iid with
  | none =>
      rw [hd] at hsave
      exact hsave
  | some r =>
      rw [hd] at hsave
      unfold LibPaxos.applyPrepare
      by_cases hge : r.ballot ≥ pr.ballot
      · simp only [hge, if_true]
        exact h.keep hd
      · by_cases hfinal : r.isFinal = true
        · simp only [hge, hfinal, if_false, if_true]
          exact h.keep hd
        · simp only [hge, hfinal, if_false]
          exact hsave

theorem Mirrors.applyAccept {m : MemStorage junk} {d : BdbStorage} (h : Mirrors m d)
    (ar : AcceptReq) (hle : (m.records (recordSlot ar.iid)).iid ≤ ar.iid)
    (hfits : acceptAckSize (acceptRecord 0 ar) ≤ MAX_SIZE_RECORD) :
    Agree d ar.iid (applyAccept m ar (d.db ar.iid)) (applyAccept d ar (d.db ar.iid)) := by
  have hsave := h.saveAccept ar hle hfits
  cases hd : d.db ar.iid with
  | none => exact hsave
  | some r =>
      unfold LibPaxos.applyAccept
      by_cases hgt : r.ballot > ar.ballot
      · simp only [hgt, if_true]
        exact h.keep hd
      · simp only [hgt, if_false]
        exact hsave

-- One request, while the slot has not moved on to a larger iid.
theorem Mirrors.receive {m : MemStorage junk} {d : BdbStorage} (h : Mirrors m d)
    {req : AcceptorReq} (hreq : req.FitsSlot)
    (hle : (m.records (recordSlot req.iid)).iid ≤ req.iid) :
    ∃ m' d' out, acceptorReceive m req = some (m', out) ∧ acceptorReceive d req = some (d', out) ∧
      Mirrors m' d' ∧ ∀ i, (d'.db i).isSome ↔ (d.db i).isSome ∨ (req.ballotFor i).isSome := by
  obtain ⟨d', hget', hdb, h'⟩ := h.bdbRecord req.iid
  cases req with
  | prepare pr =>
      have hget := h.getRecord hreq hle
      obtain ⟨m'', d'', rec, hm, hd, h'', hsome⟩ := h'.applyPrepare pr hreq hle
      rw [hdb] at hm hd hsome
      refine ⟨m'', d'', some rec, ?_, ?_, h'', fun i => (hsome i).trans ?_⟩
      · simp [acceptorReceive, acceptorReceivePrepare, hget, hm]
      · simp only [AcceptorReq.iid] at hget'
        simp [acceptorReceive, acceptorReceivePrepare, hget', hd]
      · rw [eq_comm (a := i)]
        simp [AcceptorReq.ballotFor, Option.isSome_ite]
  | accept ar =>
      have hget := h.getRecord hreq.1 hle
      obtain ⟨m'', d'', rec, hm, hd, h'', hsome⟩ := h'.applyAccept ar hle hreq.2
      rw [hdb] at hm hd hsome
      refine ⟨m'', d'', some rec, ?_, ?_, h'', fun i => (hsome i).trans ?_⟩
      · simp [acceptorReceive, acceptorReceiveAccept, hget, hm]
      · simp only [AcceptorReq.iid] at hget'
        simp [acceptorReceive, acceptorReceiveAccept, hget', hd]
      · rw [eq_comm (a := i)]
        simp [AcceptorReq.ballotFor, Option.isSome_ite]
  | «repeat» iid =>
      refine ⟨m, d', d.db iid, h.getRecord hreq hle, hget', h', fun i => ?_⟩
      simp [hdb, AcceptorReq.ballotFor]

-- The read at the start of every request already ends the process.
theorem MemStorage.exits (m : MemStorage junk) (req : AcceptorReq)
    (hlt : req.iid < (m.records (recordSlot req.iid)).iid) : acceptorReceive m req = none := by
  have hget : LibPaxos.storageGetRecord m req.iid = none := if_pos hlt
  cases req with
  | prepare pr =>
      change LibPaxos.storageGetRecord m pr.iid = none at hget
      simp [acceptorReceive, acceptorReceivePrepare, hget]
  | accept ar =>
      change LibPaxos.storageGetRecord m ar.iid = none at hget
      simp [acceptorReceive, acceptorReceiveAccept, hget]
  | «repeat» iid => exact hget

-- The states of both acceptors after a history: the iids it stored are the keys
-- of the database.
structure Replays (past : List AcceptorReq) (m : MemStorage junk) (d : BdbStorage) : Prop where
  mirrors : Mirrors m d
  stored : ∀ iid, (d.db iid).isSome ↔ ∃ earlier ∈ past, (earlier.ballotFor iid).isSome

-- A slot is ahead of a request exactly when a larger iid of the class was stored.
theorem Replays.tooOld_iff {past : List AcceptorReq} {m : MemStorage junk} {d : BdbStorage}
    (h : Replays past m d) (req : AcceptorReq) :
    TooOld past req ↔ req.iid < (m.records (recordSlot req.iid)).iid := by
  constructor
  · rintro ⟨iid, hstored, hlt, hmod⟩
    obtain ⟨rec, hrec⟩ := Option.isSome_iff_exists.mp ((h.stored iid).mpr hstored)
    have hslot : recordSlot iid = recordSlot req.iid := Fin.ext hmod
    have hnew := h.mirrors.newest iid rec hrec
    rw [hslot] at hnew
    omega
  · intro hlt
    obtain ⟨hslot, hdb⟩ := h.mirrors.held (recordSlot req.iid) (by omega)
    refine ⟨_, (h.stored _).mp ?_, hlt, congrArg Fin.val hslot⟩
    rw [hdb]
    rfl

theorem follows_bdb : (acceptorServer (MemStorage junk)).Follows (acceptorServer BdbStorage)
    AcceptorReq.FitsSlot TooOld Replays where
  stops past m d req h _ hold := m.exits req ((h.tooOld_iff req).mp hold)
  step past m d req h hfits hold := by
    rw [h.tooOld_iff] at hold
    obtain ⟨m', d', out, hm, hd, h', hsome⟩ := h.mirrors.receive hfits (by omega)
    refine ⟨m', d', out, hm, hd, h', fun iid => ?_⟩
    rw [hsome, h.stored]
    simp [or_and_right, exists_or]

-- A storage that is a map never ends the process.
theorem acceptorReceive_answers {σ : Type} [MapStorage σ] (s : σ) (req : AcceptorReq)
    (h : MapStorage.wf s) :
    ∃ s' out, acceptorReceive s req = some (s', out) ∧ MapStorage.wf s' := by
  obtain ⟨s', hget, hwf, _, hrec⟩ := MapStorage.get_eq s req.iid h
  cases req with
  | prepare pr =>
      change storageGetRecord s pr.iid = some (s', MapStorage.records s pr.iid) at hget
      obtain ⟨s'', hsave, hwf', _⟩ := MapStorage.savePrepare_eq s' pr hwf
      rw [hrec] at hsave
      simp only [acceptorReceive, acceptorReceivePrepare, hget, Option.bind_eq_bind,
        Option.bind_some, applyPrepare]
      grind
  | accept ar =>
      change storageGetRecord s ar.iid = some (s', MapStorage.records s ar.iid) at hget
      obtain ⟨s'', hsave, hwf', _⟩ := MapStorage.saveAccept_eq s' ar hwf
      simp only [acceptorReceive, acceptorReceiveAccept, hget, Option.bind_eq_bind,
        Option.bind_some, applyAccept]
      grind
  | «repeat» iid => exact ⟨s', _, hget, hwf⟩

-- The in-memory store answers as the database does until it exits, and it exits
-- at the first request that is older than the record in its slot.
theorem mem_refines_bdb (junk : Fin MAX_RECORDS → AcceptorRecord) (id : Nat)
    (reqs : List AcceptorReq) (hreqs : ∀ req ∈ reqs, req.FitsSlot) :
    (acceptorServer (MemStorage junk)).replies (storageOpen id) reqs <+:
        (acceptorServer BdbStorage).replies (storageOpen id) reqs ∧
      ((acceptorServer BdbStorage).replies (storageOpen id) reqs).length = reqs.length ∧
      ∀ before req after, reqs = before ++ req :: after →
        ((acceptorServer (MemStorage junk)).StopsAt (storageOpen id) before req ↔
          Server.FirstAt TooOld before req) := by
  have hopen : Replays [] (storageOpen id : MemStorage junk) (storageOpen id : BdbStorage) :=
    ⟨Mirrors.opened id, fun iid => by simp [storageOpen, BdbStorage.storageOpen]⟩
  refine ⟨follows_bdb.replies_prefix hopen reqs hreqs, ?_, ?_⟩
  · exact Server.replies_length MapStorage.wf acceptorReceive_answers (MapStorage.open_eq id).1 reqs
  · intro before req after he
    subst he
    apply follows_bdb.stopsAt_iff hopen
    · exact fun r hr => hreqs r (List.mem_append_left _ hr)
    · exact hreqs req (List.mem_append_right _ List.mem_cons_self)

-- Instance 4097 takes the slot of instance 1, so a repeat request for 1 exits.
theorem mem_refines_bdb_overwritten :
    (acceptorServer (MemStorage fun _ => ⟨0, 0, 0, 0, false, []⟩)).StopsAt (storageOpen 0)
      [.prepare ⟨1, 10⟩, .accept ⟨4097, 10, [7]⟩] (.repeat 1) := by
  have hfits : ∀ req ∈ [AcceptorReq.prepare ⟨1, 10⟩, .accept ⟨4097, 10, [7]⟩, .repeat 1],
      req.FitsSlot := by
    simp [AcceptorReq.FitsSlot, acceptAckSize, acceptRecord, MAX_SIZE_RECORD]
  refine ((mem_refines_bdb _ 0 _ hfits).2.2 _ _ [] rfl).mpr ⟨⟨4097, ?_, ?_, ?_⟩, ?_⟩
  · simp [AcceptorReq.ballotFor]
  · simp [AcceptorReq.iid]
  · rfl
  · intro b r a he hold
    obtain ⟨iid, ⟨earlier, hm, hb⟩, hlt, _⟩ := hold
    cases b with
    | nil => cases hm
    | cons x b =>
        simp only [List.cons_append, List.cons.injEq] at he
        obtain ⟨rfl, he⟩ := he
        cases b with
        | nil =>
            simp only [List.nil_append, List.cons.injEq] at he
            obtain ⟨rfl, rfl⟩ := he
            simp only [List.mem_singleton] at hm
            subst hm
            simp only [AcceptorReq.ballotFor, Option.isSome_ite, AcceptorReq.iid] at hb hlt
            omega
        | cons y b => simp at he

end LibPaxos
