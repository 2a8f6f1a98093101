import LibPaxos.Learner.Theorems
import LibPaxos.Proposer.Bookkeeping
import LibPaxos.Wire.Handlers
import LibPaxos.Wire.Theorems

namespace LibPaxos.Wire

theorem ok_bind {ε α β : Type} (x : α) (f : α → Except ε β) : (Except.ok x >>= f) = f x := rfl

theorem field_ok {buffer : List UInt8} {offset width n : Nat}
    (h : numberAt buffer offset width = some n) : field buffer offset width = .ok n := by
  rw [field, h]

theorem copy_ok {buffer bytes : List UInt8} {offset size : Nat}
    (h : bytesAt buffer offset size = some bytes) : copy buffer offset size = .ok bytes := by
  rw [copy, h]

theorem readPrepareReq_some {buffer : List UInt8} {m : PrepareReq}
    (h : readPrepareReq buffer = some m) :
    numberAt buffer 0 4 = some m.iid ∧ numberAt buffer 4 4 = some m.ballot := by
  obtain ⟨iid, hiid, h⟩ := Option.bind_eq_some_iff.mp h
  obtain ⟨ballot, hballot, h⟩ := Option.bind_eq_some_iff.mp h
  cases h
  exact ⟨hiid, hballot⟩

theorem readAcceptReq_some {buffer : List UInt8} {m : AcceptReq}
    (h : readAcceptReq buffer = some m) :
    numberAt buffer 0 4 = some m.iid ∧ numberAt buffer 4 4 = some m.ballot ∧
      numberAt buffer 8 8 = some m.value.length ∧
      bytesAt buffer 16 m.value.length = some m.value := by
  obtain ⟨iid, hiid, h⟩ := Option.bind_eq_some_iff.mp h
  obtain ⟨ballot, hballot, h⟩ := Option.bind_eq_some_iff.mp h
  obtain ⟨size, hsize, h⟩ := Option.bind_eq_some_iff.mp h
  obtain ⟨value, hvalue, h⟩ := Option.bind_eq_some_iff.mp h
  cases h
  have hlen := (length_of_bytesAt hvalue).1
  subst hlen
  exact ⟨hiid, hballot, hsize, hvalue⟩

-- The requests of an acceptor as they stand in a payload, if all of it is there.
def readAcceptorMsg (type : Nat) (buffer : List UInt8) : Option AcceptorReq :=
  if type = PaxosMsgCode.prepareReqs.code then (readPrepareReq buffer).map .prepare
  else if type = PaxosMsgCode.acceptReqs.code then (readAcceptReq buffer).map .accept
  else if type = PaxosMsgCode.repeatReqs.code then (numberAt buffer 0 4).map .repeat
  else none

def acceptorReply : AcceptorReq → Option AcceptorRecord → AcceptorReply
  | .prepare _, some rec => .prepareAck rec
  | .accept ar, some rec => if ar.ballot = rec.ballot then .acceptAckToAll rec else .acceptAck rec
  | .repeat _, some rec => .acceptAck rec
  | _, none => .none

section Acceptor

variable {σ : Type} [Storage σ] (a : σ)

theorem acceptorReceiveAccept_eq {buffer : List UInt8} {ar : AcceptReq}
    (h : readAcceptReq buffer = some ar) :
    acceptorReceiveAccept a buffer = .ok (LibPaxos.acceptorReceiveAccept a ar) := by
  obtain ⟨hiid, hballot, hsize, hvalue⟩ := readAcceptReq_some h
  have hsave (a : σ) : saveAccept a buffer = .ok (storageSaveAccept a ar) := by
    simp only [saveAccept, field_ok hiid, field_ok hballot, field_ok hsize, copy_ok hvalue,
      ok_bind]
    rfl
  have happly (a : σ) (rec : Option AcceptorRecord) :
      applyAccept a buffer rec = .ok (LibPaxos.applyAccept a ar rec) := by
    cases rec with
    | none => exact hsave a
    | some r =>
        simp only [applyAccept, field_ok hballot, ok_bind, LibPaxos.applyAccept]
        split
        · rfl
        · exact hsave a
  simp only [acceptorReceiveAccept, field_ok hiid, ok_bind, LibPaxos.acceptorReceiveAccept]
  cases storageGetRecord a ar.iid with
  | none => rfl
  | some r => exact happly r.1 r.2

-- On a whole request the handlers do what the acceptor does with that request.
theorem acceptorDispatch_eq {type : Nat} {buffer : List UInt8} {req : AcceptorReq}
    (h : readAcceptorMsg type buffer = some req) :
    acceptorDispatch a type buffer =
      .ok ((acceptorReceive a req).map fun (a, rec) => (a, acceptorReply req rec)) := by
  rw [readAcceptorMsg] at h
  rw [acceptorDispatch]
  split at h
  · rename_i htype
    obtain ⟨pr, hread, rfl⟩ := Option.map_eq_some_iff.mp h
    obtain ⟨hiid, hballot⟩ := readPrepareReq_some hread
    rw [if_pos htype]
    simp only [handlePrepareReq, field_ok hiid, field_ok hballot, ok_bind, acceptorReceive,
      Option.map_map]
    rfl
  · rename_i hprepare
    rw [if_neg hprepare]
    split at h
    · rename_i htype
      obtain ⟨ar, hread, rfl⟩ := Option.map_eq_some_iff.mp h
      obtain ⟨hiid, hballot, -, -⟩ := readAcceptReq_some hread
      rw [if_pos htype]
      simp only [handleAcceptReq, field_ok hiid, field_ok hballot, ok_bind,
        acceptorReceiveAccept_eq a hread, acceptorReceive, Option.map_map]
      rfl
    · rename_i haccept
      rw [if_neg haccept]
      split at h
      · rename_i htype
        obtain ⟨iid, hiid, rfl⟩ := Option.map_eq_some_iff.mp h
        rw [if_pos htype]
        simp only [handleRepeatReq, field_ok hiid, ok_bind, acceptorReceive]
        congr 2
        funext r
        cases r with
        | mk a rec => cases rec <;> rfl
      · cases h

end Acceptor

section Proposer

theorem readPrepareAck_some {buffer : List UInt8} {m : PrepareAck}
    (h : readPrepareAck buffer = some m) :
    numberAt buffer 0 4 = some m.acceptorId ∧ numberAt buffer 4 4 = some m.iid ∧
      numberAt buffer 8 4 = some m.ballot ∧ numberAt buffer 12 4 = some m.valueBallot ∧
      numberAt buffer 16 8 = some m.value.length ∧
      bytesAt buffer 24 m.value.length = some m.value := by
  obtain ⟨acceptorId, hid, h⟩ := Option.bind_eq_some_iff.mp h
  obtain ⟨iid, hiid, h⟩ := Option.bind_eq_some_iff.mp h
  obtain ⟨ballot, hballot, h⟩ := Option.bind_eq_some_iff.mp h
  obtain ⟨valueBallot, hvballot, h⟩ := Option.bind_eq_some_iff.mp h
  obtain ⟨size, hsize, h⟩ := Option.bind_eq_some_iff.mp h
  obtain ⟨value, hvalue, h⟩ := Option.bind_eq_some_iff.mp h
  cases h
  have hlen := (length_of_bytesAt hvalue).1
  subst hlen
  exact ⟨hid, hiid, hballot, hvballot, hsize, hvalue⟩

theorem readAcceptAck_some {buffer : List UInt8} {m : AcceptAck}
    (h : readAcceptAck buffer = some m) :
    numberAt buffer 0 4 = some m.acceptorId ∧ numberAt buffer 4 4 = some m.iid ∧
      numberAt buffer 8 4 = some m.ballot ∧ numberAt buffer 12 4 = some m.valueBallot ∧
      numberAt buffer 24 8 = some m.value.length ∧
      bytesAt buffer 32 m.value.length = some m.value := by
  obtain ⟨acceptorId, hid, h⟩ := Option.bind_eq_some_iff.mp h
  obtain ⟨iid, hiid, h⟩ := Option.bind_eq_some_iff.mp h
  obtain ⟨ballot, hballot, h⟩ := Option.bind_eq_some_iff.mp h
  obtain ⟨valueBallot, hvballot, h⟩ := Option.bind_eq_some_iff.mp h
  obtain ⟨isFinal, -, h⟩ := Option.bind_eq_some_iff.mp h
  obtain ⟨size, hsize, h⟩ := Option.bind_eq_some_iff.mp h
  obtain ⟨value, hvalue, h⟩ := Option.bind_eq_some_iff.mp h
  cases h
  have hlen := (length_of_bytesAt hvalue).1
  subst hlen
  exact ⟨hid, hiid, hballot, hvballot, hsize, hvalue⟩

inductive ProposerMsg where
  | prepareAck (ack : PrepareAck)
  | acceptAck (ack : AcceptAck)
  | submit (value : Value)
  deriving Repr, DecidableEq

def readProposerMsg (type : Nat) (buffer : List UInt8) : Option ProposerMsg :=
  if type = PaxosMsgCode.prepareAcks.code then (readPrepareAck buffer).map .prepareAck
  else if type = PaxosMsgCode.acceptAcks.code then (readAcceptAck buffer).map .acceptAck
  else if type = PaxosMsgCode.submit.code then some (.submit buffer)
  else none

-- An ack names one of the acceptors.
def ProposerMsg.Addressed (n : Nat) : ProposerMsg → Prop
  | .prepareAck ack => ack.acceptorId < n
  | .acceptAck ack => ack.acceptorId < n
  | .submit _ => True

-- What the proposer does with a message, and what it sends then.
def proposerReceive (env : ProposerEnv) (p : Proposer) :
    ProposerMsg → Except Fault (Proposer × ProposerSent)
  | .prepareAck ack => do
      let (p, out) ← LibPaxos.proposerReceivePrepareAck p ack env.now
      return tryAccept env p out
  | .acceptAck ack => do
      let (p, result) ← LibPaxos.proposerReceiveAcceptAck p ack env.now
      return tryAccept env p (AcceptAckResult.request result)
  | .submit value => .ok (tryAccept env (proposerPropose p value) none)

-- Every flag array has one flag for each acceptor.
structure FlagsSized (n : Nat) (p : Proposer) : Prop where
  acceptors : p.acceptors = n
  preparing : ∀ inst ∈ p.prepareInstances, inst.Pending n
  accepting : ∀ inst ∈ p.acceptInstances, inst.Pending n

theorem quorumAdd_eq {n : Nat} {q : Quorum} (hq : q.Sized n) {id : Nat} (hid : id < n) :
    quorumAdd q id = (LibPaxos.quorumAdd q id).mapError .fault := by
  rw [quorumAdd]
  rcases quorumAdd_ok hq hid with h | h
  · rw [h]
    rfl
  · rw [h]
    rfl

theorem promiseValue_eq (values : List Value) (inst : Instance) {buffer : List UInt8}
    {ack : PrepareAck} (h : readPrepareAck buffer = some ack) :
    promiseValue values inst buffer = .ok (LibPaxos.promiseValue values inst ack) := by
  obtain ⟨-, -, -, hvballot, hsize, hvalue⟩ := readPrepareAck_some h
  simp only [promiseValue, LibPaxos.promiseValue, field_ok hvballot, field_ok hsize,
    copy_ok hvalue, ok_bind]
  split
  · cases inst.value with
    | none => rfl
    | some old =>
        dsimp only
        split <;> rfl
  · rfl

theorem proposerReceivePrepareAck_eq {n : Nat} {p : Proposer} (hp : FlagsSized n p)
    {buffer : List UInt8} {ack : PrepareAck} (h : readPrepareAck buffer = some ack)
    (hid : ack.acceptorId < n) (now : Timeval) :
    proposerReceivePrepareAck p buffer now =
      (LibPaxos.proposerReceivePrepareAck p ack now).mapError .fault := by
  obtain ⟨hacceptor, hiid, hballot, -, -, -⟩ := readPrepareAck_some h
  simp only [proposerReceivePrepareAck, LibPaxos.proposerReceivePrepareAck, field_ok hiid,
    field_ok hballot, field_ok hacceptor, ok_bind]
  cases hfind : instanceFind p.prepareInstances ack.iid with
  | none => rfl
  | some inst =>
      have hq := (hp.preparing inst (instanceFind_mem hfind)).2
      dsimp only
      split
      · rfl
      · split
        · rw [quorumAdd_eq hq hid]
          rcases hadd : LibPaxos.quorumAdd inst.quorum ack.acceptorId with fault | ⟨quorum, added⟩
          · rfl
          · cases added with
            | false => rfl
            | true =>
                simp only [Except.mapError, ok_bind, promiseValue_eq _ _ h]
                rfl
        · rfl

theorem proposerReceiveAcceptAck_eq {n : Nat} {p : Proposer} (hp : FlagsSized n p)
    {buffer : List UInt8} {ack : AcceptAck} (h : readAcceptAck buffer = some ack)
    (hid : ack.acceptorId < n) (now : Timeval) :
    proposerReceiveAcceptAck p buffer now =
      (LibPaxos.proposerReceiveAcceptAck p ack now).mapError .fault := by
  obtain ⟨hacceptor, hiid, hballot, hvballot, -, -⟩ := readAcceptAck_some h
  simp only [proposerReceiveAcceptAck, LibPaxos.proposerReceiveAcceptAck, field_ok hiid,
    field_ok hballot, field_ok hvballot, field_ok hacceptor, ok_bind]
  cases hfind : instanceFind p.acceptInstances ack.iid with
  | none => rfl
  | some inst =>
      have hq := (hp.accepting inst (instanceFind_mem hfind)).2
      dsimp only
      split
      · split
        · rfl
        · rw [quorumAdd_eq hq hid]
          rcases LibPaxos.quorumAdd inst.quorum ack.acceptorId with fault | ⟨quorum, added⟩
          · rfl
          · cases added with
            | false => rfl
            | true =>
                simp only [Except.mapError, ok_bind]
                split <;> rfl
      · rfl

theorem mapError_bind {ε δ α β : Type} (g : ε → δ) (x : Except ε α) (f : α → Except ε β) :
    (x >>= f).mapError g = x.mapError g >>= fun y => (f y).mapError g := by
  cases x <;> rfl

-- On a whole message of one of the acceptors the handlers do what the proposer
-- does with that message.
theorem proposerDispatch_eq (env : ProposerEnv) {n : Nat} {p : Proposer} (hp : FlagsSized n p)
    {type : Nat} {buffer : List UInt8} {msg : ProposerMsg}
    (h : readProposerMsg type buffer = some msg) (haddr : msg.Addressed n) :
    proposerDispatch env p type buffer = (proposerReceive env p msg).mapError .fault := by
  rw [readProposerMsg] at h
  rw [proposerDispatch]
  split at h
  · rename_i htype
    obtain ⟨ack, hread, rfl⟩ := Option.map_eq_some_iff.mp h
    rw [if_pos htype, proposerReceivePrepareAck_eq hp hread haddr, proposerReceive, mapError_bind]
    rfl
  · rename_i hprepare
    rw [if_neg hprepare]
    split at h
    · rename_i htype
      obtain ⟨ack, hread, rfl⟩ := Option.map_eq_some_iff.mp h
      rw [if_pos htype, proposerReceiveAcceptAck_eq hp hread haddr, proposerReceive, mapError_bind]
      rfl
    · rename_i haccept
      rw [if_neg haccept]
      split at h
      · rename_i htype
        cases h
        rw [if_pos htype]
        rfl
      · cases h

end Proposer

section Learner

-- Every ack table has one entry for each acceptor.
structure AcksSized (n : Nat) (l : Learner) : Prop where
  sized : l.Sized n
  slots : ∀ inst, some inst ∈ l.instances.array → inst.acks.length = n

@[simp] theorem instanceHasQuorum_acks (l : Learner) (inst : LearnerInstance) :
    (instanceHasQuorum l inst).1.acks = inst.acks := by
  rw [instanceHasQuorum]
  split
  · rfl
  · dsimp only
    split <;> rfl

theorem AcksSized.get {n : Nat} {l : Learner} (h : AcksSized n l) {iid : Nat}
    {inst : LearnerInstance} (hget : learnerGetInstance l iid = .ok inst) :
    inst.acks.length = n :=
  h.slots inst (carrayAt_mem (learnerGetInstance_ok hget).1)

theorem learnerArrive_eq (l : Learner) (ack : AcceptAck) :
    learnerArrive l ack.iid = LibPaxos.learnerArrive l ack := rfl

theorem AcksSized.arrive {n : Nat} {l : Learner} (h : AcksSized n l) (iid : Nat) :
    AcksSized n (learnerArrive l iid) := by
  have harrive := learnerArrive_eq l ⟨0, iid, 0, 0, false, []⟩
  dsimp only at harrive
  rw [harrive]
  exact ⟨h.sized.arrive _, by simpa using h.slots⟩

theorem readAcceptAck_take {buffer : List UInt8} {ack : AcceptAck}
    (h : readAcceptAck buffer = some ack) :
    readAcceptAck (buffer.take (ack.value.length + 32)) = some ack := by
  obtain ⟨acceptorId, hid, h⟩ := Option.bind_eq_some_iff.mp h
  obtain ⟨iid, hiid, h⟩ := Option.bind_eq_some_iff.mp h
  obtain ⟨ballot, hballot, h⟩ := Option.bind_eq_some_iff.mp h
  obtain ⟨valueBallot, hvballot, h⟩ := Option.bind_eq_some_iff.mp h
  obtain ⟨isFinal, hfinal, h⟩ := Option.bind_eq_some_iff.mp h
  obtain ⟨size, hsize, h⟩ := Option.bind_eq_some_iff.mp h
  obtain ⟨value, hvalue, h⟩ := Option.bind_eq_some_iff.mp h
  cases h
  have hlen := (length_of_bytesAt hvalue).1
  subst hlen
  simp (disch := omega) only [readAcceptAck, numberAt_take, hid, hiid, hballot, hvballot, hfinal,
    hsize, Option.bind_eq_bind, Option.bind_some, bytesAt_take, hvalue]
  rfl

theorem instanceAddAccept_eq (inst : LearnerInstance) {buffer : List UInt8} {ack : AcceptAck}
    (h : readAcceptAck buffer = some ack) (hlen : buffer.length < 2 ^ 64) :
    instanceAddAccept inst buffer = .ok (LibPaxos.instanceAddAccept inst ack) := by
  obtain ⟨-, -, -, -, hsize, hvalue⟩ := readAcceptAck_some h
  have hroom := (length_of_bytesAt hvalue).2
  have hwrap : (ack.value.length + 32) % 2 ^ 64 = ack.value.length + 32 :=
    Nat.mod_eq_of_lt (by omega)
  have hcopy : bytesAt buffer 0 (ack.value.length + 32) =
      some (buffer.take (ack.value.length + 32)) := by
    rw [bytesAt, if_pos (by omega), List.drop_zero]
  simp only [instanceAddAccept, field_ok hsize, ok_bind, hwrap, copy_ok hcopy,
    readAcceptAck_take h]
  rfl

theorem updateInstance_eq {n : Nat} {l : Learner} {inst : LearnerInstance}
    (hinst : inst.acks.length = n) {buffer : List UInt8} {ack : AcceptAck}
    (h : readAcceptAck buffer = some ack) (hid : ack.acceptorId < n)
    (hlen : buffer.length < 2 ^ 64) :
    updateInstance l inst buffer = (LibPaxos.updateInstance l inst ack).mapError .fault := by
  obtain ⟨hacceptor, hiid, hballot, -, -, -⟩ := readAcceptAck_some h
  obtain ⟨claimed, hclaimed⟩ : ∃ claimed, claimed = if inst.iid = 0 then
      { inst with iid := ack.iid, lastUpdateBallot := ack.ballot } else inst := ⟨_, rfl⟩
  have hacks : claimed.acks.length = n := by
    rw [hclaimed, ← hinst]
    split <;> rfl
  have hclaim : claimInstance inst buffer = .ok claimed := by
    simp only [claimInstance, field_ok hiid, field_ok hballot, ok_bind, hclaimed]
    split <;> rfl
  simp only [updateInstance, hclaim, LibPaxos.updateInstance, field_ok hiid, field_ok hballot,
    field_ok hacceptor, ok_bind, instanceAddAccept_eq _ h hlen, ← hclaimed]
  split
  · rfl
  · have hkeep := instanceHasQuorum_acks l claimed
    rcases hq : instanceHasQuorum l claimed with ⟨tested, closed⟩
    rw [hq] at hkeep
    cases closed with
    | true => rfl
    | false =>
        -- The index is in the table, so only the two answers of the source are left.
        have hin : ack.acceptorId < tested.acks.length := by
          rw [hkeep, hacks]
          exact hid
        dsimp only
        rw [List.getElem?_eq_getElem hin]
        cases tested.acks[ack.acceptorId] with
        | none => rfl
        | some prev =>
            dsimp only
            split <;> rfl

theorem learnerReceiveAccept_eq {n : Nat} {l : Learner} (hl : AcksSized n l)
    {buffer : List UInt8} {ack : AcceptAck} (h : readAcceptAck buffer = some ack)
    (hid : ack.acceptorId < n) (hlen : buffer.length < 2 ^ 64) :
    learnerReceiveAccept l buffer = (LibPaxos.learnerReceiveAccept l ack).mapError .fault := by
  obtain ⟨-, hiid, -, -, -, -⟩ := readAcceptAck_some h
  have hupdate (l : Learner) (hl : AcksSized n l) : learnerUpdateInstance l buffer =
      (LibPaxos.learnerUpdateInstance l ack).mapError .fault := by
    simp only [learnerUpdateInstance, LibPaxos.learnerUpdateInstance, field_ok hiid, ok_bind]
    cases hget : learnerGetInstance l ack.iid with
    | error fault => rfl
    | ok inst =>
        simp only [Except.mapError, ok_bind, updateInstance_eq (hl.get hget) h hid hlen]
        cases LibPaxos.updateInstance l inst ack <;> rfl
  have harr := hupdate (learnerArrive l ack.iid) (hl.arrive ack.iid)
  simp only [learnerReceiveAccept, LibPaxos.learnerReceiveAccept, field_ok hiid, ok_bind]
  rw [learnerArrive_eq] at harr ⊢
  split
  · rfl
  · split
    · rfl
    · rw [harr, mapError_bind]
      cases LibPaxos.learnerUpdateInstance (LibPaxos.learnerArrive l ack) ack with
      | error fault => rfl
      | ok l =>
          simp only [Except.mapError, ok_bind]
          cases learnerGetInstance l ack.iid <;> rfl

-- On a whole ack of one of the acceptors the handler does what the learner does with
-- that ack.
theorem learnerDispatch_eq (fuel : Nat) {n : Nat} {l : Learner} (hl : AcksSized n l)
    {buffer : List UInt8} {ack : AcceptAck} (h : readAcceptAck buffer = some ack)
    (hid : ack.acceptorId < n) (hlen : buffer.length < 2 ^ 64) :
    learnerDispatch fuel l PaxosMsgCode.acceptAcks.code buffer =
      (LibPaxos.learnerReceiveAccept l ack >>= learnerDeliverNextClosed fuel).mapError .fault := by
  rw [learnerDispatch, if_pos rfl, learnerReceiveAccept_eq hl h hid hlen, mapError_bind]

end Learner

end LibPaxos.Wire
