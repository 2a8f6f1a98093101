import LibPaxos.Acceptor
import LibPaxos.Learner
import LibPaxos.Proposer
import LibPaxos.Wire

namespace LibPaxos.Wire

-- How a handler can go wrong over a payload: it reads past the end of what was
-- received, it indexes an array that has one entry for each acceptor outside
-- of that, or it ends the process in another way.
inductive FrameFault where
  | outsidePayload
  | acceptorIndex
  | fault (f : Fault)
  deriving Repr, DecidableEq

-- The payload is cast to a pointer, and a field is read where the source uses it.
def field (buffer : List UInt8) (offset width : Nat) : Except FrameFault Nat :=
  match numberAt buffer offset width with
  | some n => .ok n
  | none => .error .outsidePayload

def copy (buffer : List UInt8) (offset size : Nat) : Except FrameFault (List UInt8) :=
  match bytesAt buffer offset size with
  | some bytes => .ok bytes
  | none => .error .outsidePayload

section Acceptor

variable {σ : Type} [Storage σ]

-- What an acceptor writes to its connections: to the one the request came from,
-- or to all of them.
inductive AcceptorReply where
  | none
  | prepareAck (rec : AcceptorRecord)
  | acceptAck (rec : AcceptorRecord)
  | acceptAckToAll (rec : AcceptorRecord)
  deriving Repr, DecidableEq

def handlePrepareReq (a : σ) (pr : List UInt8) :
    Except FrameFault (Option (σ × AcceptorReply)) := do
  let iid ← field pr 0 4
  let ballot ← field pr 4 4
  return (acceptorReceivePrepare a ⟨iid, ballot⟩).map fun (a, rec) => (a, .prepareAck rec)

def saveAccept (a : σ) (ar : List UInt8) : Except FrameFault (Option (σ × AcceptorRecord)) := do
  let iid ← field ar 0 4
  let ballot ← field ar 4 4
  let valueSize ← field ar 8 8
  let value ← copy ar 16 valueSize
  return storageSaveAccept a ⟨iid, ballot, value⟩

def applyAccept (a : σ) (ar : List UInt8) (rec : Option AcceptorRecord) :
    Except FrameFault (Option (σ × AcceptorRecord)) :=
  match rec with
  | some r => do
      let ballot ← field ar 4 4
      if r.ballot > ballot then return some (a, r) else saveAccept a ar
  | none => saveAccept a ar

def acceptorReceiveAccept (a : σ) (req : List UInt8) :
    Except FrameFault (Option (σ × AcceptorRecord)) := do
  let iid ← field req 0 4
  match storageGetRecord a iid with
  | none => return none
  | some (a, rec) => applyAccept a req rec

-- Iid and ballot are read for the log first.
def handleAcceptReq (a : σ) (ar : List UInt8) :
    Except FrameFault (Option (σ × AcceptorReply)) := do
  let _iid ← field ar 0 4
  let ballot ← field ar 4 4
  return (← acceptorReceiveAccept a ar).map fun (a, rec) =>
    (a, if ballot = rec.ballot then .acceptAckToAll rec else .acceptAck rec)

def handleRepeatReq (a : σ) (buffer : List UInt8) :
    Except FrameFault (Option (σ × AcceptorReply)) := do
  let iid ← field buffer 0 4
  return (acceptorReceiveRepeat a iid).map fun (a, rec) => (a, rec.elim .none .acceptAck)

-- The `switch` of `handle_req`.
def acceptorDispatch (a : σ) (type : Nat) (buffer : List UInt8) :
    Except FrameFault (Option (σ × AcceptorReply)) :=
  if type = PaxosMsgCode.prepareReqs.code then handlePrepareReq a buffer
  else if type = PaxosMsgCode.acceptReqs.code then handleAcceptReq a buffer
  else if type = PaxosMsgCode.repeatReqs.code then handleRepeatReq a buffer
  else .ok (some (a, .none))

end Acceptor

section Proposer

def quorumAdd (q : Quorum) (id : Nat) : Except FrameFault (Quorum × Bool) :=
  (LibPaxos.quorumAdd q id).mapError fun _ => .acceptorIndex

def promiseValue (values : List Value) (inst : Instance) (ack : List UInt8) :
    Except FrameFault (List Value × Instance) := do
  let valueSize ← field ack 16 8
  if valueSize > 0 then
    match inst.value with
    | none =>
        let valueBallot ← field ack 12 4
        let value ← copy ack 24 valueSize
        return (values, { inst with valueBallot := valueBallot, value := some value })
    | some old =>
        let valueBallot ← field ack 12 4
        if valueBallot > inst.valueBallot then
          let value ← copy ack 24 valueSize
          return (values ++ [old], { inst with valueBallot := valueBallot, value := some value })
        else
          return (values, inst)
  else
    return (values, inst)

-- A negative `acceptor_id` is read as a number from 2 ^ 31 on.
def proposerReceivePrepareAck (p : Proposer) (ack : List UInt8) (now : Timeval) :
    Except FrameFault (Proposer × Option PrepareReq) := do
  let iid ← field ack 4 4
  match instanceFind p.prepareInstances iid with
  | none => return (p, none)
  | some inst =>
      let ballot ← field ack 8 4
      if ballot < inst.ballot then return (p, none)
      else if ballot = inst.ballot then
        let acceptorId ← field ack 0 4
        match ← quorumAdd inst.quorum acceptorId with
        | (_, false) => return (p, none)
        | (quorum, true) =>
            let (values, inst) ← promiseValue p.values { inst with quorum := quorum } ack
            return ({ p with
              values := values
              prepareInstances := instanceWrite p.prepareInstances iid inst }, none)
      else
        let (inst, out) := preparePreempt p inst now
        return ({ p with prepareInstances := instanceWrite p.prepareInstances iid inst }, some out)

def proposerReceiveAcceptAck (p : Proposer) (ack : List UInt8) (now : Timeval) :
    Except FrameFault (Proposer × AcceptAckResult) := do
  let iid ← field ack 4 4
  match instanceFind p.acceptInstances iid with
  | none => return (p, .ignored)
  | some inst =>
      let ballot ← field ack 8 4
      if ballot = inst.ballot then
        let valueBallot ← field ack 12 4
        if valueBallot ≠ inst.ballot then .error (.fault .assertion)
        else
          let acceptorId ← field ack 0 4
          match ← quorumAdd inst.quorum acceptorId with
          | (_, false) => return (p, .ignored)
          | (quorum, true) =>
              let inst := { inst with quorum := quorum }
              if quorumReached quorum then
                return ({ p with acceptInstances := instanceRemove p.acceptInstances inst },
                  .closed inst)
              else
                return ({ p with acceptInstances := instanceWrite p.acceptInstances iid inst },
                  .counted)
      else
        let acceptInstances := instanceRemove p.acceptInstances inst
        let (inst, out) := preparePreempt p inst now
        return ({ p with
          acceptInstances := acceptInstances
          prepareInstances := inst :: p.prepareInstances }, .preempted out)

-- Each request that is made takes an instance off the front.
theorem proposerAccept_length {p p' : Proposer} {ar : AcceptReq}
    (h : proposerAccept p = (p', some ar)) :
    p'.prepareInstances.length < p.prepareInstances.length := by
  have hdrop := List.length_dropWhile_le (fun inst => inst.closed) p.prepareInstances
  simp only [proposerAccept] at h
  split at h
  · cases h
  · rename_i inst rest hrest
    rw [hrest, List.length_cons] at hdrop
    split at h
    · cases h
    · split at h
      · cases h
      · cases h
        exact hdrop

-- The loop of `try_accept`: the requests it sends to the acceptors.
def tryAcceptAll (p : Proposer) : Proposer × List AcceptReq :=
  match _h : proposerAccept p with
  | (p, none) => (p, [])
  | (p, some ar) =>
      let (p, sent) := tryAcceptAll p
      (p, ar :: sent)
termination_by p.prepareInstances.length
decreasing_by exact proposerAccept_length _h

-- What a proposer's handler finds outside of the proposer: the configured window,
-- the time, and the memory of new quorums.
structure ProposerEnv where
  preexecWindow : Nat
  now : Timeval
  junk : Nat → Nat → Int

-- One round of the loop of `proposer_preexecute`: the proposer and what was sent.
def preexecuteOne (env : ProposerEnv) (t : Proposer × List PrepareReq) (i : Nat) :
    Proposer × List PrepareReq :=
  let (p, pr) := proposerPrepare t.1 (env.junk i) env.now
  (p, t.2 ++ [pr])

-- A window that is already full gives a count of zero.
def proposerPreexecute (env : ProposerEnv) (p : Proposer) : Proposer × List PrepareReq :=
  (List.range (env.preexecWindow - proposerPreparedCount p)).foldl (preexecuteOne env) (p, [])

-- What is sent to the acceptors while one message is handled, in this order: what
-- the message itself calls for, the accept requests, and the instances opened to fill
-- the window.
structure ProposerSent where
  answer : Option PrepareReq
  accepts : List AcceptReq
  prepares : List PrepareReq
  deriving Repr, DecidableEq

-- `try_accept` after a message that made the proposer send `out`.
def tryAccept (env : ProposerEnv) (p : Proposer) (out : Option PrepareReq) :
    Proposer × ProposerSent :=
  let (p, accepts) := tryAcceptAll p
  let (p, prepares) := proposerPreexecute env p
  (p, { answer := out, accepts := accepts, prepares := prepares })

def AcceptAckResult.request : AcceptAckResult → Option PrepareReq
  | .preempted out => some out
  | _ => none

-- The `switch` of `proposer_handle_msg` and the `try_accept` behind it.
def proposerDispatch (env : ProposerEnv) (p : Proposer) (type : Nat) (buffer : List UInt8) :
    Except FrameFault (Proposer × ProposerSent) :=
  if type = PaxosMsgCode.prepareAcks.code then do
    let (p, out) ← proposerReceivePrepareAck p buffer env.now
    return tryAccept env p out
  else if type = PaxosMsgCode.acceptAcks.code then do
    let (p, result) ← proposerReceiveAcceptAck p buffer env.now
    return tryAccept env p (AcceptAckResult.request result)
  else if type = PaxosMsgCode.submit.code then
    .ok (tryAccept env (proposerPropose p buffer) none)
  else .ok (p, ⟨none, [], []⟩)

end Proposer

section Learner

-- `ACCEPT_ACK_SIZE` is a `size_t` sum: when it overflows, the copy is too short to
-- be an ack.
def instanceAddAccept (inst : LearnerInstance) (ack : List UInt8) :
    Except FrameFault LearnerInstance := do
  let valueSize ← field ack 24 8
  let bytes ← copy ack 0 ((valueSize + 32) % 2 ^ 64)
  match readAcceptAck bytes with
  | none => .error (.fault .outOfBounds)
  | some newAck => return LibPaxos.instanceAddAccept inst newAck

-- The first message for an instance claims a free one.
def claimInstance (inst : LearnerInstance) (ack : List UInt8) :
    Except FrameFault LearnerInstance :=
  if inst.iid = 0 then do
    let iid ← field ack 4 4
    let ballot ← field ack 8 4
    return { inst with iid := iid, lastUpdateBallot := ballot }
  else .ok inst

def updateInstance (l : Learner) (inst : LearnerInstance) (ack : List UInt8) :
    Except FrameFault LearnerInstance := do
  let inst ← claimInstance inst ack
  let iid ← field ack 4 4
  if inst.iid ≠ iid then .error (.fault .assertion)
  else
    match instanceHasQuorum l inst with
    | (inst, true) => return inst
    | (inst, false) =>
        let acceptorId ← field ack 0 4
        match inst.acks[acceptorId]? with
        | none => .error .acceptorIndex
        | some none => instanceAddAccept inst ack
        | some (some prev) =>
            let ballot ← field ack 8 4
            if prev.ballot ≥ ballot then return inst else instanceAddAccept inst ack

def learnerUpdateInstance (l : Learner) (ack : List UInt8) : Except FrameFault Learner := do
  let iid ← field ack 4 4
  let inst ← (learnerGetInstance l iid).mapError .fault
  let inst ← updateInstance l inst ack
  return learnerWriteInstance l iid inst

-- The start of `learner_receive_accept` reads no more than the iid.
def learnerArrive (l : Learner) (iid : Nat) : Learner :=
  let l := if l.lateStart then { l with lateStart := false, currentIid := iid } else l
  if iid > l.highestIidSeen then { l with highestIidSeen := iid } else l

def learnerReceiveAccept (l : Learner) (ack : List UInt8) : Except FrameFault Learner := do
  let iid ← field ack 4 4
  let l := learnerArrive l iid
  if iid < l.currentIid then return l
  else if iid ≥ uint32 (l.currentIid + carraySize l.instances) then return l
  else
    let l ← learnerUpdateInstance l ack
    let inst ← (learnerGetInstance l iid).mapError .fault
    return learnerNoteClosed l iid inst

-- The `switch` of `learner_handle_msg`. `fuel` bounds the deliveries that follow.
def learnerDispatch (fuel : Nat) (l : Learner) (type : Nat) (buffer : List UInt8) :
    Except FrameFault (Option (Learner × List AcceptAck)) :=
  if type = PaxosMsgCode.acceptAcks.code then do
    let l ← learnerReceiveAccept l buffer
    (learnerDeliverNextClosed fuel l).mapError .fault
  else .ok (some (l, []))

end Learner

end LibPaxos.Wire
