import LibPaxos.Carray
import LibPaxos.Messages

namespace LibPaxos

-- `acks` has one pointer for each acceptor.
structure LearnerInstance where
  iid : Nat
  lastUpdateBallot : Nat
  acks : List (Option AcceptAck)
  finalValue : Option AcceptAck
  deriving Repr, DecidableEq

structure Learner where
  quorum : Nat
  acceptors : Nat
  lateStart : Bool
  currentIid : Nat
  highestIidSeen : Nat
  highestIidClosed : Nat
  instances : Carray LearnerInstance
  deriving Repr, DecidableEq

-- The static `instance_new` of learner.c.
def learnerInstanceNew (acceptors : Nat) : LearnerInstance where
  iid := 0
  lastUpdateBallot := 0
  acks := List.replicate acceptors none
  finalValue := none

def instanceClear (acceptors : Nat) (inst : LearnerInstance) : LearnerInstance where
  iid := 0
  lastUpdateBallot := 0
  acks := (List.range acceptors).foldl (fun acks i => acks.set i none) inst.acks
  finalValue := none

-- The loop of `instance_has_quorum` over the stored acks: the count, and the ack
-- at the last valid index. An ack marked final ends it.
def countAgreeing (acceptors ballot : Nat) :
    List (Option AcceptAck) → Nat → Option AcceptAck → Nat × Option AcceptAck
  | [], count, valid => (count, valid)
  | none :: rest, count, valid => countAgreeing acceptors ballot rest count valid
  | some ack :: rest, count, valid =>
      if ack.ballot = ballot then
        if ack.isFinal then (count + 1 + acceptors, some ack)
        else countAgreeing acceptors ballot rest (count + 1) (some ack)
      else countAgreeing acceptors ballot rest count valid

-- A quorum that is found is remembered in `final_value`.
def instanceHasQuorum (l : Learner) (inst : LearnerInstance) : LearnerInstance × Bool :=
  if inst.finalValue.isSome then (inst, true)
  else
    let (count, valid) := countAgreeing l.acceptors inst.lastUpdateBallot inst.acks 0 none
    if count ≥ l.quorum then ({ inst with finalValue := valid }, true) else (inst, false)

def instanceAddAccept (inst : LearnerInstance) (ack : AcceptAck) : LearnerInstance :=
  { inst with
    acks := inst.acks.set ack.acceptorId (some ack)
    lastUpdateBallot := ack.ballot }

-- `carray_at` takes an `int`: an iid from 2 ^ 31 on becomes negative.
def iidToInt (iid : Nat) : Int := Int.bmod iid (2 ^ 32)

def learnerGetInstance (l : Learner) (iid : Nat) : Except Fault LearnerInstance := do
  match ← carrayAt l.instances (iidToInt iid) with
  | none => .error .nullPointer
  | some inst => if inst.iid = iid ∨ inst.iid = 0 then .ok inst else .error .assertion

def learnerWriteInstance (l : Learner) (iid : Nat) (inst : LearnerInstance) : Learner :=
  { l with instances := carrayWrite l.instances (iidToInt iid) inst }

-- The instance after `learner_update_instance`, which starts by claiming a free one.
def updateInstance (l : Learner) (inst : LearnerInstance) (ack : AcceptAck) :
    Except Fault LearnerInstance :=
  let inst :=
    if inst.iid = 0 then { inst with iid := ack.iid, lastUpdateBallot := ack.ballot } else inst
  if inst.iid ≠ ack.iid then .error .assertion
  else
    match instanceHasQuorum l inst with
    | (inst, true) => .ok inst
    | (inst, false) =>
        match inst.acks[ack.acceptorId]? with
        | none => .error .outOfBounds
        | some none => .ok (instanceAddAccept inst ack)
        | some (some prev) =>
            if prev.ballot ≥ ack.ballot then .ok inst else .ok (instanceAddAccept inst ack)

def learnerUpdateInstance (l : Learner) (ack : AcceptAck) : Except Fault Learner := do
  let inst ← learnerGetInstance l ack.iid
  let inst ← updateInstance l inst ack
  return learnerWriteInstance l ack.iid inst

def learnerDeliverNext (l : Learner) : Except Fault (Learner × Option AcceptAck) := do
  let inst ← learnerGetInstance l l.currentIid
  match instanceHasQuorum l inst with
  | (_, false) => return (l, none)
  | (inst, true) =>
      match inst.finalValue with
      | none => .error .nullPointer
      | some ack =>
          let l := learnerWriteInstance l l.currentIid (instanceClear l.acceptors inst)
          return ({ l with currentIid := uint32 (l.currentIid + 1) }, some ack)

-- The start of `learner_receive_accept`: a late learner starts at the first ack.
def learnerArrive (l : Learner) (ack : AcceptAck) : Learner :=
  let l := if l.lateStart then { l with lateStart := false, currentIid := ack.iid } else l
  if ack.iid > l.highestIidSeen then { l with highestIidSeen := ack.iid } else l

-- Its end: the test writes `final_value` through the pointer.
def learnerNoteClosed (l : Learner) (iid : Nat) (inst : LearnerInstance) : Learner :=
  let (inst, closed) := instanceHasQuorum l inst
  let l := learnerWriteInstance l iid inst
  if closed ∧ inst.iid > l.highestIidClosed then { l with highestIidClosed := inst.iid } else l

-- Acks that are already delivered or too far ahead are dropped.
def learnerReceiveAccept (l : Learner) (ack : AcceptAck) : Except Fault Learner :=
  let l := learnerArrive l ack
  if ack.iid < l.currentIid then .ok l
  else if ack.iid ≥ uint32 (l.currentIid + carraySize l.instances) then .ok l
  else do
    let l ← learnerUpdateInstance l ack
    let inst ← learnerGetInstance l ack.iid
    return learnerNoteClosed l ack.iid inst

def initializeInstances (acceptors count : Nat) : Except Fault (Carray LearnerInstance) :=
  let a := carrayNew count
  (List.replicate (carraySize a) (learnerInstanceNew acceptors)).foldlM carrayPushBack a

def learnerHasHoles (l : Learner) : Option (Nat × Nat) :=
  if l.highestIidSeen > uint32 (l.currentIid + carrayCount l.instances) then
    some (l.currentIid, l.highestIidSeen)
  else if l.highestIidClosed > l.currentIid then some (l.currentIid, l.highestIidClosed)
  else none

def learnerNew (cfg : PaxosConfig) (acceptors : Nat) : Except Fault Learner := do
  return {
    quorum := paxosQuorum acceptors
    acceptors := acceptors
    currentIid := 1
    highestIidSeen := 1
    highestIidClosed := 1
    lateStart := !cfg.learnerCatchUp
    instances := ← initializeInstances acceptors cfg.learnerInstances }

-- The iids of the repeat requests that `learner_check_holes` sends to every acceptor.
def learnerCheckHoles (l : Learner) : List Nat :=
  match learnerHasHoles l with
  | none => []
  | some (start, stop) =>
      let stop := if uint32 (stop + (2 ^ 32 - start)) > 10000 then uint32 (start + 10000) else stop
      List.range' start (stop - start)

-- The loop of `learner_deliver_next_closed`: the acks it hands to the callback.
-- `none` stands for a loop that has not ended within `fuel` calls.
def learnerDeliverNextClosed : Nat → Learner → Except Fault (Option (Learner × List AcceptAck))
  | 0, _ => .ok none
  | fuel + 1, l => do
      match ← learnerDeliverNext l with
      | (l, none) => return some (l, [])
      | (l, some ack) =>
          return (← learnerDeliverNextClosed fuel l).map fun (l, acks) => (l, ack :: acks)

inductive LearnerCall where
  | receiveAccept (ack : AcceptAck)
  | deliverNext
  deriving Repr, DecidableEq

-- What a call hands to its caller is the ack that is delivered, if any.
def learnerCall (l : Learner) : LearnerCall → Except Fault (Learner × Option AcceptAck)
  | .receiveAccept ack => (learnerReceiveAccept l ack).map fun l => (l, none)
  | .deliverNext => learnerDeliverNext l

-- A sequence of calls: the learner after it and the acks delivered on the way.
def learnerRun (l : Learner) : List LearnerCall → Except Fault (Learner × List AcceptAck)
  | [] => .ok (l, [])
  | c :: rest => do
      let (l, out) ← learnerCall l c
      let (l, delivered) ← learnerRun l rest
      return (l, out.toList ++ delivered)

-- A learner process with the acks it has delivered. A fault ends it.
structure LearnerProc where
  state : Except Fault Learner
  delivered : List AcceptAck

def LearnerProc.start (cfg : PaxosConfig) (acceptors : Nat) : LearnerProc where
  state := learnerNew cfg acceptors
  delivered := []

def LearnerProc.call (lp : LearnerProc) (l : Learner) (c : LearnerCall) : LearnerProc :=
  match learnerCall l c with
  | .error fault => { lp with state := .error fault }
  | .ok (l, out) => { state := .ok l, delivered := lp.delivered ++ out.toList }

end LibPaxos
