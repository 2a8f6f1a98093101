import LibPaxos.Quorum

namespace LibPaxos

structure Timeval where
  sec : Int
  usec : Int
  deriving Repr, DecidableEq

structure Instance where
  iid : Nat
  ballot : Nat
  valueBallot : Nat
  value : Option Value
  closed : Bool
  quorum : Quorum
  createdAt : Timeval
  deriving Repr, DecidableEq

-- The three queues are the lists their `carray`s hold.
structure Proposer where
  id : Nat
  acceptors : Nat
  values : List Value
  nextPrepareIid : Nat
  prepareInstances : List Instance
  acceptInstances : List Instance
  deriving Repr, DecidableEq

-- A cursor into each instance list and the time the sweep started.
structure TimeoutIterator where
  pi : Nat
  ai : Nat
  timeout : Timeval
  deriving Repr, DecidableEq

def proposerNew (id acceptors : Nat) : Proposer where
  id := id
  acceptors := acceptors
  values := []
  nextPrepareIid := 0
  prepareInstances := []
  acceptInstances := []

def instanceNew (iid ballot acceptors : Nat) (junk : Nat → Int) (now : Timeval) : Instance where
  iid := iid
  ballot := ballot
  valueBallot := 0
  value := none
  closed := false
  quorum := quorumInit acceptors junk
  createdAt := now

def instanceFind (c : List Instance) (iid : Nat) : Option Instance :=
  c.find? fun inst => inst.iid = iid

def instanceMatch (a b : Instance) : Bool := a.iid = b.iid

-- `carray_reject` drops every element that matches, not only the given one.
def instanceRemove (c : List Instance) (inst : Instance) : List Instance :=
  c.filter fun item => !instanceMatch inst item

-- A write through the pointer that `instance_find` returned.
def instanceWrite (c : List Instance) (iid : Nat) (inst : Instance) : List Instance :=
  match c with
  | [] => []
  | item :: rest => if item.iid = iid then inst :: rest else item :: instanceWrite rest iid inst

def proposerNextBallot (p : Proposer) (b : Nat) : Nat :=
  if b > 0 then uint32 (MAX_N_OF_PROPOSERS + b) else uint32 (MAX_N_OF_PROPOSERS + p.id)

def preparePreempt (p : Proposer) (inst : Instance) (now : Timeval) : Instance × PrepareReq :=
  let ballot := proposerNextBallot p inst.ballot
  ({ inst with ballot := ballot, quorum := quorumClear inst.quorum, createdAt := now },
    ⟨inst.iid, ballot⟩)

def proposerPropose (p : Proposer) (value : Value) : Proposer :=
  { p with values := p.values ++ [value] }

def proposerPreparedCount (p : Proposer) : Nat := p.prepareInstances.length

def proposerPrepare (p : Proposer) (junk : Nat → Int) (now : Timeval) : Proposer × PrepareReq :=
  let iid := uint32 (p.nextPrepareIid + 1)
  let inst := instanceNew iid (proposerNextBallot p 0) p.acceptors junk now
  ({ p with nextPrepareIid := iid, prepareInstances := p.prepareInstances ++ [inst] },
    ⟨inst.iid, inst.ballot⟩)

-- A promise that carries a value replaces the instance's value if that is missing
-- or of a lower ballot. A replaced value goes back to the end of the queue.
def promiseValue (values : List Value) (inst : Instance) (ack : PrepareAck) :
    List Value × Instance :=
  if ack.value.length > 0 then
    match inst.value with
    | none => (values, { inst with valueBallot := ack.valueBallot, value := some ack.value })
    | some old =>
        if ack.valueBallot > inst.valueBallot then
          (values ++ [old], { inst with valueBallot := ack.valueBallot, value := some ack.value })
        else
          (values, inst)
  else
    (values, inst)

-- The request is the `out` parameter. It is filled when the call returns 1.
def proposerReceivePrepareAck (p : Proposer) (ack : PrepareAck) (now : Timeval) :
    Except Fault (Proposer × Option PrepareReq) :=
  match instanceFind p.prepareInstances ack.iid with
  | none => .ok (p, none)
  | some inst =>
      if ack.ballot < inst.ballot then .ok (p, none)
      else if ack.ballot = inst.ballot then
        match quorumAdd inst.quorum ack.acceptorId with
        | .error fault => .error fault
        | .ok (_, false) => .ok (p, none)
        | .ok (quorum, true) =>
            let (values, inst) := promiseValue p.values { inst with quorum := quorum } ack
            .ok ({ p with
                values := values
                prepareInstances := instanceWrite p.prepareInstances ack.iid inst }, none)
      else
        let (inst, out) := preparePreempt p inst now
        .ok ({ p with prepareInstances := instanceWrite p.prepareInstances ack.iid inst }, some out)

def proposerAccept (p : Proposer) : Proposer × Option AcceptReq :=
  -- Closed instances at the front are freed before the first open one is looked at.
  let prepareInstances := p.prepareInstances.dropWhile fun inst => inst.closed
  let p := { p with prepareInstances := prepareInstances }
  match prepareInstances with
  | [] => (p, none)
  | inst :: rest =>
      if quorumReached inst.quorum = false then (p, none)
      else
        let (value, values) := match inst.value with
          | some value => (some value, p.values)
          | none => (p.values.head?, p.values.tail)
        match value with
        | none => (p, none)
        | some value =>
            let inst := { inst with value := some value, quorum := quorumClear inst.quorum }
            ({ p with
                values := values
                prepareInstances := rest
                acceptInstances := p.acceptInstances ++ [inst] },
              some ⟨inst.iid, inst.ballot, value⟩)

-- How `proposer_receive_accept_ack` ended. It returns 1 for `preempted`, whose
-- request is the `out` parameter, and 0 otherwise. The instance of `closed`
-- reached its quorum and is freed.
inductive AcceptAckResult where
  | ignored
  | counted
  | closed (inst : Instance)
  | preempted (out : PrepareReq)
  deriving Repr, DecidableEq

def proposerReceiveAcceptAck (p : Proposer) (ack : AcceptAck) (now : Timeval) :
    Except Fault (Proposer × AcceptAckResult) :=
  match instanceFind p.acceptInstances ack.iid with
  | none => .ok (p, .ignored)
  | some inst =>
      if ack.ballot = inst.ballot then
        if ack.valueBallot ≠ inst.ballot then .error .assertion
        else
          match quorumAdd inst.quorum ack.acceptorId with
          | .error fault => .error fault
          | .ok (_, false) => .ok (p, .ignored)
          | .ok (quorum, true) =>
              let inst := { inst with quorum := quorum }
              if quorumReached quorum then
                .ok ({ p with acceptInstances := instanceRemove p.acceptInstances inst },
                  .closed inst)
              else
                .ok ({ p with acceptInstances := instanceWrite p.acceptInstances ack.iid inst },
                  .counted)
      else
        -- Any other ballot preempts, also a lower one.
        let acceptInstances := instanceRemove p.acceptInstances inst
        let (inst, out) := preparePreempt p inst now
        .ok ({ p with
            acceptInstances := acceptInstances
            prepareInstances := inst :: p.prepareInstances }, .preempted out)

-- A double outside the range of `int` converts to `INT_MIN` (x86-64).
def doubleToInt (x : Int) : Int := if -2 ^ 31 ≤ x ∧ x < 2 ^ 31 then x else -2 ^ 31

-- A `long` is narrowed to `int` by dropping its high bits.
def longToInt (x : Int) : Int := Int.bmod x (2 ^ 32)

def timevalDiff (t1 t2 : Timeval) : Int :=
  let us := doubleToInt ((t2.sec - t1.sec) * 1000000)
  if us < 0 then 0 else longToInt (us + (t2.usec - t1.usec))

def instanceHasTimedout (cfg : PaxosConfig) (inst : Instance) (now : Timeval) : Bool :=
  timevalDiff inst.createdAt now ≥ cfg.proposerTimeout

-- The scan from the cursor on: the index of the instance that is returned, and
-- the new cursor. The first argument is the list from the cursor to the end.
def nextTimedout (cfg : PaxosConfig) (t : Timeval) : List Instance → Nat → Option Nat × Nat
  | [], i => (none, i)
  | inst :: rest, i =>
      if quorumReached inst.quorum then nextTimedout cfg t rest (i + 1)
      else if instanceHasTimedout cfg inst t then (some i, i + 1)
      else nextTimedout cfg t rest (i + 1)

def timeoutIteratorPrepare (cfg : PaxosConfig) (p : Proposer) (iter : TimeoutIterator) :
    (Proposer × TimeoutIterator) × Option PrepareReq :=
  let (found, pi) := nextTimedout cfg iter.timeout (p.prepareInstances.drop iter.pi) iter.pi
  let iter := { iter with pi := pi }
  match found.bind fun i => (p.prepareInstances[i]?).map fun inst => (i, inst) with
  | none => ((p, iter), none)
  | some (i, inst) =>
      (({ p with
          prepareInstances :=
            p.prepareInstances.set i { inst with createdAt := iter.timeout } }, iter),
        some ⟨inst.iid, inst.ballot⟩)

-- `inst->value->data_size` is read without a check.
def timeoutIteratorAccept (cfg : PaxosConfig) (p : Proposer) (iter : TimeoutIterator) :
    Except Fault ((Proposer × TimeoutIterator) × Option AcceptReq) :=
  let (found, ai) := nextTimedout cfg iter.timeout (p.acceptInstances.drop iter.ai) iter.ai
  let iter := { iter with ai := ai }
  match found.bind fun i => (p.acceptInstances[i]?).map fun inst => (i, inst) with
  | none => .ok ((p, iter), none)
  | some (i, inst) =>
      match inst.value with
      | none => .error .nullPointer
      | some value =>
          .ok (({ p with
              acceptInstances :=
                p.acceptInstances.set i { inst with createdAt := iter.timeout } }, iter),
            some ⟨inst.iid, inst.ballot, value⟩)

end LibPaxos
