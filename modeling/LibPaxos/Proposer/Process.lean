import LibPaxos.Proposer
import LibPaxos.Transition

namespace LibPaxos

-- The calls of `proposer.h`. `junk` is the memory a new quorum finds, `now` the
-- time that `gettimeofday` reads.
inductive ProposerCall where
  | propose (value : Value)
  | prepare (junk : Nat → Int) (now : Timeval)
  | receivePrepareAck (ack : PrepareAck) (now : Timeval)
  | accept
  | receiveAcceptAck (ack : AcceptAck) (now : Timeval)
  | timeoutPrepare (iter : TimeoutIterator)
  | timeoutAccept (iter : TimeoutIterator)

-- What a call hands to its caller: a request to send to the acceptors, or an
-- instance that reached its accept quorum.
inductive ProposerOutput where
  | none
  | prepareReq (req : PrepareReq)
  | acceptReq (req : AcceptReq)
  | closed (inst : Instance)
  deriving Repr, DecidableEq

def ProposerOutput.ofPrepare : Option PrepareReq → ProposerOutput
  | some req => .prepareReq req
  | Option.none => .none

def ProposerOutput.ofAccept : Option AcceptReq → ProposerOutput
  | some req => .acceptReq req
  | Option.none => .none

def ProposerOutput.ofResult : AcceptAckResult → ProposerOutput
  | .ignored => .none
  | .counted => .none
  | .closed inst => .closed inst
  | .preempted out => .prepareReq out

def proposerCall (cfg : PaxosConfig) (p : Proposer) :
    ProposerCall → Except Fault (Proposer × ProposerOutput)
  | .propose value => .ok (proposerPropose p value, .none)
  | .prepare junk now =>
      let (p, req) := proposerPrepare p junk now
      .ok (p, .prepareReq req)
  | .receivePrepareAck ack now =>
      (proposerReceivePrepareAck p ack now).map fun (p, out) => (p, .ofPrepare out)
  | .accept =>
      let (p, req) := proposerAccept p
      .ok (p, .ofAccept req)
  | .receiveAcceptAck ack now =>
      (proposerReceiveAcceptAck p ack now).map fun (p, result) => (p, .ofResult result)
  | .timeoutPrepare iter =>
      let ((p, _), req) := timeoutIteratorPrepare cfg p iter
      .ok (p, .ofPrepare req)
  | .timeoutAccept iter =>
      (timeoutIteratorAccept cfg p iter).map fun ((p, _), req) => (p, .ofAccept req)

-- No ballot or iid that the call computes reaches 2 ^ 32.
def ProposerCall.NoWrap (p : Proposer) : ProposerCall → Prop
  | .prepare _ _ => p.nextPrepareIid + 1 < 2 ^ 32
  | .receivePrepareAck ack _ =>
      match instanceFind p.prepareInstances ack.iid with
      | Option.none => True
      | some inst => inst.ballot < ack.ballot → MAX_N_OF_PROPOSERS + inst.ballot < 2 ^ 32
  | .receiveAcceptAck ack _ =>
      match instanceFind p.acceptInstances ack.iid with
      | Option.none => True
      | some inst => ack.ballot ≠ inst.ballot → MAX_N_OF_PROPOSERS + inst.ballot < 2 ^ 32
  | _ => True

instance ProposerCall.NoWrap.decidable (p : Proposer) :
    (c : ProposerCall) → Decidable (c.NoWrap p)
  | .prepare _ _ => inferInstanceAs (Decidable (_ < _))
  | .receivePrepareAck ack _ =>
      match h : instanceFind p.prepareInstances ack.iid with
      | Option.none => isTrue (by simp [ProposerCall.NoWrap, h])
      | some inst =>
          decidable_of_iff (inst.ballot < ack.ballot → MAX_N_OF_PROPOSERS + inst.ballot < 2 ^ 32)
            (by simp [ProposerCall.NoWrap, h])
  | .receiveAcceptAck ack _ =>
      match h : instanceFind p.acceptInstances ack.iid with
      | Option.none => isTrue (by simp [ProposerCall.NoWrap, h])
      | some inst =>
          decidable_of_iff (ack.ballot ≠ inst.ballot → MAX_N_OF_PROPOSERS + inst.ballot < 2 ^ 32)
            (by simp [ProposerCall.NoWrap, h])
  | .propose _ => isTrue trivial
  | .accept => isTrue trivial
  | .timeoutPrepare _ => isTrue trivial
  | .timeoutAccept _ => isTrue trivial

-- A proposer process with what it was given and has sent so far. A fault halts it.
-- `past` keeps what earlier lives of the process emitted.
structure ProposerProc where
  state : Proposer
  halted : Bool
  submitted : List Value
  finished : List Instance
  emitted : List AcceptReq
  past : List (List AcceptReq)

def ProposerProc.start (id acceptors : Nat) : ProposerProc where
  state := proposerNew id acceptors
  halted := false
  submitted := []
  finished := []
  emitted := []
  past := []

def ProposerCall.submits : ProposerCall → List Value
  | .propose value => [value]
  | _ => []

def ProposerOutput.emits : ProposerOutput → List AcceptReq
  | .acceptReq req => [req]
  | _ => []

def ProposerOutput.finishes : ProposerOutput → List Instance
  | .closed inst => [inst]
  | _ => []

-- The process after a call that returns.
def ProposerProc.after (pr : ProposerProc) (c : ProposerCall) (p : Proposer)
    (out : ProposerOutput) : ProposerProc :=
  { pr with
    state := p
    submitted := pr.submitted ++ c.submits
    finished := pr.finished ++ out.finishes
    emitted := pr.emitted ++ out.emits }

def ProposerProc.call (cfg : PaxosConfig) (pr : ProposerProc) (c : ProposerCall) :
    ProposerProc × ProposerOutput :=
  match proposerCall cfg pr.state c with
  | .error _ => ({ pr with halted := true }, .none)
  | .ok (p, out) => (pr.after c p out, out)

-- A restart loses everything in memory.
def ProposerProc.restart (pr : ProposerProc) : ProposerProc :=
  { ProposerProc.start pr.state.id pr.state.acceptors with past := pr.emitted :: pr.past }

-- One proposer driven by arbitrary calls.
def proposerSystem (cfg : PaxosConfig) (id acceptors : Nat) :
    TransitionSystem ProposerProc ProposerCall where
  init := ProposerProc.start id acceptors
  step pr c := if pr.halted then none else some (pr.call cfg c).1

end LibPaxos
