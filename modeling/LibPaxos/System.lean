import LibPaxos.Acceptor
import LibPaxos.Learner
import LibPaxos.Proposer.Process
import LibPaxos.Voting

namespace LibPaxos

-- The proposers `ι` and learners `κ` of one deployment and its numbered acceptors.
structure Cluster (ι κ : Type) where
  acceptors : Nat
  acceptors_pos : 1 ≤ acceptors
  id : ι → Nat
  id_lt : ∀ p, id p < MAX_N_OF_PROPOSERS
  id_injective : Function.Injective id
  proposerConfig : ι → PaxosConfig := fun _ => {}
  learnerConfig : κ → PaxosConfig := fun _ => {}

-- Proposers numbered from zero, as the configuration file asks.
def Cluster.numbered (κ : Type) (proposers acceptors : Nat)
    (hp : proposers ≤ MAX_N_OF_PROPOSERS := by decide) (ha : 1 ≤ acceptors := by decide)
    (learner : PaxosConfig := {}) : Cluster (Fin proposers) κ where
  acceptors := acceptors
  acceptors_pos := ha
  id p := p
  id_lt p := Nat.lt_of_lt_of_le p.isLt hp
  id_injective := Fin.val_injective
  learnerConfig _ := learner

def Cluster.solo (κ : Type) (learner : PaxosConfig := {}) : Cluster (Fin 1) κ :=
  .numbered κ 1 1 (by decide) (by decide) learner

-- An accepted request is acknowledged to every connection of the acceptor, a
-- refused one or a repeat request to the connection it came from.
inductive Audience (ι κ : Type) where
  | everyone
  | proposer (p : ι)
  | learner (l : κ)
  deriving Repr, DecidableEq

inductive Packet (ι κ : Type) where
  | prepareReq (src : ι) (req : PrepareReq)
  | prepareAck (dst : ι) (ack : PrepareAck)
  | acceptReq (src : ι) (req : AcceptReq)
  | acceptAck (dst : Audience ι κ) (ack : AcceptAck)
  | repeatReq (src : κ) (iid : Nat)
  deriving Repr, DecidableEq

-- `net` holds every packet ever sent. A packet may be handled any number of times,
-- at any later moment, or never.
structure System (ι κ σ : Type) where
  proposers : ι → ProposerProc
  acceptors : Nat → Logged σ
  learners : κ → LearnerProc
  net : List (Packet ι κ)

inductive Event (ι κ : Type) where
  | call (p : ι) (c : ProposerCall)
  | restart (p : ι)
  | handle (a : Nat) (packet : Packet ι κ)
  | learn (l : κ) (c : LearnerCall)
  | checkHoles (l : κ)

variable {ι κ σ : Type} [DecidableEq ι] [DecidableEq κ] [Storage σ]

def handlePrepareReq (s : Logged σ) (src : ι) (pr : PrepareReq) :
    Option (Logged σ × List (Packet ι κ)) :=
  (acceptorReceivePrepare s pr).map fun (s, rec) => (s, [.prepareAck src rec.toPrepareAck])

def handleAcceptReq (s : Logged σ) (src : ι) (ar : AcceptReq) :
    Option (Logged σ × List (Packet ι κ)) :=
  (acceptorReceiveAccept s ar).map fun (s, rec) =>
    (s, [.acceptAck (if ar.ballot = rec.ballot then .everyone else .proposer src) rec])

def handleRepeatReq (s : Logged σ) (src : κ) (iid : Nat) :
    Option (Logged σ × List (Packet ι κ)) :=
  (acceptorReceiveRepeat s iid).map fun (s, rec) =>
    (s, rec.toList.map (.acceptAck (.learner src)))

def handleReq (s : Logged σ) : Packet ι κ → Option (Logged σ × List (Packet ι κ))
  | .prepareReq src req => handlePrepareReq s src req
  | .acceptReq src req => handleAcceptReq s src req
  | .repeatReq src iid => handleRepeatReq s src iid
  | _ => none

-- The requests that `send_prepares` and `send_accepts` put on the connections.
def ProposerOutput.packets (p : ι) : ProposerOutput → List (Packet ι κ)
  | .prepareReq req => [.prepareReq p req]
  | .acceptReq req => [.acceptReq p req]
  | _ => []

-- An ack can be handled when it was sent to the process.
def ProposerCall.offered (net : List (Packet ι κ)) (p : ι) : ProposerCall → Bool
  | .receivePrepareAck ack _ => .prepareAck p ack ∈ net
  | .receiveAcceptAck ack _ => .acceptAck .everyone ack ∈ net ∨ .acceptAck (.proposer p) ack ∈ net
  | _ => true

def LearnerCall.offered (net : List (Packet ι κ)) (l : κ) : LearnerCall → Bool
  | .receiveAccept ack => .acceptAck .everyone ack ∈ net ∨ .acceptAck (.learner l) ack ∈ net
  | .deliverNext => true

namespace System

def start (cl : Cluster ι κ) : System ι κ σ where
  proposers p := ProposerProc.start (cl.id p) cl.acceptors
  acceptors a := storageOpen a
  learners l := LearnerProc.start (cl.learnerConfig l) cl.acceptors
  net := []

def step (cl : Cluster ι κ) (s : System ι κ σ) : Event ι κ → Option (System ι κ σ)
  | .call p c =>
      if (s.proposers p).halted = false ∧ c.offered s.net p = true then
        let (pr, out) := (s.proposers p).call (cl.proposerConfig p) c
        some { s with
          proposers := Function.update s.proposers p pr
          net := s.net ++ out.packets p }
      else none
  | .restart p =>
      some { s with proposers := Function.update s.proposers p (s.proposers p).restart }
  | .handle a packet =>
      if a < cl.acceptors ∧ packet ∈ s.net then
        (handleReq (s.acceptors a) packet).map fun (acceptor, replies) =>
          { s with
            acceptors := Function.update s.acceptors a acceptor
            net := s.net ++ replies }
      else none
  | .learn l c =>
      match (s.learners l).state with
      | .error _ => none
      | .ok state =>
          if c.offered s.net l then
            some { s with
              learners := Function.update s.learners l ((s.learners l).call state c) }
          else none
  | .checkHoles l =>
      match (s.learners l).state with
      | .error _ => none
      | .ok state =>
          some { s with net := s.net ++ (learnerCheckHoles state).map (.repeatReq l) }

end System

def paxos (σ : Type) [Storage σ] (cl : Cluster ι κ) :
    TransitionSystem (System ι κ σ) (Event ι κ) where
  init := System.start cl
  step := System.step cl

-- What can be asked of the steps of a run.

def Event.noRestart : Event ι κ → Prop
  | .restart _ => False
  | _ => True

-- No ballot or iid reaches 2 ^ 32.
def Event.noWrap (s : System ι κ σ) : Event ι κ → Prop
  | .call p c => c.NoWrap (s.proposers p).state
  | _ => True

-- No iid reaches 2 ^ 32.
def Event.noIidWrap (s : System ι κ σ) : Event ι κ → Prop
  | .call p (.prepare _ _) => (s.proposers p).state.nextPrepareIid + 1 < 2 ^ 32
  | _ => True

-- Client values have at least one byte.
def Event.nonEmpty : Event ι κ → Prop
  | .call _ (.propose value) => value ≠ []
  | _ => True

instance Event.noRestart.decidable : (e : Event ι κ) → Decidable e.noRestart
  | .restart _ => isFalse id
  | .call _ _ => isTrue trivial
  | .handle _ _ => isTrue trivial
  | .learn _ _ => isTrue trivial
  | .checkHoles _ => isTrue trivial

instance Event.noWrap.decidable (s : System ι κ σ) : (e : Event ι κ) → Decidable (e.noWrap s)
  | .call p c => inferInstanceAs (Decidable (c.NoWrap (s.proposers p).state))
  | .restart _ => isTrue trivial
  | .handle _ _ => isTrue trivial
  | .learn _ _ => isTrue trivial
  | .checkHoles _ => isTrue trivial

instance Event.noIidWrap.decidable (s : System ι κ σ) :
    (e : Event ι κ) → Decidable (e.noIidWrap s)
  | .call _ (.prepare _ _) => inferInstanceAs (Decidable (_ < _))
  | .call _ (.propose _) => isTrue trivial
  | .call _ (.receivePrepareAck _ _) => isTrue trivial
  | .call _ .accept => isTrue trivial
  | .call _ (.receiveAcceptAck _ _) => isTrue trivial
  | .call _ (.timeoutPrepare _) => isTrue trivial
  | .call _ (.timeoutAccept _) => isTrue trivial
  | .restart _ => isTrue trivial
  | .handle _ _ => isTrue trivial
  | .learn _ _ => isTrue trivial
  | .checkHoles _ => isTrue trivial

instance Event.nonEmpty.decidable : (e : Event ι κ) → Decidable e.nonEmpty
  | .call _ (.propose value) => inferInstanceAs (Decidable (value ≠ []))
  | .call _ (.prepare _ _) => isTrue trivial
  | .call _ (.receivePrepareAck _ _) => isTrue trivial
  | .call _ .accept => isTrue trivial
  | .call _ (.receiveAcceptAck _ _) => isTrue trivial
  | .call _ (.timeoutPrepare _) => isTrue trivial
  | .call _ (.timeoutAccept _) => isTrue trivial
  | .restart _ => isTrue trivial
  | .handle _ _ => isTrue trivial
  | .learn _ _ => isTrue trivial
  | .checkHoles _ => isTrue trivial

-- The acceptor accepted `value` for the instance at the ballot: the request went
-- through `storage_save_accept`.
def System.Accepted (s : System ι κ σ) (a iid ballot : Nat) (value : Value) : Prop :=
  (⟨iid, ballot, value⟩ : AcceptReq) ∈ (s.acceptors a).saved

instance System.Accepted.decidable (s : System ι κ σ) (a iid ballot : Nat) (value : Value) :
    Decidable (s.Accepted a iid ballot value) :=
  inferInstanceAs (Decidable (_ ∈ _))

def System.ChosenAt (cl : Cluster ι κ) (s : System ι κ σ) (iid ballot : Nat) (value : Value) :
    Prop :=
  ∃ group, Voting.IsMajority cl.acceptors group ∧ ∀ a ∈ group, s.Accepted a iid ballot value

-- The ack was sent to this proposer.
def System.AckFor (s : System ι κ σ) (p : ι) (ack : AcceptAck) : Prop :=
  .acceptAck .everyone ack ∈ s.net ∨ .acceptAck (.proposer p) ack ∈ s.net

-- A client has submitted the value to some proposer.
def System.Submitted (s : System ι κ σ) (value : Value) : Prop :=
  ∃ p, value ∈ (s.proposers p).submitted

end LibPaxos
