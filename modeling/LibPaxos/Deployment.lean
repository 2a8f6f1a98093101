import LibPaxos.Carray.Deque
import LibPaxos.Proposer.Timeouts
import LibPaxos.Storage.Recovery
import LibPaxos.System
import LibPaxos.Wire.Framing
import LibPaxos.Wire.Handlers

namespace LibPaxos

open Wire

-- A cluster with the window of each of its proposers.
structure Layout (ι κ : Type) extends Cluster ι κ where
  preexecWindow : ι → Nat := fun _ => 128

-- A process that opens connections to the acceptors.
inductive Peer (ι κ : Type) where
  | proposer (p : ι)
  | learner (l : κ)
  deriving Repr, DecidableEq

-- A connection of a peer to an acceptor. When the peer finds it broken, it opens
-- the one of the next generation.
structure Connection (ι κ : Type) where
  peer : Peer ι κ
  acceptor : Nat
  generation : Nat
  deriving Repr, DecidableEq

-- One direction of a connection: the bytes that are written and have not arrived,
-- and the input buffer of the `bufferevent` at its end.
structure Pipe where
  inFlight : List UInt8
  input : Evbuffer
  deriving Repr, DecidableEq

def Pipe.empty : Pipe := ⟨[], []⟩

def Pipe.write (pipe : Pipe) (f : Frame) : Pipe := { pipe with inFlight := f.send pipe.inFlight }

def Pipe.arrive (pipe : Pipe) (size : Nat) : Pipe :=
  ⟨pipe.inFlight.drop size, pipe.input ++ pipe.inFlight.take size⟩

-- The directions: from a peer to an acceptor and back, and from a client to a
-- proposer. A client opens any number of connections.
inductive Way (ι κ : Type) where
  | up (c : Connection ι κ)
  | down (c : Connection ι κ)
  | client (p : ι) (number : Nat)
  deriving Repr, DecidableEq

-- An acceptor's end of a connection. `on_error` frees it at the end of the stream
-- only: after any other error it stays among the `bevs`, and nothing is read
-- from it any more.
inductive Status where
  | pending
  | accepted
  | broken
  | freed
  deriving Repr, DecidableEq

-- A fault ends a process.
structure EvAcceptor (σ γ : Type) where
  state : Except FrameFault σ
  bevs : Carray γ

structure EvLearner where
  state : Except FrameFault Learner
  delivered : List AcceptAck

structure Deployment (ι κ σ : Type) where
  proposers : ι → Except FrameFault Proposer
  acceptors : Nat → EvAcceptor σ (Connection ι κ)
  learners : κ → EvLearner
  generation : Peer ι κ → Nat → Nat
  status : Connection ι κ → Status
  pipes : Way ι κ → Pipe

-- The requests in the order they are written.
def Wire.ProposerSent.frames (sent : ProposerSent) : List Frame :=
  sent.answer.toList.map .prepareReq ++ sent.accepts.map .acceptReq ++
    sent.prepares.map .prepareReq

-- `proposer_handle_msg` behind its size check.
def proposerHandleFrame (env : ProposerEnv) (p : Proposer) (type : Nat) (buffer : List UInt8) :
    Except FrameFault (Proposer × List Frame) :=
  (proposerDispatch env p type buffer).map fun (p, sent) => (p, sent.frames)

def evproposerHandleMsg (env : ProposerEnv) (p : Proposer) (input : Evbuffer) :
    Except FrameFault (Proposer × List Frame) × Evbuffer :=
  handleMsg (fun _ type buffer => proposerHandleFrame env p type buffer) (.ok (p, []), input)

-- `learner_deliver_next_closed`. What was handed to the callback before a fault is
-- delivered. `fuel` bounds the deliveries.
def evlearnerDeliver : Nat → EvLearner → EvLearner
  | 0, l => l
  | fuel + 1, l =>
      match l.state with
      | .error _ => l
      | .ok state =>
          match learnerDeliverNext state with
          | .error fault => { l with state := .error (.fault fault) }
          | .ok (state, none) => { l with state := .ok state }
          | .ok (state, some ack) =>
              evlearnerDeliver fuel ⟨.ok state, l.delivered ++ [ack]⟩

-- `learner_handle_msg` behind its size check. Each delivery frees one of the slots.
def learnerHandleFrame (l : EvLearner) (state : Learner) (type : Nat) (buffer : List UInt8) :
    EvLearner :=
  if type = PaxosMsgCode.acceptAcks.code then
    match Wire.learnerReceiveAccept state buffer with
    | .error fault => { l with state := .error fault }
    | .ok state => evlearnerDeliver (carraySize state.instances + 1) { l with state := .ok state }
  else l

def evlearnerHandleMsg (l : EvLearner) (state : Learner) (input : Evbuffer) :
    EvLearner × Evbuffer :=
  handleMsg (fun _ type buffer => learnerHandleFrame l state type buffer) (l, input)

def matchBufferevent {γ : Type} [DecidableEq γ] (arg : γ) (item : Option γ) : Int :=
  if item = some arg then 1 else 0

variable {ι κ σ : Type} [DecidableEq ι] [DecidableEq κ]

namespace Deployment

def write (d : Deployment ι κ σ) (way : Way ι κ) (f : Frame) : Deployment ι κ σ :=
  { d with pipes := Function.update d.pipes way ((d.pipes way).write f) }

def setInput (d : Deployment ι κ σ) (way : Way ι κ) (input : Evbuffer) : Deployment ι κ σ :=
  { d with pipes := Function.update d.pipes way { d.pipes way with input := input } }

def setProposer (d : Deployment ι κ σ) (p : ι) (state : Except FrameFault Proposer) :
    Deployment ι κ σ :=
  { d with proposers := Function.update d.proposers p state }

def setAcceptor (d : Deployment ι κ σ) (a : Nat) (state : Except FrameFault σ) :
    Deployment ι κ σ :=
  { d with acceptors := Function.update d.acceptors a { d.acceptors a with state := state } }

def setBevs (d : Deployment ι κ σ) (a : Nat) (bevs : Carray (Connection ι κ)) :
    Deployment ι κ σ :=
  { d with acceptors := Function.update d.acceptors a { d.acceptors a with bevs := bevs } }

def setLearner (d : Deployment ι κ σ) (l : κ) (learner : EvLearner) : Deployment ι κ σ :=
  { d with learners := Function.update d.learners l learner }

def setStatus (d : Deployment ι κ σ) (c : Connection ι κ) (status : Status) :
    Deployment ι κ σ :=
  { d with status := Function.update d.status c status }

-- The connection behind the `bufferevent` of a peer.
def peersGetBuffer (d : Deployment ι κ σ) (peer : Peer ι κ) (i : Nat) : Connection ι κ :=
  ⟨peer, i, d.generation peer i⟩

-- The loops of `send_prepares`, `send_accepts` and `learner_check_holes` over the
-- acceptors.
def sendToAcceptors (cl : Layout ι κ) (peer : Peer ι κ) (d : Deployment ι κ σ) (f : Frame) :
    Deployment ι κ σ :=
  (List.range cl.acceptors).foldl (fun d i => d.write (.up (d.peersGetBuffer peer i)) f) d

def sendAll (cl : Layout ι κ) (peer : Peer ι κ) (d : Deployment ι κ σ) (frames : List Frame) :
    Deployment ι κ σ :=
  frames.foldl (sendToAcceptors cl peer) d

-- The loop of `handle_accept_req` over the accepted connections.
def sendToBev (bevs : Carray (Connection ι κ)) (f : Frame) (d : Deployment ι κ σ) (i : Nat) :
    Except Fault (Deployment ι κ σ) := do
  match ← carrayAt bevs i with
  | none => .error .nullPointer
  | some c => .ok (d.write (.down c) f)

def sendToBevs (d : Deployment ι κ σ) (bevs : Carray (Connection ι κ)) (f : Frame) :
    Except Fault (Deployment ι κ σ) :=
  (List.range (carrayCount bevs)).foldlM (sendToBev bevs f) d

-- `pad` is what the padding of a record holds.
def reply (d : Deployment ι κ σ) (c : Connection ι κ) (pad : List UInt8) :
    AcceptorReply → Deployment ι κ σ
  | .none => d
  | .prepareAck rec => d.write (.down c) (.prepareAck rec)
  | .acceptAck rec => d.write (.down c) (.acceptAck rec pad)
  | .acceptAckToAll rec =>
      match d.sendToBevs (d.acceptors c.acceptor).bevs (.acceptAck rec pad) with
      | .ok d => d
      | .error fault => d.setAcceptor c.acceptor (.error (.fault fault))

-- A connection that an acceptor accepts is put among its `bevs`.
def onAccept (cl : Layout ι κ) (d : Deployment ι κ σ) (c : Connection ι κ) :
    Option (Deployment ι κ σ) :=
  if c.acceptor < cl.acceptors ∧ d.status c = .pending then
    match carrayPushBack (d.acceptors c.acceptor).bevs c with
    | .ok bevs => some ((d.setBevs c.acceptor bevs).setStatus c .accepted)
    | .error fault => some (d.setAcceptor c.acceptor (.error (.fault fault)))
  else none

-- `eof` is whether the stream has ended.
def onError (d : Deployment ι κ σ) (c : Connection ι κ) (eof : Bool) :
    Option (Deployment ι κ σ) :=
  if d.status c = .accepted then
    if eof then
      match carrayReject (d.acceptors c.acceptor).bevs matchBufferevent c with
      | .ok bevs => some ((d.setBevs c.acceptor bevs).setStatus c .freed)
      | .error fault => some (d.setAcceptor c.acceptor (.error (.fault fault)))
    else some (d.setStatus c .broken)
  else none

-- `on_socket_event` of peers.c, on an error or at the end of the stream. What is
-- written from now on waits in the new `bufferevent` until it is connected.
def onSocketEvent (d : Deployment ι κ σ) (peer : Peer ι κ) (a : Nat) : Deployment ι κ σ :=
  { d with
    generation := Function.update d.generation peer
      (Function.update (d.generation peer) a (d.generation peer a + 1)) }

section

variable [Storage σ]

-- `handle_req` on the first frame of a connection: what it comes to, and what it
-- leaves in the buffer.
def handleRequest (cl : Layout ι κ) (d : Deployment ι κ σ) (c : Connection ι κ) :
    Option (Except FrameFault (Option (σ × AcceptorReply)) × Evbuffer) :=
  match (d.acceptors c.acceptor).state with
  | .error _ => none
  | .ok state =>
      let input := (d.pipes (.up c)).input
      if c.acceptor < cl.acceptors ∧ d.status c = .accepted ∧ msgReady (d, input) then
        some (handleMsg (fun _ type buffer => acceptorDispatch state type buffer)
          (.ok (some (state, .none)), input))
      else none

-- A storage that ends the process leaves no state to go on from.
def readRequest (cl : Layout ι κ) (d : Deployment ι κ σ) (c : Connection ι κ)
    (pad : Fin 6 → UInt8) : Option (Deployment ι κ σ) :=
  match handleRequest cl d c with
  | some (.ok (some (state, reply)), input) =>
      some (((d.setInput (.up c) input).setAcceptor c.acceptor (.ok state)).reply c
        (List.ofFn pad) reply)
  | some (.error fault, input) =>
      some ((d.setInput (.up c) input).setAcceptor c.acceptor (.error fault))
  | some (.ok none, _) => none
  | none => none

end

-- A new process of an acceptor: it has no connections yet.
def restartAcceptor [DurableStorage σ] (d : Deployment ι κ σ) (a : Nat) (state : σ) :
    Deployment ι κ σ :=
  { d with
    acceptors := Function.update d.acceptors a
      ⟨.ok (DurableStorage.storageReopen state), carrayNew 10⟩
    status := fun c => if c.acceptor = a ∧ d.status c ≠ .pending then .freed else d.status c }

def crash [DurableStorage σ] (d : Deployment ι κ σ) (a : Nat) : Option (Deployment ι κ σ) :=
  match (d.acceptors a).state with
  | .error _ => none
  | .ok state => some (d.restartAcceptor a state)

-- The process ends between `storage_tx_commit` and the first write of the answer.
def crashAfterCommit [DurableStorage σ] (cl : Layout ι κ) (d : Deployment ι κ σ)
    (c : Connection ι κ) : Option (Deployment ι κ σ) :=
  match handleRequest cl d c with
  | some (.ok (some (state, _)), _) => some (d.restartAcceptor c.acceptor state)
  | _ => none

def readProposer (cl : Layout ι κ) (d : Deployment ι κ σ) (p : ι) (way : Way ι κ) (now : Timeval)
    (junk : Nat → Nat → Int) : Option (Deployment ι κ σ) :=
  match d.proposers p with
  | .error _ => none
  | .ok state =>
      let input := (d.pipes way).input
      if msgReady (d, input) then
        match evproposerHandleMsg ⟨cl.preexecWindow p, now, junk⟩ state input with
        | (.ok (state, frames), input) =>
            some (((d.setInput way input).setProposer p (.ok state)).sendAll cl (.proposer p)
              frames)
        | (.error fault, input) => some ((d.setInput way input).setProposer p (.error fault))
      else none

def readLearner (d : Deployment ι κ σ) (l : κ) (way : Way ι κ) : Option (Deployment ι κ σ) :=
  match (d.learners l).state with
  | .error _ => none
  | .ok state =>
      let input := (d.pipes way).input
      if msgReady (d, input) then
        let (learner, input) := evlearnerHandleMsg (d.learners l) state input
        some ((d.setInput way input).setLearner l learner)
      else none

-- A peer reads from the connection its `bufferevent` belongs to.
def readReply (cl : Layout ι κ) (d : Deployment ι κ σ) (peer : Peer ι κ) (a : Nat) (now : Timeval)
    (junk : Nat → Nat → Int) : Option (Deployment ι κ σ) :=
  let way := .down (d.peersGetBuffer peer a)
  match peer with
  | .proposer p => d.readProposer cl p way now junk
  | .learner l => d.readLearner l way

-- Each round of a sweep passes at least one instance.
def checkTimeouts (cl : Layout ι κ) (d : Deployment ι κ σ) (p : ι) (now : Timeval) :
    Option (Deployment ι κ σ) :=
  match d.proposers p with
  | .error _ => none
  | .ok state =>
      let fuel := state.prepareInstances.length + state.acceptInstances.length + 1
      match proposerCheckTimeouts (cl.proposerConfig p) fuel state now with
      | .error fault => some (d.setProposer p (.error (.fault fault)))
      | .ok none => none
      | .ok (some (state, prepares, accepts)) =>
          some ((d.setProposer p (.ok state)).sendAll cl (.proposer p)
            (prepares.map .prepareReq ++ accepts.map .acceptReq))

def checkHoles (cl : Layout ι κ) (d : Deployment ι κ σ) (l : κ) : Option (Deployment ι κ σ) :=
  match (d.learners l).state with
  | .error _ => none
  | .ok state => some (d.sendAll cl (.learner l) ((learnerCheckHoles state).map .repeatReq))

end Deployment

-- What the event loops of the processes and the network between them can do next.
-- A read is one round of the loop around a handler. The callbacks go on to the
-- last whole frame: that other events may come in between only adds runs.
inductive DeploymentEvent (ι κ : Type) where
  | arrive (way : Way ι κ) (size : Nat)
  | onAccept (c : Connection ι κ)
  | onError (c : Connection ι κ) (eof : Bool)
  | onSocketEvent (peer : Peer ι κ) (a : Nat)
  | readRequest (c : Connection ι κ) (pad : Fin 6 → UInt8)
  | readReply (peer : Peer ι κ) (a : Nat) (now : Timeval) (junk : Nat → Nat → Int)
  | submit (p : ι) (number : Nat) (value : Value)
  | readSubmit (p : ι) (number : Nat) (now : Timeval) (junk : Nat → Nat → Int)
  | checkTimeouts (p : ι) (now : Timeval)
  | checkHoles (l : κ)
  | crash (a : Nat)
  | crashAfterCommit (c : Connection ι κ)

namespace Deployment

-- `evacceptor_init`, `evproposer_init` and `evlearner_init`: every process has
-- opened its connections, and none is accepted.
def start [Storage σ] (cl : Layout ι κ) : Deployment ι κ σ where
  proposers p := .ok (proposerNew (cl.id p) cl.acceptors)
  acceptors a := ⟨.ok (storageOpen a), carrayNew 10⟩
  learners l := ⟨(learnerNew (cl.learnerConfig l) cl.acceptors).mapError .fault, []⟩
  generation _ _ := 0
  status _ := .pending
  pipes _ := .empty

def step [DurableStorage σ] (cl : Layout ι κ) (d : Deployment ι κ σ) :
    DeploymentEvent ι κ → Option (Deployment ι κ σ)
  | .arrive way size =>
      some { d with pipes := Function.update d.pipes way ((d.pipes way).arrive size) }
  | .onAccept c => d.onAccept cl c
  | .onError c eof => d.onError c eof
  | .onSocketEvent peer a => some (d.onSocketEvent peer a)
  | .readRequest c pad => d.readRequest cl c pad
  | .readReply peer a now junk => d.readReply cl peer a now junk
  | .submit p number value => some (d.write (.client p number) (.submit value))
  | .readSubmit p number now junk => d.readProposer cl p (.client p number) now junk
  | .checkTimeouts p now => d.checkTimeouts cl p now
  | .checkHoles l => d.checkHoles cl l
  | .crash a => d.crash a
  | .crashAfterCommit c => d.crashAfterCommit cl c

end Deployment

def deployment (σ : Type) [DurableStorage σ] (cl : Layout ι κ) :
    TransitionSystem (Deployment ι κ σ) (DeploymentEvent ι κ) where
  init := Deployment.start cl
  step := Deployment.step cl

end LibPaxos
