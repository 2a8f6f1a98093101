import LibPaxos.Stream
import LibPaxos.Wire

namespace LibPaxos.Wire

def evbufferGetLength (buf : Evbuffer) : Nat := buf.length

def evbufferCopyout (buf : Evbuffer) (size : Nat) : List UInt8 := buf.take size

def evbufferRemove (buf : Evbuffer) (size : Nat) : List UInt8 × Evbuffer :=
  (buf.take size, buf.drop size)

def evbufferDrain (buf : Evbuffer) (size : Nat) : Evbuffer := buf.drop size

section

variable {σ : Type}

-- The three message handlers up to their `switch` on the type, which is the
-- parameter: it is given the type and the payload.
def handleMsg (dispatch : σ → Nat → List UInt8 → σ) (t : σ × Evbuffer) : σ × Evbuffer :=
  let (head, buf) := evbufferRemove t.2 sizeofPaxosMsg
  let msg := readPaxosMsg head
  if msg.dataSize > PAXOS_MAX_VALUE_SIZE then
    (t.1, evbufferDrain buf msg.dataSize)
  else
    let (buffer, buf) := evbufferRemove buf msg.dataSize
    (dispatch t.1 msg.type buffer, buf)

-- The loop around a handler. It is left early when the first frame has not
-- arrived as a whole, and `none` stands for one that has not ended within `fuel`
-- rounds.
def readMsgs (callback : σ × Evbuffer → Option (σ × Evbuffer)) :
    Nat → σ × Evbuffer → Option (σ × Evbuffer)
  | 0, _ => none
  | fuel + 1, t =>
      let len := evbufferGetLength t.2
      if len > sizeofPaxosMsg then
        let msg := readPaxosMsg (evbufferCopyout t.2 sizeofPaxosMsg)
        if len < paxosMsgSize msg then some t
        else (callback t).bind (readMsgs callback fuel)
      else some t

-- tcp_receiver.c, with the callback given to `tcp_receiver_new`.
def tcpReceiverOnRead (callback : σ × Evbuffer → Option (σ × Evbuffer)) (fuel : Nat) :
    σ × Evbuffer → Option (σ × Evbuffer) :=
  readMsgs callback fuel

-- peers.c, with the callback given to `peers_connect`.
def peersOnRead (cb : σ × Evbuffer → Option (σ × Evbuffer)) (t : σ × Evbuffer) :
    Option (σ × Evbuffer) :=
  cb t

variable (dispatch : σ → Nat → List UInt8 → σ)

def handleReq (t : σ × Evbuffer) : Option (σ × Evbuffer) := some (handleMsg dispatch t)

def proposerHandleMsg (t : σ × Evbuffer) : Option (σ × Evbuffer) := some (handleMsg dispatch t)

def learnerHandleMsg (t : σ × Evbuffer) : Option (σ × Evbuffer) := some (handleMsg dispatch t)

def handleRequest (fuel : Nat) : σ × Evbuffer → Option (σ × Evbuffer) :=
  readMsgs (proposerHandleMsg dispatch) fuel

def onAcceptorMsg (fuel : Nat) : σ × Evbuffer → Option (σ × Evbuffer) :=
  readMsgs (learnerHandleMsg dispatch) fuel

-- The read callbacks that are set up: on the connections an acceptor or a proposer
-- accepts, and on those a proposer or a learner opens to the acceptors.
inductive Receiver where
  | acceptor
  | proposerClients
  | proposerAcceptors
  | learnerAcceptors
  deriving Repr, DecidableEq

def Receiver.onRead (fuel : Nat) : Receiver → σ × Evbuffer → Option (σ × Evbuffer)
  | .acceptor => tcpReceiverOnRead (handleReq dispatch) fuel
  | .proposerClients => tcpReceiverOnRead (handleRequest dispatch fuel) fuel
  | .proposerAcceptors => peersOnRead (handleRequest dispatch fuel)
  | .learnerAcceptors => peersOnRead (onAcceptorMsg dispatch fuel)

end

end LibPaxos.Wire
