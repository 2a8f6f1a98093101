import LibPaxos.Bytes
import LibPaxos.Messages

namespace LibPaxos

inductive PaxosMsgCode where
  | prepareReqs
  | prepareAcks
  | acceptReqs
  | acceptAcks
  | repeatReqs
  | submit
  | leaderAnnounce
  | alivePing
  deriving Repr, DecidableEq

def PaxosMsgCode.code : PaxosMsgCode → Nat
  | .prepareReqs => 1
  | .prepareAcks => 2
  | .acceptReqs => 4
  | .acceptAcks => 8
  | .repeatReqs => 16
  | .submit => 32
  | .leaderAnnounce => 64
  | .alivePing => 65

theorem PaxosMsgCode.code_lt (c : PaxosMsgCode) : c.code < 256 ^ 4 := by
  cases c <;> decide

-- The header of a frame. It is packed: eight bytes of size, four of type.
structure PaxosMsg where
  dataSize : Nat
  type : Nat
  deriving Repr, DecidableEq

def sizeofPaxosMsg : Nat := 12

-- A `size_t` sum.
def paxosMsgSize (m : PaxosMsg) : Nat := (m.dataSize + sizeofPaxosMsg) % 2 ^ 64

def paxosMsgBytes (m : PaxosMsg) : List UInt8 := toBytes 8 m.dataSize ++ toBytes 4 m.type

def readPaxosMsg (bytes : List UInt8) : PaxosMsg where
  dataSize := ofBytes (bytes.take 8)
  type := ofBytes ((bytes.drop 8).take 4)

@[simp] theorem length_paxosMsgBytes (m : PaxosMsg) :
    (paxosMsgBytes m).length = sizeofPaxosMsg := by
  simp [paxosMsgBytes, sizeofPaxosMsg]

theorem readPaxosMsg_bytes {m : PaxosMsg} (hsize : m.dataSize < 256 ^ 8)
    (htype : m.type < 256 ^ 4) : readPaxosMsg (paxosMsgBytes m) = m := by
  have hfirst : (paxosMsgBytes m).take 8 = toBytes 8 m.dataSize := by
    rw [paxosMsgBytes, List.take_left' (length_toBytes 8 m.dataSize)]
  have hsecond : ((paxosMsgBytes m).drop 8).take 4 = toBytes 4 m.type := by
    rw [paxosMsgBytes, List.drop_left' (length_toBytes 8 m.dataSize)]
    exact List.take_of_length_le (length_toBytes 4 m.type).le
  simp only [readPaxosMsg, hfirst, hsecond, ofBytes_toBytes hsize, ofBytes_toBytes htype]

-- The structs in memory, each followed by its value.
def prepareReqBytes (m : PrepareReq) : List UInt8 := toBytes 4 m.iid ++ toBytes 4 m.ballot

def prepareAckStruct (m : PrepareAck) : List UInt8 :=
  toBytes 4 m.acceptorId ++ toBytes 4 m.iid ++ toBytes 4 m.ballot ++ toBytes 4 m.valueBallot ++
    toBytes 8 m.value.length

def acceptReqBytes (m : AcceptReq) : List UInt8 :=
  toBytes 4 m.iid ++ toBytes 4 m.ballot ++ toBytes 8 m.value.length ++ m.value

-- Six bytes of padding stand between `is_final` and `value_size`.
def acceptAckBytes (m : AcceptAck) (pad : List UInt8) : List UInt8 :=
  toBytes 4 m.acceptorId ++ toBytes 4 m.iid ++ toBytes 4 m.ballot ++ toBytes 4 m.valueBallot ++
    toBytes 2 m.isFinal.toNat ++ pad ++ toBytes 8 m.value.length ++ m.value

-- A whole message at the start of a buffer, if the buffer holds all of it: the
-- struct, and behind it as many bytes as its `value_size` says.
def readPrepareReq (buffer : List UInt8) : Option PrepareReq := do
  let iid ← numberAt buffer 0 4
  let ballot ← numberAt buffer 4 4
  return ⟨iid, ballot⟩

def readPrepareAck (buffer : List UInt8) : Option PrepareAck := do
  let acceptorId ← numberAt buffer 0 4
  let iid ← numberAt buffer 4 4
  let ballot ← numberAt buffer 8 4
  let valueBallot ← numberAt buffer 12 4
  let valueSize ← numberAt buffer 16 8
  let value ← bytesAt buffer 24 valueSize
  return ⟨acceptorId, iid, ballot, valueBallot, value⟩

def readAcceptReq (buffer : List UInt8) : Option AcceptReq := do
  let iid ← numberAt buffer 0 4
  let ballot ← numberAt buffer 4 4
  let valueSize ← numberAt buffer 8 8
  let value ← bytesAt buffer 16 valueSize
  return ⟨iid, ballot, value⟩

def readAcceptAck (buffer : List UInt8) : Option AcceptAck := do
  let acceptorId ← numberAt buffer 0 4
  let iid ← numberAt buffer 4 4
  let ballot ← numberAt buffer 8 4
  let valueBallot ← numberAt buffer 12 4
  let isFinal ← numberAt buffer 16 2
  let valueSize ← numberAt buffer 24 8
  let value ← bytesAt buffer 32 valueSize
  return ⟨acceptorId, iid, ballot, valueBallot, isFinal ≠ 0, value⟩

-- An `evbuffer` is a queue of bytes.
abbrev Evbuffer := List UInt8

def buffereventWrite (bev : Evbuffer) (data : List UInt8) : Evbuffer := bev ++ data

def addPaxosHeader (bev : Evbuffer) (c : PaxosMsgCode) (s : Nat) : Evbuffer :=
  buffereventWrite bev (paxosMsgBytes ⟨s, c.code⟩)

def sendbufAddPrepareReq (bev : Evbuffer) (pr : PrepareReq) : Evbuffer :=
  let s := prepareReqSize pr
  let bev := addPaxosHeader bev .prepareReqs s
  buffereventWrite bev (prepareReqBytes pr)

def sendbufAddPrepareAck (bev : Evbuffer) (rec : AcceptorRecord) : Evbuffer :=
  let pa := rec.toPrepareAck
  let s := prepareAckSize pa
  let bev := addPaxosHeader bev .prepareAcks s
  let bev := buffereventWrite bev (prepareAckStruct pa)
  if pa.value.length > 0 then buffereventWrite bev rec.value else bev

def sendbufAddAcceptReq (bev : Evbuffer) (ar : AcceptReq) : Evbuffer :=
  let s := acceptReqSize ar
  let bev := addPaxosHeader bev .acceptReqs s
  buffereventWrite bev (acceptReqBytes ar)

def sendbufAddAcceptAck (bev : Evbuffer) (aa : AcceptAck) (pad : List UInt8) : Evbuffer :=
  let s := acceptAckSize aa
  let bev := addPaxosHeader bev .acceptAcks s
  buffereventWrite bev (acceptAckBytes aa pad)

def sendbufAddRepeatReq (bev : Evbuffer) (iid : Nat) : Evbuffer :=
  let bev := addPaxosHeader bev .repeatReqs 4
  buffereventWrite bev (toBytes 4 iid)

def paxosSubmit (bev : Evbuffer) (value : Value) : Evbuffer :=
  let bev := addPaxosHeader bev .submit value.length
  buffereventWrite bev value

-- One call of these functions. `pad` is what the padding of the record holds.
inductive Frame where
  | prepareReq (pr : PrepareReq)
  | prepareAck (rec : AcceptorRecord)
  | acceptReq (ar : AcceptReq)
  | acceptAck (aa : AcceptAck) (pad : List UInt8)
  | repeatReq (iid : Nat)
  | submit (value : Value)
  deriving Repr, DecidableEq

namespace Frame

def send (bev : Evbuffer) : Frame → Evbuffer
  | .prepareReq pr => sendbufAddPrepareReq bev pr
  | .prepareAck rec => sendbufAddPrepareAck bev rec
  | .acceptReq ar => sendbufAddAcceptReq bev ar
  | .acceptAck aa pad => sendbufAddAcceptAck bev aa pad
  | .repeatReq iid => sendbufAddRepeatReq bev iid
  | .submit value => paxosSubmit bev value

-- The arguments have their C types: 32-bit numbers, an `int` of an acceptor or a
-- size that is not negative, values that fit in memory. A submitted value has
-- at least one byte.
def Sendable : Frame → Prop
  | .prepareReq pr => pr.iid < 2 ^ 32 ∧ pr.ballot < 2 ^ 32
  | .prepareAck rec => rec.acceptorId < 2 ^ 31 ∧ rec.iid < 2 ^ 32 ∧ rec.ballot < 2 ^ 32 ∧
      rec.valueBallot < 2 ^ 32 ∧ acceptAckSize rec < 2 ^ 63
  | .acceptReq ar => ar.iid < 2 ^ 32 ∧ ar.ballot < 2 ^ 32 ∧ acceptReqSize ar < 2 ^ 63
  | .acceptAck aa pad => aa.acceptorId < 2 ^ 31 ∧ aa.iid < 2 ^ 32 ∧ aa.ballot < 2 ^ 32 ∧
      aa.valueBallot < 2 ^ 32 ∧ acceptAckSize aa < 2 ^ 63 ∧ pad.length = 6
  | .repeatReq iid => iid < 2 ^ 32
  | .submit value => value ≠ [] ∧ value.length < 2 ^ 31

instance : DecidablePred Sendable
  | .prepareReq _ => inferInstanceAs (Decidable (_ ∧ _))
  | .prepareAck _ => inferInstanceAs (Decidable (_ ∧ _))
  | .acceptReq _ => inferInstanceAs (Decidable (_ ∧ _))
  | .acceptAck _ _ => inferInstanceAs (Decidable (_ ∧ _))
  | .repeatReq _ => inferInstanceAs (Decidable (_ < _))
  | .submit _ => inferInstanceAs (Decidable (_ ∧ _))

def type : Frame → PaxosMsgCode
  | .prepareReq _ => .prepareReqs
  | .prepareAck _ => .prepareAcks
  | .acceptReq _ => .acceptReqs
  | .acceptAck _ _ => .acceptAcks
  | .repeatReq _ => .repeatReqs
  | .submit _ => .submit

def payload : Frame → List UInt8
  | .prepareReq pr => prepareReqBytes pr
  | .prepareAck rec => prepareAckStruct rec.toPrepareAck ++ rec.value
  | .acceptReq ar => acceptReqBytes ar
  | .acceptAck aa pad => acceptAckBytes aa pad
  | .repeatReq iid => toBytes 4 iid
  | .submit value => value

def header (f : Frame) : PaxosMsg := ⟨f.payload.length, f.type.code⟩

def bytes (f : Frame) : List UInt8 := paxosMsgBytes f.header ++ f.payload

end Frame

end LibPaxos
