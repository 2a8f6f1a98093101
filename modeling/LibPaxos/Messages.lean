import Mathlib

namespace LibPaxos

-- The bytes of a client value. The `value_size` next to a value in the message
-- structs is its length.
abbrev Value := List UInt8

def MAX_N_OF_PROPOSERS : Nat := 10

def PAXOS_MAX_VALUE_SIZE : Nat := 256 * 1000

-- `iid_t` and `ballot_t` are `uint32_t`: sums are taken modulo 2 ^ 32.
def uint32 (n : Nat) : Nat := n % 2 ^ 32

theorem uint32_of_lt {n : Nat} (h : n < 2 ^ 32) : uint32 n = n := Nat.mod_eq_of_lt h

def paxosQuorum (acceptors : Nat) : Nat := acceptors / 2 + 1

-- The settings of `paxos_config` that the proposer and the learner read, with
-- their defaults.
structure PaxosConfig where
  learnerInstances : Nat := 2048
  learnerCatchUp : Bool := true
  proposerTimeout : Int := 1
  deriving Repr, DecidableEq

-- The ways a call can end the process instead of returning.
inductive Fault where
  | assertion
  | outOfBounds
  | nullPointer
  deriving Repr, DecidableEq

structure PrepareReq where
  iid : Nat
  ballot : Nat
  deriving Repr, DecidableEq

structure PrepareAck where
  acceptorId : Nat
  iid : Nat
  ballot : Nat
  valueBallot : Nat
  value : Value
  deriving Repr, DecidableEq

structure AcceptReq where
  iid : Nat
  ballot : Nat
  value : Value
  deriving Repr, DecidableEq

structure AcceptAck where
  acceptorId : Nat
  iid : Nat
  ballot : Nat
  valueBallot : Nat
  isFinal : Bool
  value : Value
  deriving Repr, DecidableEq

abbrev AcceptorRecord := AcceptAck

-- The bytes of a message: the struct as a 64-bit build lays it out, with its
-- padding, and the value behind it.
def prepareReqSize (_ : PrepareReq) : Nat := 8

def prepareAckSize (m : PrepareAck) : Nat := m.value.length + 24

def acceptReqSize (m : AcceptReq) : Nat := m.value.length + 16

def acceptAckSize (m : AcceptAck) : Nat := m.value.length + 32

-- What `sendbuf_add_prepare_ack` copies out of a record.
def AcceptAck.toPrepareAck (rec : AcceptorRecord) : PrepareAck where
  acceptorId := rec.acceptorId
  iid := rec.iid
  ballot := rec.ballot
  valueBallot := rec.valueBallot
  value := rec.value

end LibPaxos
