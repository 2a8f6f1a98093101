import LibPaxos.Deployment.Calls
import LibPaxos.Simulation
import LibPaxos.System.Terms
import LibPaxos.Wire.Malformed

namespace LibPaxos

open Wire MapStorage

-- A frame is read back as the message it was made of.
section

theorem readAcceptorMsg_prepareReq {pr : PrepareReq} (h : (Frame.prepareReq pr).Sendable) :
    readAcceptorMsg (Frame.prepareReq pr).type.code (Frame.prepareReq pr).payload =
      some (.prepare pr) := by
  have hread := readPrepareReq_bytes h.1 h.2 []
  rw [List.append_nil] at hread
  simp [readAcceptorMsg, Frame.type, Frame.payload, hread]

theorem readAcceptorMsg_acceptReq {ar : AcceptReq} (h : (Frame.acceptReq ar).Sendable) :
    readAcceptorMsg (Frame.acceptReq ar).type.code (Frame.acceptReq ar).payload =
      some (.accept ar) := by
  obtain ⟨hiid, hballot, hsize⟩ := h
  rw [acceptReqSize] at hsize
  have hread := readAcceptReq_bytes hiid hballot (show ar.value.length < 2 ^ 63 by omega) []
  rw [List.append_nil] at hread
  simp [readAcceptorMsg, Frame.type, Frame.payload, PaxosMsgCode.code, hread]

theorem readAcceptorMsg_repeatReq {iid : Nat} (h : (Frame.repeatReq iid).Sendable) :
    readAcceptorMsg (Frame.repeatReq iid).type.code (Frame.repeatReq iid).payload =
      some (.repeat iid) := by
  have hread := numberAt_toBytes 4 h []
  rw [List.append_nil] at hread
  simp [readAcceptorMsg, Frame.type, Frame.payload, PaxosMsgCode.code, hread]

theorem readAcceptAck_payload {aa : AcceptAck} {pad : List UInt8}
    (h : (Frame.acceptAck aa pad).Sendable) :
    readAcceptAck (Frame.acceptAck aa pad).payload = some aa := by
  obtain ⟨hid, hiid, hballot, hvballot, hsize, hpad⟩ := h
  rw [acceptAckSize] at hsize
  have hread := readAcceptAck_bytes hid hiid hballot hvballot
    (show aa.value.length < 2 ^ 63 by omega) hpad []
  rwa [List.append_nil] at hread

end

-- The request that a buffer starts with.
def requestAt (input : Evbuffer) : Option AcceptorReq :=
  let msg := readPaxosMsg (input.take sizeofPaxosMsg)
  readAcceptorMsg msg.type ((input.drop sizeofPaxosMsg).take msg.dataSize)

theorem requestAt_frame {f : Frame} (h : f.Sendable) (rest : List UInt8) :
    requestAt (f.bytes ++ rest) = readAcceptorMsg f.type.code f.payload := by
  have hhead : readPaxosMsg ((f.bytes ++ rest).take sizeofPaxosMsg) = f.header := by
    refine Frame.readPaxosMsg_take h (List.append_assoc f.bytes rest []) ?_
    rw [List.length_append, Frame.length_bytes]
    omega
  have htail : (f.bytes ++ rest).drop sizeofPaxosMsg = f.payload ++ rest := by
    rw [Frame.bytes, List.append_assoc, List.drop_left' (length_paxosMsgBytes f.header)]
  simp only [requestAt, hhead, htail, Frame.header, List.take_left]

variable {ι κ σ : Type}

def Peer.audience : Peer ι κ → Audience ι κ
  | .proposer p => .proposer p
  | .learner l => .learner l

-- A frame on a connection stands for a packet that was sent, and one from a client
-- for a value.
inductive Allows (T : Terms) (s : System ι κ σ) : Way ι κ → Frame → Prop
  | prepareReq (p : ι) (c : Connection ι κ) (pr : PrepareReq) (hpeer : c.peer = .proposer p)
      (hm : .prepareReq p pr ∈ s.net) : Allows T s (.up c) (.prepareReq pr)
  | acceptReq (p : ι) (c : Connection ι κ) (ar : AcceptReq) (hpeer : c.peer = .proposer p)
      (hm : .acceptReq p ar ∈ s.net) : Allows T s (.up c) (.acceptReq ar)
  | repeatReq (l : κ) (c : Connection ι κ) (iid : Nat) (hpeer : c.peer = .learner l)
      (hm : .repeatReq l iid ∈ s.net) : Allows T s (.up c) (.repeatReq iid)
  | prepareAck (p : ι) (c : Connection ι κ) (rec : AcceptorRecord) (hpeer : c.peer = .proposer p)
      (hm : .prepareAck p rec.toPrepareAck ∈ s.net) : Allows T s (.down c) (.prepareAck rec)
  | acceptAck (c : Connection ι κ) (aa : AcceptAck) (pad : List UInt8)
      (hm : .acceptAck .everyone aa ∈ s.net ∨ .acceptAck c.peer.audience aa ∈ s.net) :
      Allows T s (.down c) (.acceptAck aa pad)
  | submit (p : ι) (number : Nat) (value : Value) (hvalue : T.values value) :
      Allows T s (.client p number) (.submit value)

theorem Allows.mono {T : Terms} {s s' : System ι κ σ} {way : Way ι κ} {f : Frame}
    (h : Allows T s way f) (hnet : ∀ packet ∈ s.net, packet ∈ s'.net) :
    Allows T s' way f := by
  cases h with
  | prepareReq p c pr hpeer hm => exact .prepareReq p c pr hpeer (hnet _ hm)
  | acceptReq p c ar hpeer hm => exact .acceptReq p c ar hpeer (hnet _ hm)
  | repeatReq l c iid hpeer hm => exact .repeatReq l c iid hpeer (hnet _ hm)
  | prepareAck p c rec hpeer hm => exact .prepareAck p c rec hpeer (hnet _ hm)
  | acceptAck c aa pad hm => exact .acceptAck c aa pad (hm.imp (hnet _) (hnet _))
  | submit p number value hvalue => exact .submit p number value hvalue

-- Two states of an acceptor that no request can tell apart.
structure Logged.Alike [MapStorage σ] (x y : Logged σ) : Prop where
  wf : wf x.store
  acceptorId : acceptorId x.store = acceptorId y.store
  records : records x.store = records y.store
  saved : x.saved = y.saved

inductive TracksProposer : Except FrameFault Proposer → ProposerProc → Prop
  | live (pr : ProposerProc) (hlive : pr.halted = false) : TracksProposer (.ok pr.state) pr
  | dead (pr : ProposerProc) (fault : Fault) (hdead : pr.halted = true) :
      TracksProposer (.error (.fault fault)) pr

structure TracksAcceptor [MapStorage σ] (node : EvAcceptor (Logged σ) (Connection ι κ))
    (acceptor : Logged σ) : Prop where
  state : ∃ state, node.state = .ok state ∧ state.Alike acceptor
  bevs : ∃ list : List (Connection ι κ), node.bevs.Deque (list.map some)

structure TracksLearner (n : Nat) (node : EvLearner) (lp : LearnerProc) : Prop where
  state : node.state = lp.state.mapError .fault
  delivered : node.delivered = lp.delivered
  sized : ∀ state, lp.state = .ok state → AcksSized n state

-- The processes are those of the system, and what is on the way has been sent there.
structure Tracks [MapStorage σ] (T : Terms) (cl : Layout ι κ)
    (d : Deployment ι κ (Logged σ)) (s : System ι κ σ) : Prop where
  proposer : ∀ p, TracksProposer (d.proposers p) (s.proposers p)
  acceptor : ∀ a, TracksAcceptor (d.acceptors a) (s.acceptors a)
  learner : ∀ l, TracksLearner cl.acceptors (d.learners l) (s.learners l)
  pipe : ∀ way, (d.pipes way).Carries (Allows T s way)

section Acceptor

variable [MapStorage σ]

-- On alike states a request is answered alike.
theorem alike_receive {x y : Logged σ} (h : x.Alike y) (hwf : wf y.store)
    (req : AcceptorReq) :
    ∃ x' y' rec, acceptorReceive x req = some (x', rec) ∧ acceptorReceive y req = some (y', rec) ∧
      x'.Alike y' := by
  have hbecomes {x' y' : Logged σ} {iid : Nat} {rec : Option AcceptorRecord}
      {added : List AcceptReq} (hx : x.Becomes x' iid rec added) (hy : y.Becomes y' iid rec added) :
      x'.Alike y' := by
    refine ⟨hx.wf, ?_, ?_, ?_⟩
    · rw [hx.acceptorId, hy.acceptorId, h.acceptorId]
    · rw [hx.records, hy.records, h.records]
    · rw [hx.saved, hy.saved, h.saved]
  cases req with
  | prepare req =>
      obtain ⟨x', hx, hx'⟩ := acceptorReceivePrepare_eq x req h.wf
      obtain ⟨y', hy, hy'⟩ := acceptorReceivePrepare_eq y req hwf
      rw [h.acceptorId, h.records] at hx hx'
      exact ⟨x', y', _, by rw [acceptorReceive, hx]; rfl, by rw [acceptorReceive, hy]; rfl,
        hbecomes hx' hy'⟩
  | accept req =>
      obtain ⟨x', hx, hx'⟩ := LibPaxos.acceptorReceiveAccept_eq x req h.wf
      obtain ⟨y', hy, hy'⟩ := LibPaxos.acceptorReceiveAccept_eq y req hwf
      rw [h.acceptorId, h.records] at hx hx'
      exact ⟨x', y', _, by rw [acceptorReceive, hx]; rfl, by rw [acceptorReceive, hy]; rfl,
        hbecomes hx' hy'⟩
  | «repeat» iid =>
      obtain ⟨x', hx, hx'⟩ := acceptorReceiveRepeat_eq x iid h.wf
      obtain ⟨y', hy, hy'⟩ := acceptorReceiveRepeat_eq y iid hwf
      rw [h.records] at hx hx'
      exact ⟨x', y', _, hx, hy, hbecomes hx' hy'⟩

theorem alike_repeat {x x' y : Logged σ} (h : x.Alike y) {iid : Nat}
    {rec : Option AcceptorRecord} (hx : acceptorReceive x (.repeat iid) = some (x', rec)) :
    x'.Alike y := by
  obtain ⟨next, he, hnext⟩ := acceptorReceiveRepeat_eq x iid h.wf
  obtain ⟨rfl, _⟩ := Prod.mk.inj (Option.some.inj (he.symm.trans hx))
  refine ⟨hnext.wf, hnext.acceptorId.trans h.acceptorId, ?_, ?_⟩
  · rw [hnext.records, Function.update_eq_self, h.records]
  · rw [hnext.saved, List.append_nil, h.saved]

-- The answer to a request is among the packets the system sends for it.
def Answers (peer : Peer ι κ) (replies : List (Packet ι κ)) : AcceptorReply → Prop
  | .none => True
  | .prepareAck rec => ∃ p, peer = .proposer p ∧ .prepareAck p rec.toPrepareAck ∈ replies
  | .acceptAck rec => .acceptAck peer.audience rec ∈ replies
  | .acceptAckToAll rec => .acceptAck .everyone rec ∈ replies

-- What the handler makes of a frame is what the system makes of its packet.
structure Handles (s : System ι κ σ) (c : Connection ι κ) (state : Logged σ) (f : Frame)
    (packet : Packet ι κ) (acceptor : Logged σ) (replies : List (Packet ι κ)) (state' : Logged σ)
    (reply : AcceptorReply) : Prop where
  sent : packet ∈ s.net
  handled : handleReq (s.acceptors c.acceptor) packet = some (acceptor, replies)
  dispatched : acceptorDispatch state f.type.code f.payload = .ok (some (state', reply))
  alike : state'.Alike acceptor
  answers : Answers c.peer replies reply
  repeats : ∀ l iid, packet = .repeatReq l iid →
    readAcceptorMsg f.type.code f.payload = some (.repeat iid) ∧
      state'.Alike (s.acceptors c.acceptor)

theorem handles_frame {T : Terms} {s : System ι κ σ} {c : Connection ι κ} {f : Frame}
    {state : Logged σ} (hf : Allows T s (.up c) f) (hsend : f.Sendable)
    (halike : state.Alike (s.acceptors c.acceptor)) (hwf : wf (s.acceptors c.acceptor).store) :
    ∃ packet acceptor replies state' reply,
      Handles s c state f packet acceptor replies state' reply := by
  cases hf with
  | prepareReq p _ pr hpeer hm =>
      obtain ⟨x, y, rec, hx, hy, hxy⟩ := alike_receive halike hwf (.prepare pr)
      have hread := readAcceptorMsg_prepareReq hsend
      have hdisp := acceptorDispatch_eq state hread
      rw [hx, Option.map_some] at hdisp
      obtain ⟨⟨y', r⟩, hy', he⟩ := Option.map_eq_some_iff.mp hy
      cases he
      refine ⟨_, y, [.prepareAck p r.toPrepareAck], x, .prepareAck r, hm, ?_, hdisp, hxy,
        ⟨p, hpeer, List.mem_singleton.mpr rfl⟩, fun _ _ h => by cases h⟩
      rw [handleReq, LibPaxos.handlePrepareReq, hy']
      rfl
  | acceptReq p _ ar hpeer hm =>
      obtain ⟨x, y, rec, hx, hy, hxy⟩ := alike_receive halike hwf (.accept ar)
      have hread := readAcceptorMsg_acceptReq hsend
      have hdisp := acceptorDispatch_eq state hread
      rw [hx, Option.map_some] at hdisp
      obtain ⟨⟨y', r⟩, hy', he⟩ := Option.map_eq_some_iff.mp hy
      cases he
      refine ⟨_, y, [.acceptAck (if ar.ballot = r.ballot then .everyone else .proposer p) r], x, _,
        hm, ?_, hdisp, hxy, ?_, fun _ _ h => by cases h⟩
      · rw [handleReq, LibPaxos.handleAcceptReq, hy']
        rfl
      · by_cases hb : ar.ballot = r.ballot
        · simp [acceptorReply, hb, Answers]
        · simp [acceptorReply, hb, Answers, hpeer, Peer.audience]
  | repeatReq l _ iid hpeer hm =>
      obtain ⟨x, y, rec, hx, hy, hxy⟩ := alike_receive halike hwf (.repeat iid)
      have hread := readAcceptorMsg_repeatReq hsend
      have hdisp := acceptorDispatch_eq state hread
      rw [hx, Option.map_some] at hdisp
      have hy' : acceptorReceiveRepeat (s.acceptors c.acceptor) iid = some (y, rec) := hy
      refine ⟨_, y, rec.toList.map (.acceptAck (.learner l)), x, _, hm, ?_, hdisp, hxy, ?_, ?_⟩
      · rw [handleReq, LibPaxos.handleRepeatReq, hy']
        rfl
      · cases rec with
        | none => trivial
        | some rec => simp [acceptorReply, Answers, hpeer, Peer.audience]
      · rintro _ _ ⟨⟩
        exact ⟨hread, alike_repeat halike hx⟩

end Acceptor

-- The bounds on the packets make their frames ones that can be sent.
section

variable {limit : Nat} {cl : Layout ι κ} {s : System ι κ σ}

theorem sendable_of_record {n : Nat} (hn : n ≤ 2 ^ 31) (hlimit : limit < 2 ^ 32)
    {rec : AcceptorRecord} (h : rec.Compact n limit) :
    (Frame.prepareAck rec).Sendable ∧
      ∀ pad : Fin 6 → UInt8, (Frame.acceptAck rec (List.ofFn pad)).Sendable := by
  have hsize : acceptAckSize rec < 2 ^ 63 := by
    have := h.value
    rw [acceptAckSize]
    omega
  have hid : rec.acceptorId < 2 ^ 31 := Nat.lt_of_lt_of_le h.acceptorId hn
  exact ⟨⟨hid, h.iid, h.ballot, h.valueBallot, hsize⟩,
    fun pad => ⟨hid, h.iid, h.ballot, h.valueBallot, hsize, by simp⟩⟩

theorem compact_of_prepareAck {n : Nat} {rec rec' : AcceptorRecord}
    (he : rec.toPrepareAck = rec'.toPrepareAck) (h : rec'.Compact n limit) :
    rec.Compact n limit := by
  simp only [AcceptAck.toPrepareAck, PrepareAck.mk.injEq] at he
  obtain ⟨hid, hiid, hballot, hvballot, hvalue⟩ := he
  exact ⟨hid ▸ h.acceptorId, hiid ▸ h.iid, hballot ▸ h.ballot, hvballot ▸ h.valueBallot,
    hvalue ▸ h.value⟩

end

-- The conditions on the events of a deployment that match those on the steps of the
-- system. A proposer that handles a message has room for the window it opens and
-- for one more ballot of each instance.
def Proposer.HasRoom (window : Nat) (p : Proposer) : Prop :=
  p.nextPrepareIid + window < 2 ^ 32 ∧
    (∀ inst ∈ p.prepareInstances, MAX_N_OF_PROPOSERS + inst.ballot < 2 ^ 32) ∧
      ∀ inst ∈ p.acceptInstances, MAX_N_OF_PROPOSERS + inst.ballot < 2 ^ 32

def DeploymentEvent.NoWrap (cl : Layout ι κ) (d : Deployment ι κ σ) :
    DeploymentEvent ι κ → Prop
  | .readReply (.proposer p) _ _ _ =>
      ∀ state, d.proposers p = .ok state → state.HasRoom (cl.preexecWindow p)
  | .readSubmit p _ _ _ =>
      ∀ state, d.proposers p = .ok state → state.HasRoom (cl.preexecWindow p)
  | _ => True

-- An acceptor that answers a repeat request has accepted the value at the ballot of
-- its record.
def DeploymentEvent.RepeatsAccepted [MapStorage σ] (d : Deployment ι κ (Logged σ)) :
    DeploymentEvent ι κ → Prop
  | .readRequest c _ => ∀ state iid, (d.acceptors c.acceptor).state = .ok state →
      requestAt (d.pipes (.up c)).input = some (.repeat iid) →
        ∀ rec ∈ records state.store iid, rec.valueBallot = rec.ballot
  | _ => True

def DeploymentEvent.Submits (T : Terms) : DeploymentEvent ι κ → Prop
  | .submit _ _ value => T.values value
  | _ => True

-- No counter wraps, clients submit the values they may (which are not empty and fit a
-- record), and where that is assumed, only accepted records are repeated.
def DeploymentEvent.Regular [MapStorage σ] (T : Terms) (cl : Layout ι κ)
    (d : Deployment ι κ (Logged σ)) (e : DeploymentEvent ι κ) : Prop :=
  (e.NoWrap cl d ∧ e.Submits T) ∧ (T.repeatsAccepted → e.RepeatsAccepted d)

instance Proposer.HasRoom.decidable (window : Nat) (p : Proposer) :
    Decidable (p.HasRoom window) :=
  inferInstanceAs (Decidable (_ ∧ _ ∧ _))

def roomDecidable (window : Nat) : (node : Except FrameFault Proposer) →
    Decidable (∀ state, node = .ok state → state.HasRoom window)
  | .error _ => isTrue nofun
  | .ok state => decidable_of_iff (state.HasRoom window)
      ⟨fun h _ he => Except.ok.inj he ▸ h, fun h => h state rfl⟩

instance DeploymentEvent.NoWrap.decidable (cl : Layout ι κ) (d : Deployment ι κ σ) :
    (e : DeploymentEvent ι κ) → Decidable (e.NoWrap cl d)
  | .readReply (.proposer p) _ _ _ => roomDecidable (cl.preexecWindow p) (d.proposers p)
  | .readSubmit p _ _ _ => roomDecidable (cl.preexecWindow p) (d.proposers p)
  | .readReply (.learner _) _ _ _ => isTrue trivial
  | .arrive _ _ => isTrue trivial
  | .onAccept _ => isTrue trivial
  | .onError _ _ => isTrue trivial
  | .onSocketEvent _ _ => isTrue trivial
  | .readRequest _ _ => isTrue trivial
  | .submit _ _ _ => isTrue trivial
  | .checkTimeouts _ _ => isTrue trivial
  | .checkHoles _ => isTrue trivial
  | .crash _ => isTrue trivial
  | .crashAfterCommit _ => isTrue trivial

instance DeploymentEvent.Submits.decidable (T : Terms) [DecidablePred T.values] :
    (e : DeploymentEvent ι κ) → Decidable (e.Submits T)
  | .submit _ _ value => inferInstanceAs (Decidable (T.values value))
  | .readSubmit _ _ _ _ => isTrue trivial
  | .readReply _ _ _ _ => isTrue trivial
  | .arrive _ _ => isTrue trivial
  | .onAccept _ => isTrue trivial
  | .onError _ _ => isTrue trivial
  | .onSocketEvent _ _ => isTrue trivial
  | .readRequest _ _ => isTrue trivial
  | .checkTimeouts _ _ => isTrue trivial
  | .checkHoles _ => isTrue trivial
  | .crash _ => isTrue trivial
  | .crashAfterCommit _ => isTrue trivial

section

variable [MapStorage σ]

def repeatsDecidable (node : Except FrameFault (Logged σ)) (req : Option AcceptorReq) :
    Decidable (∀ state iid, node = .ok state → req = some (.repeat iid) →
      ∀ rec ∈ records state.store iid, rec.valueBallot = rec.ballot) :=
  match node, req with
  | .ok state, some (.repeat iid) =>
      have : Decidable (∀ rec ∈ records state.store iid, rec.valueBallot = rec.ballot) :=
        Option.decidableForallMem _
      decidable_of_iff (∀ rec ∈ records state.store iid, rec.valueBallot = rec.ballot) (by
        constructor
        · rintro h _ _ ⟨⟩ ⟨⟩
          exact h
        · exact fun h => h state iid rfl rfl)
  | .error _, _ => isTrue nofun
  | .ok _, none => isTrue nofun
  | .ok _, some (.prepare _) => isTrue nofun
  | .ok _, some (.accept _) => isTrue nofun

instance DeploymentEvent.RepeatsAccepted.decidable (d : Deployment ι κ (Logged σ)) :
    (e : DeploymentEvent ι κ) → Decidable (e.RepeatsAccepted d)
  | .readRequest c _ => repeatsDecidable (d.acceptors c.acceptor).state
      (requestAt (d.pipes (.up c)).input)
  | .submit _ _ _ => isTrue trivial
  | .readSubmit _ _ _ _ => isTrue trivial
  | .readReply _ _ _ _ => isTrue trivial
  | .arrive _ _ => isTrue trivial
  | .onAccept _ => isTrue trivial
  | .onError _ _ => isTrue trivial
  | .onSocketEvent _ _ => isTrue trivial
  | .checkTimeouts _ _ => isTrue trivial
  | .checkHoles _ => isTrue trivial
  | .crash _ => isTrue trivial
  | .crashAfterCommit _ => isTrue trivial

instance DeploymentEvent.Regular.decidable (T : Terms) [DecidablePred T.values]
    [Decidable T.repeatsAccepted] (cl : Layout ι κ) (d : Deployment ι κ (Logged σ))
    (e : DeploymentEvent ι κ) : Decidable (e.Regular T cl d) :=
  inferInstanceAs (Decidable ((_ ∧ _) ∧ (_ → _)))

end

variable [DecidableEq ι] [DecidableEq κ]

section

variable [MapStorage σ] {T : Terms} {cl : Layout ι κ} {d : Deployment ι κ (Logged σ)}
  {s : System ι κ σ}

omit [DecidableEq ι] [DecidableEq κ] in
theorem Tracks.setPipes (h : Tracks T cl d s) {pipes : Way ι κ → Pipe}
    (hpipes : ∀ way, (pipes way).Carries (Allows T s way)) :
    Tracks T cl { d with pipes := pipes } s :=
  ⟨h.proposer, h.acceptor, h.learner, hpipes⟩

theorem Tracks.write (h : Tracks T cl d s) {way : Way ι κ} {f : Frame}
    (hsend : f.Sendable) (hf : Allows T s way f) : Tracks T cl (d.write way f) s :=
  h.setPipes (Deployment.carries_write h.pipe hsend hf)

-- The answer goes to the connection of the request, or to all of them.
theorem Tracks.reply (h : Tracks T cl d s) (hn : cl.acceptors ≤ 2 ^ 31)
    (hcompact : Compact MAX_CLIENT_VALUE cl.toCluster s) {c : Connection ι κ}
    {replies : List (Packet ι κ)} (hnet : ∀ packet ∈ replies, packet ∈ s.net)
    {reply : AcceptorReply} (ha : Answers c.peer replies reply) (pad : Fin 6 → UInt8) :
    Tracks T cl (d.reply c (List.ofFn pad) reply) s := by
  cases reply with
  | none => exact h
  | prepareAck rec =>
      obtain ⟨p, hpeer, hm⟩ := ha
      obtain ⟨rec', he, hrec⟩ := hcompact.net _ (hnet _ hm)
      exact h.write (sendable_of_record hn (by decide) (compact_of_prepareAck he hrec)).1
        (.prepareAck p c rec hpeer (hnet _ hm))
  | acceptAck rec =>
      have hm := hnet _ ha
      exact h.write ((sendable_of_record hn (by decide) (hcompact.net _ hm)).2 pad)
        (.acceptAck c rec _ (.inr hm))
  | acceptAckToAll rec =>
      have hm := hnet _ ha
      obtain ⟨list, hlist⟩ := (h.acceptor c.acceptor).bevs
      obtain ⟨pipes, he, hpipes⟩ := Deployment.sendToBevs_eq h.pipe hlist
        ((sendable_of_record hn (by decide) (hcompact.net _ hm)).2 pad)
        fun c _ => .acceptAck c rec _ (.inl hm)
      rw [Deployment.reply, he]
      exact h.setPipes hpipes

-- The acceptor and its input buffer move on.
theorem Tracks.handled (h : Tracks T cl d s) {c : Connection ι κ} {state' : Logged σ}
    {acceptor : Logged σ} (replies : List (Packet ι κ)) (halike : state'.Alike acceptor)
    {rest : Evbuffer}
    (hrest : Pipe.Carries (Allows T s (.up c)) { d.pipes (.up c) with input := rest }) :
    Tracks T cl ((d.setInput (.up c) rest).setAcceptor c.acceptor (.ok state'))
      { s with
        acceptors := Function.update s.acceptors c.acceptor acceptor
        net := s.net ++ replies } := by
  have hmono {way : Way ι κ} (f : Frame) (hf : Allows T s way f) : Allows T
      { s with
        acceptors := Function.update s.acceptors c.acceptor acceptor
        net := s.net ++ replies } way f :=
    hf.mono fun _ hm => List.mem_append_left _ hm
  refine ⟨h.proposer, fun a => ?_, h.learner,
    Deployment.carries_update (fun way => (h.pipe way).mono hmono) (hrest.mono hmono)⟩
  dsimp only [Deployment.setAcceptor, Deployment.setInput]
  by_cases ha : a = c.acceptor
  · subst ha
    rw [Function.update_self, Function.update_self]
    exact ⟨⟨state', rfl, halike⟩, (h.acceptor c.acceptor).bevs⟩
  · rw [Function.update_of_ne ha, Function.update_of_ne ha]
    exact h.acceptor a

end

section

variable [MapStorage σ] {cl : Layout ι κ} {d : Deployment ι κ (Logged σ)}
  {s : System ι κ σ} {T : Terms}

omit [DecidableEq ι] [DecidableEq κ] in
theorem handleRequest_cases {T : Terms} (h : Tracks T cl d s)
    (hvoter : ∀ a, Voter a (s.acceptors a)) {c : Connection ι κ}
    {result : Except FrameFault (Option (Logged σ × AcceptorReply))} {input : Evbuffer}
    (hr : d.handleRequest cl c = some (result, input)) :
    c.acceptor < cl.acceptors ∧
    Pipe.Carries (Allows T s (.up c)) { d.pipes (.up c) with input := input } ∧
    ∃ state, (d.acceptors c.acceptor).state = .ok state ∧ state.Alike (s.acceptors c.acceptor) ∧
      (result = .ok (some (state, .none)) ∨
        ∃ f packet acceptor replies state' reply,
          Handles s c state f packet acceptor replies state' reply ∧
            result = .ok (some (state', reply)) ∧
            requestAt (d.pipes (.up c)).input = readAcceptorMsg f.type.code f.payload) := by
  obtain ⟨state, hstate, halike⟩ := (h.acceptor c.acceptor).state
  unfold Deployment.handleRequest at hr
  rw [hstate] at hr
  dsimp only at hr
  split_ifs at hr with hg
  obtain ⟨ha, _, hready⟩ := hg
  obtain ⟨f, rest, hsend, hf, hinput, hrest⟩ := (h.pipe (.up c)).read hready
  rw [hinput, handleMsg_frame _ hsend] at hr
  obtain ⟨rfl, rfl⟩ := Prod.mk.inj (Option.some.inj hr)
  refine ⟨ha, hrest, state, hstate, halike, ?_⟩
  unfold receiveFrame
  split
  · obtain ⟨packet, acceptor, replies, state', reply, hh⟩ :=
      handles_frame hf hsend halike (hvoter c.acceptor).wf
    refine .inr ⟨f, packet, acceptor, replies, state', reply, hh, hh.dispatched, ?_⟩
    rw [hinput, requestAt_frame hsend]
  · exact .inl rfl

-- The system handles the packet of the frame, or nothing if the frame is too large.
theorem Handles.step {c : Connection ι κ} {state state' : Logged σ} {f : Frame}
    {packet : Packet ι κ} {acceptor : Logged σ} {replies : List (Packet ι κ)}
    {reply : AcceptorReply} (hh : Handles s c state f packet acceptor replies state' reply)
    (ha : c.acceptor < cl.acceptors)
    (hrep : ∀ l iid, packet = .repeatReq l iid → T.repeatsAccepted →
      ∀ rec ∈ records (s.acceptors c.acceptor).store iid, rec.valueBallot = rec.ballot) :
    (paxos σ cl.toCluster).Reaches (Event.Matching T) s
      { s with
        acceptors := Function.update s.acceptors c.acceptor acceptor
        net := s.net ++ replies } := by
  refine .one (e := .handle c.acceptor packet) ⟨⟨⟨trivial, trivial⟩, trivial⟩, fun hR => ?_⟩
    (Steps.handle c.acceptor packet acceptor replies ha hh.sent hh.handled).enabled
  cases packet with
  | repeatReq l iid => exact hrep l iid rfl hR
  | _ => trivial

theorem Tracks.readRequest (h : Tracks T cl d s)
    (hr : (paxos σ cl.toCluster).Reachable (Event.Matching T) s) (hn : cl.acceptors ≤ 2 ^ 31)
    {c : Connection ι κ} {pad : Fin 6 → UInt8} {d' : Deployment ι κ (Logged σ)}
    (hrep : T.repeatsAccepted → (DeploymentEvent.readRequest c pad).RepeatsAccepted d)
    (hstep : d.readRequest cl c pad = some d') :
    ∃ s', (paxos σ cl.toCluster).Reaches (Event.Matching T) s s' ∧
      Tracks T cl d' s' := by
  have hhonest := Honest.of_reachable hr
  unfold Deployment.readRequest at hstep
  cases hreq : d.handleRequest cl c with
  | none =>
      rw [hreq] at hstep
      cases hstep
  | some r =>
      obtain ⟨ha, hrest, state, hstate, halike, hcase⟩ := handleRequest_cases h hhonest.voter hreq
      rcases hcase with hlarge | ⟨f, packet, acceptor, replies, state', reply, hh, hok, hat⟩
      · obtain ⟨result, input⟩ := r
        cases hlarge
        rw [hreq] at hstep
        cases hstep
        have hquiet := h.handled [] halike hrest
        rw [Function.update_eq_self, List.append_nil] at hquiet
        exact ⟨s, .refl s, hquiet⟩
      · obtain ⟨result, input⟩ := r
        cases hok
        rw [hreq] at hstep
        cases hstep
        have hreach := hh.step ha fun l iid he hR => by
          rw [← halike.records]
          exact hrep hR state iid hstate (hat.trans (hh.repeats l iid he).1)
        refine ⟨_, hreach, (h.handled replies hh.alike hrest).reply hn
          (.of_matching (hr.reaches hreach)) (fun _ hm => List.mem_append_right _ hm)
          hh.answers pad⟩

end

section Crash

variable [DurableMap σ] {cl : Layout ι κ} {d : Deployment ι κ (Logged σ)} {s : System ι κ σ}
  {T : Terms}

theorem alike_reopen {x y : Logged σ} (h : x.Alike y) :
    (DurableStorage.storageReopen x).Alike y := by
  obtain ⟨hwf, hid, hrec⟩ := DurableMap.reopen_eq x.store h.wf
  exact ⟨hwf, hid.trans h.acceptorId, hrec.trans h.records, h.saved⟩

omit [DecidableEq ι] [DecidableEq κ] in
-- A new process finds the records of the last one. Connections are lost.
theorem Tracks.restartAcceptor {T : Terms} (h : Tracks T cl d s) {a : Nat}
    {state acceptor : Logged σ} (halike : state.Alike acceptor) (replies : List (Packet ι κ)) :
    Tracks T cl (d.restartAcceptor a state)
      { s with
        acceptors := Function.update s.acceptors a acceptor
        net := s.net ++ replies } := by
  refine ⟨h.proposer, fun b => ?_, h.learner, fun way => (h.pipe way).mono fun f hf =>
    hf.mono fun _ hm => List.mem_append_left _ hm⟩
  dsimp only [Deployment.restartAcceptor]
  by_cases hb : b = a
  · subst hb
    rw [Function.update_self, Function.update_self]
    exact ⟨⟨_, rfl, alike_reopen halike⟩, [], .new (by decide)⟩
  · rw [Function.update_of_ne hb, Function.update_of_ne hb]
    exact h.acceptor b

omit [DecidableEq ι] [DecidableEq κ] in
theorem Tracks.crash {T : Terms} (h : Tracks T cl d s) {a : Nat}
    {d' : Deployment ι κ (Logged σ)} (hstep : d.crash a = some d') : Tracks T cl d' s := by
  obtain ⟨state, hstate, halike⟩ := (h.acceptor a).state
  rw [Deployment.crash, hstate] at hstep
  cases hstep
  have hnew := h.restartAcceptor (a := a) halike []
  rwa [Function.update_eq_self, List.append_nil] at hnew

-- The system handles the packet, and its answer is never read. A repeat request
-- changes nothing, so the system need not handle it.
theorem Tracks.crashAfterCommit (h : Tracks T cl d s)
    (hr : (paxos σ cl.toCluster).Reachable (Event.Matching T) s) {c : Connection ι κ}
    {d' : Deployment ι κ (Logged σ)} (hstep : d.crashAfterCommit cl c = some d') :
    ∃ s', (paxos σ cl.toCluster).Reaches (Event.Matching T) s s' ∧
      Tracks T cl d' s' := by
  have hhonest := Honest.of_reachable hr
  have hquiet {state : Logged σ} (halike : state.Alike (s.acceptors c.acceptor)) :
      Tracks T cl (d.restartAcceptor c.acceptor state) s := by
    have hnew := h.restartAcceptor (a := c.acceptor) halike []
    rwa [Function.update_eq_self, List.append_nil] at hnew
  unfold Deployment.crashAfterCommit at hstep
  cases hreq : d.handleRequest cl c with
  | none =>
      rw [hreq] at hstep
      cases hstep
  | some r =>
      obtain ⟨ha, hrest, state, hstate, halike, hcase⟩ := handleRequest_cases h hhonest.voter hreq
      obtain ⟨result, input⟩ := r
      rcases hcase with hlarge | ⟨f, packet, acceptor, replies, state', reply, hh, hok, hat⟩
      · cases hlarge
        rw [hreq] at hstep
        cases hstep
        exact ⟨s, .refl s, hquiet halike⟩
      · cases hok
        rw [hreq] at hstep
        cases hstep
        by_cases hrepeat : ∃ l iid, packet = .repeatReq l iid
        · obtain ⟨l, iid, he⟩ := hrepeat
          exact ⟨s, .refl s, hquiet (hh.repeats l iid he).2⟩
        · exact ⟨_, hh.step ha fun l iid he _ => absurd ⟨l, iid, he⟩ hrepeat,
            h.restartAcceptor hh.alike replies⟩

end Crash

end LibPaxos
