import LibPaxos.Storage.Bdb
import LibPaxos.Wire.Refinement

namespace LibPaxos.Wire

section Proposer

-- A proposer is driven by its calls and by whatever frames arrive. A handler that
-- goes wrong has no next state.
inductive ProposerEvent where
  | call (c : ProposerCall)
  | frame (env : ProposerEnv) (type : Nat) (payload : List UInt8)

def proposerEvents (cfg : PaxosConfig) (id n : Nat) : TransitionSystem Proposer ProposerEvent where
  init := proposerNew id n
  step p
    | .call c => (proposerCall cfg p c).toOption.map Prod.fst
    | .frame env type payload => (proposerDispatch env p type payload).toOption.map Prod.fst

theorem FlagsSized.move {n : Nat} {p p' : Proposer} {c : ProposerCall} {out : ProposerOutput}
    (h : FlagsSized n p) (hm : Move p c p' out) : FlagsSized n p' := by
  have hacceptors : p'.acceptors = n := by
    rw [← h.acceptors]
    cases hm <;> rfl
  have hpending := hm.pending h.acceptors h.preparing h.accepting
  exact ⟨hacceptors, hpending.1, hpending.2⟩

theorem quorumAdd_pending {n : Nat} {inst : Instance} (h : inst.Pending n) {id : Nat}
    {quorum : Quorum} {added : Bool} (hadd : quorumAdd inst.quorum id = .ok (quorum, added)) :
    ({ inst with quorum := quorum } : Instance).Pending n := by
  rw [quorumAdd] at hadd
  cases hq : LibPaxos.quorumAdd inst.quorum id with
  | error fault =>
      rw [hq] at hadd
      cases hadd
  | ok r =>
      rw [hq] at hadd
      cases hadd
      exact ⟨h.1, quorumAdd_sized h.2 hq⟩

theorem promiseValue_pending {n : Nat} {values values' : List Value} {inst inst' : Instance}
    {buffer : List UInt8} (h : inst.Pending n)
    (hr : promiseValue values inst buffer = .ok (values', inst')) : inst'.Pending n := by
  obtain ⟨size, -, hr⟩ := except_bind_ok hr
  split at hr
  · split at hr
    · obtain ⟨valueBallot, -, hr⟩ := except_bind_ok hr
      obtain ⟨value, -, hr⟩ := except_bind_ok hr
      cases hr
      exact h
    · obtain ⟨valueBallot, -, hr⟩ := except_bind_ok hr
      split at hr
      · obtain ⟨value, -, hr⟩ := except_bind_ok hr
        cases hr
        exact h
      · cases hr
        exact h
  · cases hr
    exact h

theorem forall_mem_instanceWrite {P : Instance → Prop} {c : List Instance} {iid : Nat}
    {new : Instance} (h : ∀ inst ∈ c, P inst) (hnew : P new) :
    ∀ inst ∈ instanceWrite c iid new, P inst := by
  induction c with
  | nil => exact h
  | cons item rest ih =>
      obtain ⟨hitem, hrest⟩ := List.forall_mem_cons.mp h
      rw [instanceWrite]
      split
      · exact List.forall_mem_cons.mpr ⟨hnew, hrest⟩
      · exact List.forall_mem_cons.mpr ⟨hitem, ih hrest⟩

theorem FlagsSized.prepareAck {n : Nat} {p p' : Proposer} (h : FlagsSized n p)
    {buffer : List UInt8} {now : Timeval} {out : Option PrepareReq}
    (hr : proposerReceivePrepareAck p buffer now = .ok (p', out)) : FlagsSized n p' := by
  obtain ⟨iid, -, hr⟩ := except_bind_ok hr
  split at hr
  · cases hr
    exact h
  · rename_i inst hfind
    have hinst := h.preparing inst (instanceFind_mem hfind)
    obtain ⟨ballot, -, hr⟩ := except_bind_ok hr
    split at hr
    · cases hr
      exact h
    · split at hr
      · obtain ⟨acceptorId, -, hr⟩ := except_bind_ok hr
        obtain ⟨⟨quorum, added⟩, hadd, hr⟩ := except_bind_ok hr
        cases added with
        | false =>
            cases hr
            exact h
        | true =>
            obtain ⟨⟨values, inst'⟩, hvalue, hr⟩ := except_bind_ok hr
            cases hr
            have hnew := promiseValue_pending (quorumAdd_pending hinst hadd) hvalue
            exact ⟨h.acceptors, forall_mem_instanceWrite h.preparing hnew, h.accepting⟩
      · cases hr
        have hnew : (preparePreempt p inst now).1.Pending n := ⟨hinst.1, quorumClear_sized hinst.2⟩
        exact ⟨h.acceptors, forall_mem_instanceWrite h.preparing hnew, h.accepting⟩

theorem FlagsSized.acceptAck {n : Nat} {p p' : Proposer} (h : FlagsSized n p)
    {buffer : List UInt8} {now : Timeval} {result : AcceptAckResult}
    (hr : proposerReceiveAcceptAck p buffer now = .ok (p', result)) : FlagsSized n p' := by
  obtain ⟨iid, -, hr⟩ := except_bind_ok hr
  split at hr
  · cases hr
    exact h
  · rename_i inst hfind
    have hinst := h.accepting inst (instanceFind_mem hfind)
    have hremove (inst : Instance) : ∀ item ∈ instanceRemove p.acceptInstances inst,
        item.Pending n := fun item hi => h.accepting item (mem_instanceRemove.mp hi).1
    obtain ⟨ballot, -, hr⟩ := except_bind_ok hr
    split at hr
    · obtain ⟨valueBallot, -, hr⟩ := except_bind_ok hr
      split at hr
      · cases hr
      · obtain ⟨acceptorId, -, hr⟩ := except_bind_ok hr
        obtain ⟨⟨quorum, added⟩, hadd, hr⟩ := except_bind_ok hr
        cases added with
        | false =>
            cases hr
            exact h
        | true =>
            dsimp only at hr
            split at hr
            · cases hr
              exact ⟨h.acceptors, h.preparing, hremove _⟩
            · cases hr
              exact ⟨h.acceptors, h.preparing,
                forall_mem_instanceWrite h.accepting (quorumAdd_pending hinst hadd)⟩
    · cases hr
      have hnew : (preparePreempt p inst now).1.Pending n := ⟨hinst.1, quorumClear_sized hinst.2⟩
      exact ⟨h.acceptors, List.forall_mem_cons.mpr ⟨hnew, h.preparing⟩, hremove _⟩

theorem FlagsSized.tryAcceptAll {n : Nat} {p : Proposer} (h : FlagsSized n p) :
    FlagsSized n (Wire.tryAcceptAll p).1 := by
  fun_induction Wire.tryAcceptAll p with
  | case1 p p' hnone =>
      have hm := proposerAccept_move fun inst hi => (h.preparing inst hi).1
      rw [hnone] at hm
      exact h.move hm
  | case2 p p' ar hsome q sent hq ih =>
      have hm := proposerAccept_move fun inst hi => (h.preparing inst hi).1
      rw [hsome] at hm
      have hrest := ih (h.move hm)
      rw [hq] at hrest
      exact hrest

theorem FlagsSized.preexecute {n : Nat} {p : Proposer} (h : FlagsSized n p) (env : ProposerEnv) :
    FlagsSized n (proposerPreexecute env p).1 := by
  have hfold (rounds : List Nat) (t : Proposer × List PrepareReq) (h : FlagsSized n t.1) :
      FlagsSized n (rounds.foldl (preexecuteOne env) t).1 := by
    induction rounds generalizing t with
    | nil => exact h
    | cons i rounds ih => exact ih _ (h.move (.prepare (env.junk i) env.now))
  exact hfold _ (p, []) h

theorem FlagsSized.tryAccept {n : Nat} {p : Proposer} (h : FlagsSized n p) (env : ProposerEnv)
    (out : Option PrepareReq) : FlagsSized n (Wire.tryAccept env p out).1 :=
  h.tryAcceptAll.preexecute env

-- Whatever the payload holds: a handler that returns has kept the arrays as long as
-- they were.
theorem FlagsSized.dispatch {n : Nat} {p p' : Proposer} (h : FlagsSized n p) {env : ProposerEnv}
    {type : Nat} {payload : List UInt8} {sent : ProposerSent}
    (hr : proposerDispatch env p type payload = .ok (p', sent)) : FlagsSized n p' := by
  rw [proposerDispatch] at hr
  split_ifs at hr
  · obtain ⟨⟨mid, out⟩, hack, hr⟩ := except_bind_ok hr
    have hmid := (h.prepareAck hack).tryAccept env out
    cases hr
    exact hmid
  · obtain ⟨⟨mid, result⟩, hack, hr⟩ := except_bind_ok hr
    have hmid := (h.acceptAck hack).tryAccept env (AcceptAckResult.request result)
    cases hr
    exact hmid
  · have hmid := (h.move (.propose payload)).tryAccept env none
    cases hr
    exact hmid
  · cases hr
    exact h

theorem FlagsSized.reachable {cfg : PaxosConfig} {id n : Nat}
    {guard : Proposer → ProposerEvent → Prop} {p : Proposer}
    (h : (proposerEvents cfg id n).Reachable guard p) : FlagsSized n p := by
  refine h.invariant (FlagsSized n) ?_ ?_
  · exact ⟨rfl, by simp [proposerEvents, proposerNew], by simp [proposerEvents, proposerNew]⟩
  · intro p e p' _ hinv _ hstep
    cases e with
    | call c =>
        simp only [proposerEvents] at hstep
        cases hcall : proposerCall cfg p c with
        | error fault =>
            rw [hcall] at hstep
            cases hstep
        | ok r =>
            rw [hcall] at hstep
            cases hstep
            exact hinv.move (proposerCall_move (fun inst hi => (hinv.preparing inst hi).1) hcall)
    | frame env type payload =>
        simp only [proposerEvents] at hstep
        cases hr : proposerDispatch env p type payload with
        | error fault =>
            rw [hr] at hstep
            cases hstep
        | ok r =>
            rw [hr] at hstep
            cases hstep
            exact hinv.dispatch hr

end Proposer

section Learner

structure LearnerFrame where
  fuel : Nat
  type : Nat
  payload : List UInt8

-- Whatever frames arrive, from a new learner on.
def learnerEvents (l : Learner) : TransitionSystem Learner LearnerFrame where
  init := l
  step l f := ((learnerDispatch f.fuel l f.type f.payload).toOption.bind id).map Prod.fst

theorem AcksSized.write {n : Nat} {l : Learner} (h : AcksSized n l) (iid : Nat)
    {inst : LearnerInstance} (hinst : inst.acks.length = n) :
    AcksSized n (learnerWriteInstance l iid inst) :=
  ⟨⟨h.sized.quorum, h.sized.acceptors⟩, forall_slots_write h.slots iid hinst⟩

theorem AcksSized.noteClosed {n : Nat} {l : Learner} (h : AcksSized n l) (iid : Nat)
    {inst : LearnerInstance} (hinst : inst.acks.length = n) :
    AcksSized n (learnerNoteClosed l iid inst) := by
  obtain ⟨closed, he⟩ := learnerNoteClosed_eq l iid inst
  have hw : AcksSized n (learnerWriteInstance l iid (instanceHasQuorum l inst).1) := by
    apply h.write
    rw [instanceHasQuorum_acks, hinst]
  rw [he]
  exact ⟨⟨hw.sized.quorum, hw.sized.acceptors⟩, hw.slots⟩

theorem AcksSized.deliver {n : Nat} {l l' : Learner} (h : AcksSized n l) {out : Option AcceptAck}
    (hr : learnerDeliverNext l = .ok (l', out)) : AcksSized n l' := by
  obtain ⟨inst, hget, hr⟩ := except_bind_ok hr
  have hkeep := instanceHasQuorum_acks l inst
  rcases hq : instanceHasQuorum l inst with ⟨tested, closed⟩
  rw [hq] at hr hkeep
  cases closed with
  | false =>
      cases hr
      exact h
  | true =>
      dsimp only at hr
      split at hr
      · cases hr
      · cases hr
        have hlen : tested.acks.length = n := by rw [hkeep, h.get hget]
        have hfree : (learnerInstanceNew n).acks.length = n := by simp [learnerInstanceNew]
        have hw := h.write l.currentIid hfree
        rw [h.sized.acceptors, instanceClear_eq hlen]
        exact ⟨⟨hw.sized.quorum, hw.sized.acceptors⟩, hw.slots⟩

theorem AcksSized.new {cfg : PaxosConfig} {n : Nat} {l : Learner} (h : learnerNew cfg n = .ok l) :
    AcksSized n l := by
  obtain ⟨hsized, hslots⟩ := learnerNew_slots h
  exact ⟨hsized, fun inst hm => by rw [hslots inst hm]; simp [learnerInstanceNew]⟩

theorem instanceAddAccept_acks {inst inst' : LearnerInstance} {buffer : List UInt8}
    (h : instanceAddAccept inst buffer = .ok inst') : inst'.acks.length = inst.acks.length := by
  obtain ⟨size, -, h⟩ := except_bind_ok h
  obtain ⟨bytes, -, h⟩ := except_bind_ok h
  split at h
  · cases h
  · cases h
    simp [LibPaxos.instanceAddAccept]

theorem updateInstance_acks {l : Learner} {inst inst' : LearnerInstance} {buffer : List UInt8}
    (h : updateInstance l inst buffer = .ok inst') : inst'.acks.length = inst.acks.length := by
  obtain ⟨claimed, hclaim, h⟩ := except_bind_ok h
  have hacks : claimed.acks = inst.acks := by
    rw [claimInstance] at hclaim
    split at hclaim
    · obtain ⟨iid, -, hclaim⟩ := except_bind_ok hclaim
      obtain ⟨ballot, -, hclaim⟩ := except_bind_ok hclaim
      cases hclaim
      rfl
    · cases hclaim
      rfl
  obtain ⟨iid, -, h⟩ := except_bind_ok h
  split at h
  · cases h
  · have hkeep := instanceHasQuorum_acks l claimed
    split at h
    · rename_i tested hq
      cases h
      rw [hq] at hkeep
      rw [hkeep, hacks]
    · rename_i tested hq
      rw [hq] at hkeep
      have htested : tested.acks = inst.acks := hkeep.trans hacks
      obtain ⟨acceptorId, -, h⟩ := except_bind_ok h
      split at h
      · cases h
      · rw [instanceAddAccept_acks h, htested]
      · obtain ⟨ballot, -, h⟩ := except_bind_ok h
        split at h
        · cases h
          rw [htested]
        · rw [instanceAddAccept_acks h, htested]

theorem mapError_ok {ε δ α : Type} {g : ε → δ} {x : Except ε α} {a : α}
    (h : x.mapError g = .ok a) : x = .ok a := by
  cases x with
  | error e => cases h
  | ok b =>
      cases h
      rfl

theorem AcksSized.receive {n : Nat} {l l' : Learner} (h : AcksSized n l) {buffer : List UInt8}
    (hr : learnerReceiveAccept l buffer = .ok l') : AcksSized n l' := by
  obtain ⟨iid, -, hr⟩ := except_bind_ok hr
  have harr := h.arrive iid
  dsimp only at hr
  split at hr
  · cases hr
    exact harr
  · split at hr
    · cases hr
      exact harr
    · obtain ⟨mid, hupd, hr⟩ := except_bind_ok hr
      obtain ⟨inst, hget, hr⟩ := except_bind_ok hr
      obtain ⟨iid', -, hupd⟩ := except_bind_ok hupd
      obtain ⟨old, hold, hupd⟩ := except_bind_ok hupd
      obtain ⟨new, hnew, hupd⟩ := except_bind_ok hupd
      have hlen : new.acks.length = n := by
        rw [updateInstance_acks hnew, harr.get (mapError_ok hold)]
      have hmid : AcksSized n mid := Except.ok.inj hupd ▸ harr.write iid' hlen
      exact Except.ok.inj hr ▸ hmid.noteClosed iid (hmid.get (mapError_ok hget))

theorem AcksSized.deliverAll {n : Nat} (fuel : Nat) {l l' : Learner} (h : AcksSized n l)
    {delivered : List AcceptAck}
    (hr : learnerDeliverNextClosed fuel l = .ok (some (l', delivered))) : AcksSized n l' := by
  induction fuel generalizing l delivered with
  | zero => cases hr
  | succ fuel ih =>
      obtain ⟨⟨mid, out⟩, hnext, hr⟩ := except_bind_ok hr
      have hmid := h.deliver hnext
      cases out with
      | none =>
          cases hr
          exact hmid
      | some ack =>
          obtain ⟨rest, hrest, hr⟩ := except_bind_ok hr
          cases rest with
          | none => cases hr
          | some r =>
              cases hr
              exact ih hmid hrest

theorem AcksSized.dispatch {n fuel type : Nat} {l l' : Learner} (h : AcksSized n l)
    {payload : List UInt8} {delivered : List AcceptAck}
    (hr : learnerDispatch fuel l type payload = .ok (some (l', delivered))) : AcksSized n l' := by
  rw [learnerDispatch] at hr
  split at hr
  · obtain ⟨mid, hmid, hr⟩ := except_bind_ok hr
    exact (h.receive hmid).deliverAll fuel (mapError_ok hr)
  · cases hr
    exact h

theorem AcksSized.reachable {cfg : PaxosConfig} {n : Nat} {l₀ l : Learner}
    (hnew : learnerNew cfg n = .ok l₀) {guard : Learner → LearnerFrame → Prop}
    (h : (learnerEvents l₀).Reachable guard l) : AcksSized n l := by
  refine h.invariant (AcksSized n) (AcksSized.new hnew) ?_
  intro l f l' _ hinv _ hstep
  simp only [learnerEvents] at hstep
  cases hr : learnerDispatch f.fuel l f.type f.payload with
  | error fault =>
      rw [hr] at hstep
      cases hstep
  | ok r =>
      rw [hr] at hstep
      cases r with
      | none => cases hstep
      | some r =>
          cases hstep
          exact hinv.dispatch hr

end Learner

-- Nothing was read outside of the payload, and no acceptor id was used as an index
-- outside of its array.
def InRange {α : Type} (r : Except FrameFault α) : Prop :=
  r ≠ .error .outsidePayload ∧ r ≠ .error .acceptorIndex

theorem inRange_mapError {α : Type} (x : Except Fault α) : InRange (x.mapError .fault) := by
  cases x <;> exact ⟨nofun, nofun⟩

theorem inRange_ok {α : Type} (x : α) : InRange (.ok x) := ⟨nofun, nofun⟩

def readLearnerMsg (type : Nat) (buffer : List UInt8) : Option AcceptAck :=
  if type = PaxosMsgCode.acceptAcks.code then readAcceptAck buffer else none

-- What the senders write is a whole message of its type.
theorem whole_of_sendable {f : Frame} (h : f.Sendable) :
    (readAcceptorMsg f.type.code f.payload).isSome ∨
      (readProposerMsg f.type.code f.payload).isSome := by
  cases f with
  | prepareReq pr =>
      have hread := readPrepareReq_bytes h.1 h.2 []
      rw [List.append_nil] at hread
      simp [readAcceptorMsg, Frame.type, Frame.payload, hread]
  | prepareAck rec =>
      simp [readProposerMsg, Frame.type, Frame.readPrepareAck_payload h]
  | acceptReq ar =>
      obtain ⟨hiid, hballot, hsize⟩ := h
      rw [acceptReqSize] at hsize
      have hread := readAcceptReq_bytes hiid hballot (show ar.value.length < 2 ^ 63 by omega) []
      rw [List.append_nil] at hread
      simp [readAcceptorMsg, Frame.type, Frame.payload, PaxosMsgCode.code, hread]
  | acceptAck aa pad =>
      obtain ⟨hid, hiid, hballot, hvballot, hsize, hpad⟩ := h
      rw [acceptAckSize] at hsize
      have hread := readAcceptAck_bytes hid hiid hballot hvballot
        (show aa.value.length < 2 ^ 63 by omega) hpad []
      rw [List.append_nil] at hread
      simp [readProposerMsg, Frame.type, Frame.payload, PaxosMsgCode.code, hread]
  | repeatReq iid =>
      have hread := numberAt_toBytes 4 h []
      rw [List.append_nil] at hread
      simp [readAcceptorMsg, Frame.type, Frame.payload, PaxosMsgCode.code, hread]
  | submit value => simp [readProposerMsg, Frame.type, Frame.payload, PaxosMsgCode.code]

-- Nothing but the outer length of a frame is checked. A payload that holds a whole
-- message, from one of the acceptors where it says so, is handled within it and as
-- that message. A type that is not expected is dropped.
theorem whole_messages_in_range (n type : Nat) (payload : List UInt8)
    (hlen : payload.length ≤ PAXOS_MAX_VALUE_SIZE) :
    (∀ (σ : Type) [Storage σ] (a : σ),
      (∀ req, readAcceptorMsg type payload = some req →
        InRange (acceptorDispatch a type payload) ∧ acceptorDispatch a type payload =
          .ok ((acceptorReceive a req).map fun (a, rec) => (a, acceptorReply req rec))) ∧
      (type ∉ [PaxosMsgCode.prepareReqs.code, PaxosMsgCode.acceptReqs.code,
          PaxosMsgCode.repeatReqs.code] →
        acceptorDispatch a type payload = .ok (some (a, .none)))) ∧
    (∀ cfg id guard p env, (proposerEvents cfg id n).Reachable guard p →
      (∀ msg, readProposerMsg type payload = some msg → msg.Addressed n →
        InRange (proposerDispatch env p type payload) ∧
          proposerDispatch env p type payload = (proposerReceive env p msg).mapError .fault) ∧
      (type ∉ [PaxosMsgCode.prepareAcks.code, PaxosMsgCode.acceptAcks.code,
          PaxosMsgCode.submit.code] →
        proposerDispatch env p type payload = .ok (p, ⟨none, [], []⟩))) ∧
    (∀ cfg l₀ guard l fuel, learnerNew cfg n = .ok l₀ → (learnerEvents l₀).Reachable guard l →
      (∀ ack, readLearnerMsg type payload = some ack → ack.acceptorId < n →
        InRange (learnerDispatch fuel l type payload) ∧
          learnerDispatch fuel l type payload =
            (LibPaxos.learnerReceiveAccept l ack >>= learnerDeliverNextClosed fuel).mapError
              .fault) ∧
      (type ≠ PaxosMsgCode.acceptAcks.code →
        learnerDispatch fuel l type payload = .ok (some (l, [])))) ∧
    ∀ f : Frame, f.Sendable → f.type.code = type → f.payload = payload →
      (readAcceptorMsg type payload).isSome ∨ (readProposerMsg type payload).isSome := by
  refine ⟨fun σ _ a => ⟨fun req hread => ?_, fun htype => ?_⟩,
    fun cfg id guard p env hreach => ⟨fun msg hread haddr => ?_, fun htype => ?_⟩,
    fun cfg l₀ guard l fuel hnew hreach => ⟨fun ack hread hid => ?_, fun htype => ?_⟩, ?_⟩
  · have heq := acceptorDispatch_eq a hread
    exact ⟨heq ▸ inRange_ok _, heq⟩
  · simp only [List.mem_cons, List.not_mem_nil, or_false, not_or] at htype
    rw [acceptorDispatch, if_neg htype.1, if_neg htype.2.1, if_neg htype.2.2]
  · have heq := proposerDispatch_eq env (FlagsSized.reachable hreach) hread haddr
    exact ⟨heq ▸ inRange_mapError _, heq⟩
  · simp only [List.mem_cons, List.not_mem_nil, or_false, not_or] at htype
    rw [proposerDispatch, if_neg htype.1, if_neg htype.2.1, if_neg htype.2.2]
  · rw [readLearnerMsg] at hread
    split at hread
    · rename_i htype
      have hshort : payload.length < 2 ^ 64 := by
        rw [PAXOS_MAX_VALUE_SIZE] at hlen
        omega
      have heq := learnerDispatch_eq fuel (AcksSized.reachable hnew hreach) hread hid hshort
      rw [← htype] at heq
      exact ⟨heq ▸ inRange_mapError _, heq⟩
    · cases hread
  · rw [learnerDispatch, if_neg htype]
  · rintro f hsend rfl rfl
    exact whole_of_sendable hsend

-- An ack of the third of three acceptors, at a new learner.
theorem whole_messages_in_range_ack :
    (acceptAckBytes ⟨2, 1, 101, 101, false, [7]⟩ [0, 0, 0, 0, 0, 0]).length ≤
      PAXOS_MAX_VALUE_SIZE ∧
    ∃ l, learnerNew { learnerInstances := 4 } 3 = .ok l ∧
      InRange (learnerDispatch 5 l PaxosMsgCode.acceptAcks.code
        (acceptAckBytes ⟨2, 1, 101, 101, false, [7]⟩ [0, 0, 0, 0, 0, 0])) := by
  have hlen : (acceptAckBytes ⟨2, 1, 101, 101, false, [7]⟩ [0, 0, 0, 0, 0, 0]).length ≤
      PAXOS_MAX_VALUE_SIZE := by decide
  have hlearner := (whole_messages_in_range 3 PaxosMsgCode.acceptAcks.code _ hlen).2.2.1
  refine ⟨hlen, _, rfl, ?_⟩
  exact ((hlearner { learnerInstances := 4 } _ (fun _ _ => True) _ 5 rfl .init).1
    ⟨2, 1, 101, 101, false, [7]⟩ rfl (by decide)).1

-- A request that announces a value longer than the frame is read past its end, and
-- acks of an acceptor that does not exist index the flags and the ack table.
theorem malformed_frames_not_dropped :
    acceptorDispatch (storageOpen 0 : BdbStorage) PaxosMsgCode.acceptReqs.code
      (toBytes 4 1 ++ toBytes 4 101 ++ toBytes 8 1000) = .error .outsidePayload ∧
    (∃ p, (proposerEvents {} 0 3).Reachable (fun _ _ => True) p ∧
      ∀ env, proposerDispatch env p PaxosMsgCode.prepareAcks.code
        (prepareAckStruct ⟨3, 1, 10, 0, []⟩) = .error .acceptorIndex) ∧
    ∃ l, learnerNew { learnerInstances := 4 } 3 = .ok l ∧
      learnerDispatch 5 l PaxosMsgCode.acceptAcks.code
        (acceptAckBytes ⟨3, 1, 101, 101, false, [7]⟩ [0, 0, 0, 0, 0, 0]) =
          .error .acceptorIndex := by
  refine ⟨rfl, ⟨_, .step (e := .call (.prepare (fun _ => 0) ⟨0, 0⟩)) .init trivial rfl, ?_⟩,
    _, rfl, rfl⟩
  intro env
  rfl

end LibPaxos.Wire
