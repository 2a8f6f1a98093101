import LibPaxos.Learner.Theorems
import LibPaxos.System.Theorems

namespace LibPaxos

open MapStorage

variable {ι κ σ : Type} [MapStorage σ]

-- Values of at most `limit` bytes go in.
def Event.short (limit : Nat) : Event ι κ → Prop
  | .call _ (.propose value) => value.length ≤ limit
  | _ => True

-- The numbers of a record are 32-bit ones, its value is short, and it comes from one
-- of the acceptors.
structure AcceptAck.Compact (n limit : Nat) (ack : AcceptAck) : Prop where
  acceptorId : ack.acceptorId < n
  iid : ack.iid < 2 ^ 32
  ballot : ack.ballot < 2 ^ 32
  valueBallot : ack.valueBallot < 2 ^ 32
  value : ack.value.length ≤ limit

def Packet.Compact (n limit : Nat) : Packet ι κ → Prop
  | .prepareReq _ req => req.iid < 2 ^ 32 ∧ req.ballot < 2 ^ 32
  | .prepareAck _ ack => ∃ rec : AcceptorRecord, ack = rec.toPrepareAck ∧ rec.Compact n limit
  | .acceptReq _ req => req.iid < 2 ^ 32 ∧ req.ballot < 2 ^ 32 ∧ req.value.length ≤ limit
  | .acceptAck _ ack => ack.Compact n limit
  | .repeatReq _ iid => iid < 2 ^ 32

def Instance.Compact (inst : Instance) : Prop := inst.iid < 2 ^ 32 ∧ inst.ballot < 2 ^ 32

structure Proposer.Compact (limit : Nat) (p : Proposer) : Prop where
  preparing : ∀ inst ∈ p.prepareInstances, inst.Compact
  accepting : ∀ inst ∈ p.acceptInstances, inst.Compact
  holds : p.Holds fun value => value.length ≤ limit

theorem uint32_lt (n : Nat) : uint32 n < 2 ^ 32 := Nat.mod_lt _ (by decide)

theorem proposerNextBallot_lt (p : Proposer) (b : Nat) : proposerNextBallot p b < 2 ^ 32 := by
  unfold proposerNextBallot
  split <;> exact uint32_lt _

theorem Proposer.Compact.new (limit id n : Nat) : (proposerNew id n).Compact limit :=
  ⟨by simp [proposerNew], by simp [proposerNew], .new _ _ _⟩

-- Every number of a request is taken modulo 2 ^ 32.
theorem Proposer.Compact.instances {limit : Nat} {p p' : Proposer} (h : p.Compact limit)
    {c : ProposerCall} {out : ProposerOutput} (hm : Move p c p' out) :
    (∀ inst ∈ p'.prepareInstances, inst.Compact) ∧ ∀ inst ∈ p'.acceptInstances, inst.Compact := by
  have hpreempt (inst : Instance) (now : Timeval) (hi : inst.Compact) :
      (preparePreempt p inst now).1.Compact := ⟨hi.1, proposerNextBallot_lt p inst.ballot⟩
  cases hm with
  | idle | propose => exact ⟨h.preparing, h.accepting⟩
  | prepare junk now =>
      exact ⟨List.forall_mem_append.mpr ⟨h.preparing, List.forall_mem_singleton.mpr
        ⟨uint32_lt _, proposerNextBallot_lt p 0⟩⟩, h.accepting⟩
  | promise ack now pre post inst quorum hsplit hfind hiid hballot hadd =>
      refine ⟨forall_mem_split hsplit h.preparing fun hi => ?_, h.accepting⟩
      exact ⟨by rw [promiseValue_iid]; exact hi.1, by rw [promiseValue_ballot]; exact hi.2⟩
  | preempt ack now pre post inst hsplit hfind hlt =>
      exact ⟨forall_mem_split hsplit h.preparing (hpreempt inst now), h.accepting⟩
  | accept inst rest value values hfront hreached hvalue =>
      have hall := h.preparing
      rw [hfront] at hall
      obtain ⟨hinst, hrest⟩ := List.forall_mem_cons.mp hall
      exact ⟨hrest, List.forall_mem_append.mpr ⟨h.accepting, List.forall_mem_singleton.mpr hinst⟩⟩
  | ackCounted ack now pre post inst quorum hsplit hiid hballot hvb hadd hopen =>
      exact ⟨h.preparing, forall_mem_split hsplit h.accepting fun hi => hi⟩
  | ackClosed ack now pre post inst quorum hsplit hiid hballot hvb hadd hreached =>
      exact ⟨h.preparing, fun item hi => h.accepting item (mem_instanceRemove.mp hi).1⟩
  | ackPreempted ack now pre post inst hsplit hfind hne =>
      exact ⟨List.forall_mem_cons.mpr
        ⟨hpreempt inst now (h.accepting inst (instanceFind_mem hfind)), h.preparing⟩,
        fun item hi => h.accepting item (mem_instanceRemove.mp hi).1⟩
  | timeoutPrepare iter pre post inst hsplit =>
      exact ⟨forall_mem_split hsplit h.preparing fun hi => hi, h.accepting⟩
  | timeoutAccept iter pre post inst value hsplit hvalue =>
      exact ⟨h.preparing, forall_mem_split hsplit h.accepting fun hi => hi⟩

-- An accept request is made from an instance that waits for its acks now.
theorem Move.acceptReq {p p' : Proposer} {c : ProposerCall} {req : AcceptReq}
    (hm : Move p c p' (.acceptReq req)) :
    ∃ inst ∈ p'.acceptInstances, inst.iid = req.iid ∧ inst.ballot = req.ballot := by
  cases hm with
  | accept inst rest value values hfront hreached hvalue =>
      exact ⟨_, List.mem_append_right _ (List.mem_singleton.mpr rfl), rfl, rfl⟩
  | timeoutAccept iter pre post inst value hsplit hvalue =>
      exact ⟨{ inst with createdAt := iter.timeout }, by simp, rfl, rfl⟩

theorem Proposer.Compact.move {limit : Nat} {p p' : Proposer} (h : p.Compact limit)
    {c : ProposerCall} {out : ProposerOutput} (hm : Move p c p' out)
    (hnew : ∀ value, c = .propose value → value.length ≤ limit)
    (hack : ∀ ack now, c = .receivePrepareAck ack now → ack.value.length ≤ limit) (src : ι)
    (n : Nat) :
    p'.Compact limit ∧
      ∀ packet ∈ (out.packets src : List (Packet ι κ)), packet.Compact n limit := by
  obtain ⟨hprep, hacc⟩ := h.instances hm
  obtain ⟨hholds, hvalue⟩ := h.holds.move hm hnew fun ack now hc _ => hack ack now hc
  refine ⟨⟨hprep, hacc, hholds⟩, fun packet hp => ?_⟩
  rcases mem_packets hp with ⟨req, rfl, rfl⟩ | ⟨req, rfl, rfl⟩
  · obtain ⟨inst, hinst, hiid, hballot⟩ := hm.prepareReq
    exact ⟨hiid ▸ (hprep inst hinst).1, hballot ▸ (hprep inst hinst).2⟩
  · obtain ⟨inst, hinst, hiid, hballot⟩ := hm.acceptReq
    exact ⟨hiid ▸ (hacc inst hinst).1, hballot ▸ (hacc inst hinst).2, hvalue req rfl⟩

structure Learner.Compact (l : Learner) : Prop where
  seen : l.highestIidSeen < 2 ^ 32
  closed : l.highestIidClosed < 2 ^ 32

theorem Learner.Compact.new {cfg : PaxosConfig} {n : Nat} {l : Learner}
    (h : learnerNew cfg n = .ok l) : l.Compact := by
  obtain ⟨a, _, hl⟩ := except_bind_ok h
  cases hl
  exact ⟨by norm_num, by norm_num⟩

theorem Learner.Compact.arrive {l : Learner} (h : l.Compact) {ack : AcceptAck}
    (hack : ack.iid < 2 ^ 32) : (learnerArrive l ack).Compact := by
  simp only [learnerArrive]
  split <;> split
  · exact ⟨hack, h.closed⟩
  · exact ⟨h.seen, h.closed⟩
  · exact ⟨hack, h.closed⟩
  · exact ⟨h.seen, h.closed⟩

theorem Learner.Compact.receive {l l' : Learner} (h : l.Compact) {ack : AcceptAck}
    (hack : ack.iid < 2 ^ 32) (hr : learnerReceiveAccept l ack = .ok l') : l'.Compact := by
  have harr := h.arrive hack
  unfold learnerReceiveAccept at hr
  dsimp only at hr
  split_ifs at hr
  · exact Except.ok.inj hr ▸ harr
  · exact Except.ok.inj hr ▸ harr
  · obtain ⟨mid, hupd, hr⟩ := except_bind_ok hr
    obtain ⟨inst, hget, hr⟩ := except_bind_ok hr
    obtain ⟨old, _, hupd⟩ := except_bind_ok hupd
    obtain ⟨new, _, hupd⟩ := except_bind_ok hupd
    have hmid : mid.Compact := Except.ok.inj hupd ▸ ⟨harr.seen, harr.closed⟩
    have hiid : (instanceHasQuorum mid inst).1.iid < 2 ^ 32 := by
      rw [instanceHasQuorum_iid]
      rcases (learnerGetInstance_ok hget).2 with he | he
      · rw [he]
        exact hack
      · rw [he]
        decide
    cases Except.ok.inj hr
    simp only [learnerNoteClosed]
    split
    · exact ⟨hmid.seen, hiid⟩
    · exact ⟨hmid.seen, hmid.closed⟩

theorem Learner.Compact.deliver {l l' : Learner} (h : l.Compact) {out : Option AcceptAck}
    (hr : learnerDeliverNext l = .ok (l', out)) : l'.Compact := by
  obtain ⟨inst, _, hr⟩ := except_bind_ok hr
  split at hr
  · cases hr
    exact h
  · split at hr
    · cases hr
    · cases hr
      exact ⟨h.seen, h.closed⟩

theorem Learner.Compact.call {l l' : Learner} (h : l.Compact) {c : LearnerCall}
    (hc : ∀ ack, c = .receiveAccept ack → ack.iid < 2 ^ 32) {out : Option AcceptAck}
    (hr : learnerCall l c = .ok (l', out)) : l'.Compact := by
  cases c with
  | receiveAccept ack =>
      simp only [learnerCall, Except.map] at hr
      split at hr
      · cases hr
      · rename_i mid hmid
        cases hr
        exact h.receive (hc ack rfl) hmid
  | deliverNext => exact h.deliver hr

theorem Learner.Compact.checkHoles {l : Learner} (h : l.Compact) {iid : Nat}
    (hm : iid ∈ learnerCheckHoles l) : iid < 2 ^ 32 := by
  have hrange {start stop : Nat} (hstop : stop < 2 ^ 32)
      (hi : iid ∈ List.range' start (stop - start)) : iid < 2 ^ 32 := by
    rw [List.mem_range'_1] at hi
    omega
  unfold learnerCheckHoles at hm
  split at hm
  · cases hm
  · rename_i start stop hholes
    have hstop : stop < 2 ^ 32 := by
      unfold learnerHasHoles at hholes
      split_ifs at hholes
      · cases hholes
        exact h.seen
      · cases hholes
        exact h.closed
    dsimp only at hm
    split at hm
    · exact hrange (uint32_lt _) hm
    · exact hrange hstop hm

-- Everything in the system fits the types of the source.
structure Compact (limit : Nat) (cl : Cluster ι κ) (s : System ι κ σ) : Prop where
  net : ∀ packet ∈ s.net, packet.Compact cl.acceptors limit
  proposer : ∀ p, (s.proposers p).state.Compact limit
  record : ∀ a, a < cl.acceptors → ∀ i rec, records (s.acceptors a).store i = some rec →
    rec.Compact cl.acceptors limit
  learner : ∀ l state, (s.learners l).state = .ok state → state.Compact

theorem Compact.start (limit : Nat) (cl : Cluster ι κ) :
    Compact limit cl (System.start cl : System ι κ σ) := by
  refine ⟨fun packet hm => ?_, fun p => .new _ _ _, fun a _ i rec hr => ?_,
    fun l state hl => .new hl⟩
  · cases hm
  · obtain ⟨_, _, hrec⟩ := MapStorage.open_eq (σ := σ) a
    change records (storageOpen a : σ) i = some rec at hr
    rw [hrec] at hr
    cases hr

variable [DecidableEq ι] [DecidableEq κ]

omit [DecidableEq ι] [DecidableEq κ] in
-- The value of a record is that of a request, and its ballot is below the record's.
theorem Compact.of_seen {limit : Nat} {cl : Cluster ι κ} {s : System ι κ σ} (h : Compact limit cl s)
    (hh : Honest cl s) {a : Nat} {acceptor : Logged σ} (ha : a < cl.acceptors)
    (hsaved : acceptor.saved = (s.acceptors a).saved) {rec : AcceptorRecord}
    (hseen : Seen acceptor rec) (hid : rec.acceptorId = a) (hiid : rec.iid < 2 ^ 32)
    (hballot : rec.ballot < 2 ^ 32) : rec.Compact cl.acceptors limit := by
  refine ⟨hid ▸ ha, hiid, hballot, Nat.lt_of_le_of_lt hseen.truth.le hballot, ?_⟩
  rcases hseen.truth.vote with ⟨_, hnil⟩ | hvote
  · rw [hnil]
    exact Nat.zero_le _
  · rw [hsaved] at hvote
    obtain ⟨_, src, hm⟩ := hh.saved a _ hvote
    exact (h.net _ hm).2.2

omit [DecidableEq ι] [DecidableEq κ] in
-- A request leaves compact records behind and is answered by compact acks.
theorem Compact.handle {limit : Nat} {cl : Cluster ι κ} {s : System ι κ σ} (h : Compact limit cl s)
    (hh : Honest cl s) {a : Nat} (ha : a < cl.acceptors) {packet : Packet ι κ}
    (hm : packet ∈ s.net) {acceptor : Logged σ} {replies : List (Packet ι κ)}
    (hr : Handled a (s.acceptors a) packet acceptor replies) :
    (∀ packet ∈ replies, packet.Compact cl.acceptors limit) ∧
      ∀ i rec, records acceptor.store i = some rec → rec.Compact cl.acceptors limit := by
  have hold := h.record a ha
  have hreq := h.net packet hm
  have hput {iid : Nat} {new : AcceptorRecord} (hnew : new.Compact cl.acceptors limit)
      (hstore : records acceptor.store =
        Function.update (records (s.acceptors a).store) iid (some new)) :
      ∀ i rec, records acceptor.store i = some rec → rec.Compact cl.acceptors limit := by
    rw [hstore]
    refine (Function.forall_update_iff _ fun i (o : Option AcceptorRecord) =>
      ∀ rec, o = some rec → rec.Compact cl.acceptors limit).mpr ⟨?_, fun i _ => hold i⟩
    rintro rec ⟨⟩
    exact hnew
  cases hr with
  | prepare src req _ rec hseen hid hiid hsaved hstore hcase =>
      have hballot : rec.ballot < 2 ^ 32 := by
        rcases hcase with he | ⟨hrec, _⟩
        · rw [he]
          exact hreq.2
        · exact (hold _ rec hrec).ballot
      have hrec := h.of_seen hh ha hsaved hseen hid (hiid ▸ hreq.1) hballot
      exact ⟨List.forall_mem_singleton.mpr ⟨rec, rfl, hrec⟩, hput hrec hstore⟩
  | accepted src req _ hseen hsaved hstore =>
      have hrec : (acceptRecord a req).Compact cl.acceptors limit :=
        ⟨ha, hreq.1, hreq.2.1, hreq.2.1, hreq.2.2⟩
      exact ⟨List.forall_mem_singleton.mpr hrec, hput hrec hstore⟩
  | refused src req _ rec hseen hid hiid hsaved hstore hrec hlt =>
      exact ⟨List.forall_mem_singleton.mpr (hold _ rec hrec), hstore ▸ hold⟩
  | unknown src iid _ hsaved hstore hrec => exact ⟨by simp, hstore ▸ hold⟩
  | repeated src iid _ rec hseen hid hiid hsaved hstore hrec =>
      exact ⟨List.forall_mem_singleton.mpr (hold _ rec hrec), hstore ▸ hold⟩

omit [MapStorage σ] in
theorem Packet.Compact.of_offered {limit : Nat} {cl : Cluster ι κ} {s : System ι κ σ}
    (h : ∀ packet ∈ s.net, packet.Compact cl.acceptors limit) {l : κ} {ack : AcceptAck}
    (hoffer : (LearnerCall.receiveAccept ack).offered s.net l = true) :
    ack.Compact cl.acceptors limit := by
  have hm : .acceptAck .everyone ack ∈ s.net ∨ .acceptAck (.learner l) ack ∈ s.net := by
    simpa [LearnerCall.offered] using hoffer
  rcases hm with hm | hm
  · exact h _ hm
  · exact h _ hm

theorem Compact.step {limit : Nat} {cl : Cluster ι κ} {s s' : System ι κ σ} {e : Event ι κ}
    (h : Compact limit cl s) (hh : Honest cl s) (hopen : ∀ p, (s.proposers p).state.Opened)
    (hs : Steps cl s e s') (hshort : e.short limit) : Compact limit cl s' := by
  cases hs with
  | restart p =>
      refine ⟨h.net, ?_, h.record, h.learner⟩
      exact (Function.forall_update_iff s.proposers fun _ pr => pr.state.Compact limit).mpr
        ⟨.new _ _ _, fun q _ => h.proposer q⟩
  | checkHoles l state hstate =>
      refine ⟨List.forall_mem_append.mpr ⟨h.net, fun packet hm => ?_⟩, h.proposer, h.record,
        h.learner⟩
      obtain ⟨iid, hiid, rfl⟩ := List.mem_map.mp hm
      exact (h.learner l state hstate).checkHoles hiid
  | call p c pr out hlive hoffer hcall =>
      suffices hp : pr.state.Compact limit ∧
          ∀ packet ∈ (out.packets p : List (Packet ι κ)), packet.Compact cl.acceptors limit by
        refine ⟨List.forall_mem_append.mpr ⟨h.net, hp.2⟩, ?_, h.record, h.learner⟩
        exact (Function.forall_update_iff s.proposers fun _ pr => pr.state.Compact limit).mpr
          ⟨hp.1, fun q _ => h.proposer q⟩
      rcases ProposerProc.call_cases (hopen p).preparing hcall with ⟨_, _, rfl, rfl⟩ | ⟨p', hm, rfl⟩
      · exact ⟨h.proposer p, by simp [ProposerOutput.packets]⟩
      · refine (h.proposer p).move hm (fun value hc => ?_) (fun ack now hc => ?_) p cl.acceptors
        · rw [hc] at hshort
          exact hshort
        · rw [hc] at hoffer
          obtain ⟨rec, rfl, hrec⟩ := h.net _ (prepareAck_of_offered hoffer)
          exact hrec.value
  | handle a packet acceptor replies ha hm hr =>
      obtain ⟨hreplies, hrecords⟩ := h.handle hh ha hm ((hh.voter a).handled hr).2.2
      refine ⟨List.forall_mem_append.mpr ⟨h.net, hreplies⟩, h.proposer, ?_, h.learner⟩
      exact (Function.forall_update_iff s.acceptors fun a (acc : Logged σ) => a < cl.acceptors →
        ∀ i rec, records acc.store i = some rec → rec.Compact cl.acceptors limit).mpr
          ⟨fun _ => hrecords, fun b _ => h.record b⟩
  | learn l c state hstate hoffer =>
      refine ⟨h.net, h.proposer, h.record, ?_⟩
      refine (Function.forall_update_iff s.learners fun _ (lp : LearnerProc) =>
        ∀ state, lp.state = .ok state → state.Compact).mpr ⟨fun state' hnew => ?_,
          fun l _ => h.learner l⟩
      unfold LearnerProc.call at hnew
      cases hr : learnerCall state c with
      | error fault =>
          rw [hr] at hnew
          cases hnew
      | ok result =>
          rw [hr] at hnew
          cases Except.ok.inj hnew
          refine (h.learner l state hstate).call (fun ack hc => ?_) hr
          subst hc
          exact (Packet.Compact.of_offered h.net hoffer).iid

theorem Compact.of_reachable {limit : Nat} {cl : Cluster ι κ}
    {guard : System ι κ σ → Event ι κ → Prop} {s : System ι κ σ}
    (hr : (paxos σ cl).Reachable guard s) (hg : ∀ s e, guard s e → e.short limit) :
    Compact limit cl s :=
  hr.invariant (Compact limit cl) (.start limit cl) fun _ _ _ hr h hw hs =>
    h.step (.of_reachable hr) (opened_of_reachable hr) (step_steps hs) (hg _ _ hw)

end LibPaxos
