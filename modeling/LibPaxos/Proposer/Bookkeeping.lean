import LibPaxos.Proposer.Theorems

namespace LibPaxos

-- How often an iid occurs in the three places an instance can be in.
def ProposerProc.places (pr : ProposerProc) (i : Nat) : Nat :=
  (pr.state.prepareInstances.map Instance.iid).count i +
    (pr.state.acceptInstances.map Instance.iid).count i +
      (pr.finished.map Instance.iid).count i

-- What holds of each pending instance, in whichever list it is.
def Instance.Pending (n : Nat) (inst : Instance) : Prop :=
  inst.closed = false ∧ inst.quorum.Sized n

structure Booked (id n : Nat) (pr : ProposerProc) : Prop where
  ident : pr.state.id = id
  acceptors : pr.state.acceptors = n
  place : ∀ i, pr.places i = if 1 ≤ i ∧ i ≤ pr.state.nextPrepareIid then 1 else 0
  preparing : ∀ inst ∈ pr.state.prepareInstances, inst.Pending n
  accepting : ∀ inst ∈ pr.state.acceptInstances, inst.Pending n ∧ inst.value.isSome = true ∧
    quorumReached inst.quorum = false

theorem Booked.start (id n : Nat) : Booked id n (ProposerProc.start id n) := by
  refine ⟨rfl, rfl, fun i => ?_, by simp [ProposerProc.start, proposerNew],
    by simp [ProposerProc.start, proposerNew]⟩
  rw [if_neg (by simp only [ProposerProc.start, proposerNew]; omega)]
  rfl

theorem Booked.nodup_prepare {id n : Nat} {pr : ProposerProc} (h : Booked id n pr) :
    (pr.state.prepareInstances.map Instance.iid).Nodup := by
  rw [List.nodup_iff_count_le_one]
  intro i
  have := h.place i
  unfold ProposerProc.places at this
  split_ifs at this <;> omega

theorem Booked.nodup_accept {id n : Nat} {pr : ProposerProc} (h : Booked id n pr) :
    (pr.state.acceptInstances.map Instance.iid).Nodup := by
  rw [List.nodup_iff_count_le_one]
  intro i
  have := h.place i
  unfold ProposerProc.places at this
  split_ifs at this <;> omega

theorem Move.pending {n : Nat} {p p' : Proposer} {c : ProposerCall} {out : ProposerOutput}
    (hm : Move p c p' out) (hacc : p.acceptors = n)
    (hprep : ∀ inst ∈ p.prepareInstances, inst.Pending n)
    (haccept : ∀ inst ∈ p.acceptInstances, inst.Pending n) :
    (∀ inst ∈ p'.prepareInstances, inst.Pending n) ∧
      ∀ inst ∈ p'.acceptInstances, inst.Pending n := by
  refine hm.forall_mem (P := Instance.Pending n) ?_ ?_ ?_ ?_ hprep haccept
  · intro iid ballot junk now
    exact ⟨rfl, hacc ▸ quorumInit_sized p.acceptors junk⟩
  · intro a b ha hclosed hquorum
    exact ⟨hclosed ▸ ha.1, hquorum ▸ ha.2⟩
  · intro a ha
    exact ⟨ha.1, quorumClear_sized ha.2⟩
  · intro a id quorum hadd ha
    exact ⟨ha.1, quorumAdd_sized ha.2 hadd⟩

-- The iids of each place after a move, as far as counting sees them. One case for
-- each branch of the source.
theorem Booked.move {id n : Nat} {pr : ProposerProc} (h : Booked id n pr) {c : ProposerCall}
    {p : Proposer} {out : ProposerOutput} (hm : Move pr.state c p out)
    (hfit : ∀ junk now, c = .prepare junk now → pr.state.nextPrepareIid + 1 < 2 ^ 32) :
    Booked id n (pr.after c p out) := by
  unfold ProposerProc.after
  have hnodup := h.nodup_accept
  obtain ⟨hid, hacc, hplace, hprep, haccept⟩ := h
  have hpending := (hm.pending hacc hprep fun inst hi => (haccept inst hi).1).1
  cases hm with
  | idle _ _ =>
      refine ⟨hid, hacc, fun i => ?_, hpending, haccept⟩
      simpa [ProposerProc.places, ProposerOutput.finishes] using hplace i
  | propose value =>
      refine ⟨hid, hacc, fun i => ?_, hpending, haccept⟩
      simpa [ProposerProc.places, ProposerOutput.finishes] using hplace i
  | prepare junk now =>
      have hnext := uint32_of_lt (hfit junk now rfl)
      refine ⟨hid, hacc, fun i => ?_, hpending, haccept⟩
      have hp := hplace i
      simp only [ProposerProc.places, ProposerOutput.finishes, List.append_nil, hnext,
        List.map_append, List.count_append, List.map_cons, List.map_nil, instanceNew,
        List.count_singleton] at hp ⊢
      by_cases he : pr.state.nextPrepareIid + 1 = i
      · subst he
        rw [if_neg (by omega)] at hp
        rw [if_pos (by simp), if_pos (by omega)]
        omega
      · simp only [beq_iff_eq, he, if_false]
        split_ifs at hp ⊢ <;> omega
  | promise ack now pre post inst quorum hsplit hfind hiid hballot hadd =>
      refine ⟨hid, hacc, fun i => ?_, hpending, haccept⟩
      simpa [ProposerProc.places, ProposerOutput.finishes, hsplit] using hplace i
  | preempt ack now pre post inst hsplit hfind hlt =>
      refine ⟨hid, hacc, fun i => ?_, hpending, haccept⟩
      simpa [ProposerProc.places, ProposerOutput.finishes, hsplit, preparePreempt] using hplace i
  | accept inst rest value values hfront hreached hvalue =>
      rw [hfront] at hprep
      have hinst := hprep inst (by simp)
      refine ⟨hid, hacc, fun i => ?_, hpending, ?_⟩
      · rw [← hplace i]
        simp only [ProposerProc.places, ProposerOutput.finishes, hfront, List.map_append,
          List.map_cons, List.map_nil, List.count_append, List.count_cons, List.count_nil,
          List.append_nil]
        omega
      · intro item hm
        rcases List.mem_append.mp hm with hm | hm
        · exact haccept item hm
        · rw [List.mem_singleton.mp hm]
          exact ⟨⟨hinst.1, quorumClear_sized hinst.2⟩, rfl, quorumClear_reached hinst.2⟩
  | ackCounted ack now pre post inst quorum hsplit hiid hballot hvb hadd hopen =>
      refine ⟨hid, hacc, fun i => ?_, hpending, forall_mem_split hsplit haccept fun hinst => ?_⟩
      · simpa [ProposerProc.places, ProposerOutput.finishes, hsplit] using hplace i
      · exact ⟨⟨hinst.1.1, quorumAdd_sized hinst.1.2 hadd⟩, hinst.2.1, hopen⟩
  | ackClosed ack now pre post inst quorum hsplit hiid hballot hvb hadd hreached =>
      have hn : ((pre ++ inst :: post).map Instance.iid).Nodup := hsplit ▸ hnodup
      have hrem := instanceRemove_split { inst with quorum := quorum } hn rfl
      refine ⟨hid, hacc, fun i => ?_, hpending, fun item hm => ?_⟩
      · rw [← hplace i]
        simp only [ProposerProc.places, ProposerOutput.finishes, hsplit, hrem, List.map_append,
          List.map_cons, List.map_nil, List.count_append, List.count_cons, List.count_nil]
        omega
      · exact haccept item (mem_instanceRemove.mp hm).1
  | ackPreempted ack now pre post inst hsplit hfind hne =>
      have hrem := instanceRemove_split inst (hsplit ▸ hnodup) rfl
      refine ⟨hid, hacc, fun i => ?_, hpending, fun item hm => ?_⟩
      · rw [← hplace i]
        simp only [ProposerProc.places, ProposerOutput.finishes, hsplit, hrem, List.map_append,
          List.map_cons, List.count_append, List.count_cons, List.append_nil, preparePreempt]
        omega
      · exact haccept item (mem_instanceRemove.mp hm).1
  | timeoutPrepare iter pre post inst hsplit =>
      refine ⟨hid, hacc, fun i => ?_, hpending, haccept⟩
      simpa [ProposerProc.places, ProposerOutput.finishes, hsplit] using hplace i
  | timeoutAccept iter pre post inst value hsplit hvalue =>
      refine ⟨hid, hacc, fun i => ?_, hpending,
        forall_mem_split hsplit haccept fun hinst => hinst⟩
      simpa [ProposerProc.places, ProposerOutput.finishes, hsplit] using hplace i

theorem Booked.call_cases {id n : Nat} {cfg : PaxosConfig} {pr pr' : ProposerProc}
    {c : ProposerCall} {out : ProposerOutput} (h : Booked id n pr)
    (hcall : pr.call cfg c = (pr', out)) :
    (∃ fault, proposerCall cfg pr.state c = .error fault ∧ pr' = { pr with halted := true } ∧
      out = .none) ∨
    ∃ p, Move pr.state c p out ∧ pr' = pr.after c p out :=
  ProposerProc.call_cases (fun inst hm => (h.preparing inst hm).1) hcall

theorem Booked.halt {id n : Nat} {pr : ProposerProc} (h : Booked id n pr) :
    Booked id n { pr with halted := true } :=
  ⟨h.ident, h.acceptors, h.place, h.preparing, h.accepting⟩

theorem Booked.call {cfg : PaxosConfig} {id n : Nat} {pr : ProposerProc} (h : Booked id n pr)
    (c : ProposerCall)
    (hfit : ∀ junk now, c = .prepare junk now → pr.state.nextPrepareIid + 1 < 2 ^ 32) :
    Booked id n (pr.call cfg c).1 := by
  rcases hcall : pr.call cfg c with ⟨pr', out⟩
  rcases h.call_cases hcall with ⟨_, _, rfl, _⟩ | ⟨p, hm, rfl⟩
  · exact h.halt
  · exact h.move hm hfit

def ProposerCall.isPrepare : ProposerCall → Bool
  | .prepare _ _ => true
  | _ => false

theorem call_nextPrepareIid (cfg : PaxosConfig) {id n : Nat} {pr : ProposerProc}
    (h : Booked id n pr) (c : ProposerCall)
    (hfit : ∀ junk now, c = .prepare junk now → pr.state.nextPrepareIid + 1 < 2 ^ 32) :
    (pr.call cfg c).1.state.nextPrepareIid =
      pr.state.nextPrepareIid + if c.isPrepare then 1 else 0 := by
  rcases hcall : pr.call cfg c with ⟨pr', out⟩
  rcases h.call_cases hcall with ⟨fault, hf, rfl, _⟩ | ⟨p, hm, rfl⟩
  · cases c <;> first | rfl | cases hf
  · cases hm with
    | prepare junk now => exact uint32_of_lt (hfit junk now rfl)
    | idle hv hc =>
        cases c with
        | prepare junk now => exact absurd rfl (hc junk now)
        | _ => rfl
    | _ => rfl

-- The assertion of `proposer_receive_accept_ack` holds for the ack.
def AssertHolds (p : Proposer) (ack : AcceptAck) : Prop :=
  ∀ inst ∈ instanceFind p.acceptInstances ack.iid,
    ack.ballot = inst.ballot → ack.valueBallot = inst.ballot

instance AssertHolds.decidable (p : Proposer) (ack : AcceptAck) : Decidable (AssertHolds p ack) :=
  Option.decidableForallMem _

-- Acceptor ids in range, and acks on which the assertion holds.
def ProposerCall.Admissible (n : Nat) (p : Proposer) : ProposerCall → Prop
  | .receivePrepareAck ack _ => ack.acceptorId < n
  | .receiveAcceptAck ack _ => ack.acceptorId < n ∧ AssertHolds p ack
  | _ => True

instance ProposerCall.Admissible.decidable (n : Nat) (p : Proposer) :
    (c : ProposerCall) → Decidable (c.Admissible n p)
  | .receivePrepareAck _ _ => inferInstanceAs (Decidable (_ < _))
  | .receiveAcceptAck _ _ => inferInstanceAs (Decidable (_ ∧ _))
  | .propose _ => isTrue trivial
  | .prepare _ _ => isTrue trivial
  | .accept => isTrue trivial
  | .timeoutPrepare _ => isTrue trivial
  | .timeoutAccept _ => isTrue trivial

theorem quorumAdd_ne_error {n : Nat} {q : Quorum} (hs : q.Sized n) {a : Nat} (ha : a < n)
    (fault : Fault) : quorumAdd q a ≠ .error fault := by
  intro he
  rcases quorumAdd_ok hs ha with h | h
  · rw [h] at he
    cases he
  · rw [h] at he
    cases he

theorem proposerReceivePrepareAck_error {p : Proposer} {ack : PrepareAck} {now : Timeval}
    {fault : Fault} (h : proposerReceivePrepareAck p ack now = .error fault) :
    ∃ inst ∈ p.prepareInstances, quorumAdd inst.quorum ack.acceptorId = .error fault := by
  unfold proposerReceivePrepareAck at h
  split at h
  · cases h
  · rename_i inst hfind
    split at h
    · cases h
    · split at h
      · split at h
        · rename_i hadd
          cases h
          exact ⟨inst, instanceFind_mem hfind, hadd⟩
        · cases h
        · cases h
      · cases h

theorem proposerReceiveAcceptAck_error {p : Proposer} {ack : AcceptAck} {now : Timeval}
    {fault : Fault} (h : proposerReceiveAcceptAck p ack now = .error fault) :
    ¬AssertHolds p ack ∨
      ∃ inst ∈ p.acceptInstances, quorumAdd inst.quorum ack.acceptorId = .error fault := by
  unfold proposerReceiveAcceptAck at h
  split at h
  · cases h
  · rename_i inst hfind
    split at h
    · rename_i heq
      split at h
      · rename_i hvb
        exact .inl fun hassert => hvb (hassert inst hfind heq)
      · split at h
        · rename_i hadd
          cases h
          exact .inr ⟨inst, instanceFind_mem hfind, hadd⟩
        · cases h
        · split_ifs at h
    · cases h

theorem timeoutIteratorAccept_error {cfg : PaxosConfig} {p : Proposer} {iter : TimeoutIterator}
    {fault : Fault} (h : timeoutIteratorAccept cfg p iter = .error fault) :
    ∃ inst ∈ p.acceptInstances, inst.value = none := by
  unfold timeoutIteratorAccept at h
  obtain ⟨found, ai⟩ := nextTimedout cfg iter.timeout (p.acceptInstances.drop iter.ai) iter.ai
  dsimp only at h
  split at h
  · cases h
  · rename_i i inst hf
    obtain ⟨j, _, hj⟩ := Option.bind_eq_some_iff.mp hf
    obtain ⟨_, hget, hpair⟩ := Option.map_eq_some_iff.mp hj
    cases hpair
    split at h
    · rename_i hnone
      exact ⟨inst, List.mem_of_getElem? hget, hnone⟩
    · cases h

theorem Booked.no_fault {cfg : PaxosConfig} {id n : Nat} {pr : ProposerProc} (h : Booked id n pr)
    {c : ProposerCall} (hc : c.Admissible n pr.state) (fault : Fault) :
    proposerCall cfg pr.state c ≠ .error fault := by
  intro he
  cases c with
  | propose value => cases he
  | prepare junk now => cases he
  | accept => cases he
  | timeoutPrepare iter => cases he
  | receivePrepareAck ack now =>
      simp only [proposerCall, Except.map] at he
      split at he
      · rename_i hr
        obtain ⟨inst, hm, hadd⟩ := proposerReceivePrepareAck_error hr
        exact quorumAdd_ne_error (h.preparing inst hm).2 hc _ hadd
      · cases he
  | receiveAcceptAck ack now =>
      simp only [proposerCall, Except.map] at he
      split at he
      · rename_i hr
        rcases proposerReceiveAcceptAck_error hr with hassert | ⟨inst, hm, hadd⟩
        · exact hassert hc.2
        · exact quorumAdd_ne_error (h.accepting inst hm).1.2 hc.1 _ hadd
      · cases he
  | timeoutAccept iter =>
      simp only [proposerCall, Except.map] at he
      split at he
      · rename_i hr
        obtain ⟨inst, hm, hnone⟩ := timeoutIteratorAccept_error hr
        have hv := (h.accepting inst hm).2.1
        simp [hnone] at hv
      · cases he

theorem instanceFind_of_nodup {c : List Instance} (hn : (c.map Instance.iid).Nodup)
    {inst : Instance} (hm : inst ∈ c) : instanceFind c inst.iid = some inst := by
  induction c with
  | nil => cases hm
  | cons item rest ih =>
      rw [List.map_cons, List.nodup_cons] at hn
      rcases List.mem_cons.mp hm with rfl | hr
      · simp [instanceFind]
      · have hne : item.iid ≠ inst.iid := fun he =>
          hn.1 (he ▸ List.mem_map.mpr ⟨inst, hr, rfl⟩)
        simpa [instanceFind, hne] using ih hn.2 hr

-- The run lemma: fewer than 2 ^ 32 prepares leave room for every iid, and
-- admissible calls never halt the proposer.
theorem Booked.run (cfg : PaxosConfig) {id n : Nat} {pr : ProposerProc} (h : Booked id n pr)
    (hlive : pr.halted = false) (calls : List ProposerCall)
    (hcount : pr.state.nextPrepareIid + calls.countP ProposerCall.isPrepare < 2 ^ 32)
    (hm : (proposerSystem cfg id n).Meets (fun pr c => c.Admissible n pr.state) pr calls) :
    ∃ pr', (proposerSystem cfg id n).run pr calls = some pr' ∧ pr'.halted = false ∧
      Booked id n pr' := by
  induction calls generalizing pr with
  | nil => exact ⟨pr, rfl, hlive, h⟩
  | cons c rest ih =>
      have hfit (junk : Nat → Int) (now : Timeval) (he : c = .prepare junk now) :
          pr.state.nextPrepareIid + 1 < 2 ^ 32 := by
        rw [he, List.countP_cons_of_pos rfl] at hcount
        omega
      have hstep : (proposerSystem cfg id n).step pr c = some (pr.call cfg c).1 := by
        simp [proposerSystem, hlive]
      have hlive' : (pr.call cfg c).1.halted = false := by
        rcases hcall : pr.call cfg c with ⟨pr', out⟩
        rcases h.call_cases hcall with ⟨fault, hf, _⟩ | ⟨p, _, rfl⟩
        · exact absurd hf (h.no_fault hm.1 fault)
        · exact hlive
      have hcount' : (pr.call cfg c).1.state.nextPrepareIid +
          rest.countP ProposerCall.isPrepare < 2 ^ 32 := by
        rw [call_nextPrepareIid cfg h c hfit]
        rw [List.countP_cons] at hcount
        omega
      obtain ⟨pr', hrun, hdone⟩ := ih (h.call c hfit) hlive' hcount' (hm.2 _ hstep)
      exact ⟨pr', by simp [TransitionSystem.run, hstep, hrun], hdone⟩

structure BookkeepingContract (pr : ProposerProc) : Prop where
  place : ∀ i, pr.places i = if 1 ≤ i ∧ i ≤ pr.state.nextPrepareIid then 1 else 0
  accepting : ∀ inst ∈ pr.state.acceptInstances,
    inst.value ≠ none ∧ quorumReached inst.quorum = false
  findPrepare : ∀ inst ∈ pr.state.prepareInstances,
    instanceFind pr.state.prepareInstances inst.iid = some inst
  findAccept : ∀ inst ∈ pr.state.acceptInstances,
    instanceFind pr.state.acceptInstances inst.iid = some inst
  remove : ∀ pre inst post, pr.state.acceptInstances = pre ++ inst :: post →
    instanceRemove pr.state.acceptInstances inst = pre ++ post

-- Every sequence of admissible calls with fewer than 2 ^ 32 prepares runs to its
-- end without a fault.
theorem proposer_bookkeeping (cfg : PaxosConfig) (id n : Nat) (calls : List ProposerCall)
    (hcount : calls.countP ProposerCall.isPrepare < 2 ^ 32)
    (hm : (proposerSystem cfg id n).Meets (fun pr c => c.Admissible n pr.state)
      (ProposerProc.start id n) calls) :
    ∃ pr, (proposerSystem cfg id n).run (ProposerProc.start id n) calls = some pr ∧
      pr.halted = false ∧ BookkeepingContract pr := by
  have hzero : (ProposerProc.start id n).state.nextPrepareIid = 0 := rfl
  obtain ⟨pr, hrun, hlive, h⟩ := (Booked.start id n).run cfg rfl calls
    (by rw [hzero, Nat.zero_add]; exact hcount) hm
  refine ⟨pr, hrun, hlive, h.place, fun inst hm => ⟨?_, (h.accepting inst hm).2.2⟩,
    fun inst hm => ?_, fun inst hm => ?_, fun pre inst post hsplit => ?_⟩
  · exact Option.isSome_iff_ne_none.mp (h.accepting inst hm).2.1
  · exact instanceFind_of_nodup h.nodup_prepare hm
  · exact instanceFind_of_nodup h.nodup_accept hm
  · have hn := h.nodup_accept
    rw [hsplit] at hn ⊢
    exact instanceRemove_split inst hn rfl

-- Two prepared instances. The first is preempted while it is being accepted.
def preemptedCalls : List ProposerCall :=
  [.prepare (fun _ => 0) ⟨0, 0⟩, .prepare (fun _ => 7) ⟨0, 0⟩, .propose [1],
    .receivePrepareAck ⟨0, 1, 12, 0, []⟩ ⟨0, 0⟩, .receivePrepareAck ⟨1, 1, 12, 0, []⟩ ⟨0, 0⟩,
    .accept, .receiveAcceptAck ⟨0, 1, 23, 0, false, []⟩ ⟨0, 0⟩, .timeoutPrepare ⟨0, 0, ⟨9, 0⟩⟩]

theorem proposer_bookkeeping_preempted : ∃ pr,
    (proposerSystem {} 2 3).run (ProposerProc.start 2 3) preemptedCalls = some pr ∧
      pr.halted = false ∧ BookkeepingContract pr :=
  proposer_bookkeeping {} 2 3 preemptedCalls (by decide) (by decide)

end LibPaxos
