import LibPaxos.Deployment.Tracking

namespace LibPaxos

open Wire MapStorage

variable {ι κ σ : Type} [MapStorage σ]

-- A run of the system in which only learner `l` has moved.
structure Learned (l : κ) (s s' : System ι κ σ) : Prop where
  others : ∀ m, m ≠ l → s'.learners m = s.learners m
  proposers : s'.proposers = s.proposers
  acceptors : s'.acceptors = s.acceptors
  net : s'.net = s.net

omit [MapStorage σ] in
theorem Learned.refl (l : κ) (s : System ι κ σ) : Learned l s s := ⟨fun _ _ => rfl, rfl, rfl, rfl⟩

omit [MapStorage σ] in
theorem Learned.trans {l : κ} {s s' s'' : System ι κ σ} (h : Learned l s s')
    (h' : Learned l s' s'') : Learned l s s'' :=
  ⟨fun m hm => (h'.others m hm).trans (h.others m hm), h'.proposers.trans h.proposers,
    h'.acceptors.trans h.acceptors, h'.net.trans h.net⟩

variable [DecidableEq ι] [DecidableEq κ] {cl : Layout ι κ} {s : System ι κ σ} {T : Terms} {l : κ}

-- One call of a learner, with what it does to the process.
theorem learned_call (cl : Layout ι κ) {c : LearnerCall} {state : Learner}
    (hstate : (s.learners l).state = .ok state) (hoffer : c.offered s.net l = true) :
    ∃ s', (paxos σ cl.toCluster).Reaches (Event.Matching T) s s' ∧ Learned l s s' ∧
      s'.learners l = (s.learners l).call state c := by
  have hg : (Event.learn l c : Event ι κ).Matching T s :=
    ⟨⟨⟨trivial, trivial⟩, trivial⟩, fun _ => trivial⟩
  refine ⟨_, .one hg (Steps.learn l c state hstate hoffer).enabled,
    ⟨fun m hm => Function.update_of_ne hm _ _, rfl, rfl, rfl⟩, ?_⟩
  dsimp only
  rw [Function.update_self]

theorem TracksLearner.fault {n : Nat} {node : EvLearner} {lp : LearnerProc}
    (h : TracksLearner n node lp) (fault : Fault) :
    TracksLearner n { node with state := .error (.fault fault) }
      { lp with state := .error fault } :=
  ⟨rfl, h.delivered, nofun⟩

-- The deliveries that follow an ack. The induction is on the bound of the loop.
theorem learned_deliver (fuel : Nat) {node : EvLearner}
    (h : TracksLearner cl.acceptors node (s.learners l)) :
    ∃ s', (paxos σ cl.toCluster).Reaches (Event.Matching T) s s' ∧ Learned l s s' ∧
      TracksLearner cl.acceptors (evlearnerDeliver fuel node) (s'.learners l) := by
  induction fuel generalizing s node with
  | zero => exact ⟨s, .refl s, .refl l s, h⟩
  | succ fuel ih =>
      cases hstate : (s.learners l).state with
      | error fault =>
          have hnode := h.state
          rw [hstate] at hnode
          refine ⟨s, .refl s, .refl l s, ?_⟩
          rw [evlearnerDeliver, hnode]
          exact h
      | ok state =>
          have hnode := h.state
          rw [hstate] at hnode
          obtain ⟨mid, hreach, hlearned, hproc⟩ := learned_call (T := T) cl
            (c := .deliverNext) hstate rfl
          rw [LearnerProc.call, learnerCall] at hproc
          rw [evlearnerDeliver, hnode]
          simp only [Except.mapError]
          cases hr : learnerDeliverNext state with
          | error fault =>
              rw [hr] at hproc
              refine ⟨mid, hreach, hlearned, ?_⟩
              rw [hproc]
              exact h.fault fault
          | ok r =>
              obtain ⟨next, out⟩ := r
              rw [hr] at hproc
              have hsized := (h.sized state hstate).deliver hr
              have hnext : TracksLearner cl.acceptors
                  ⟨.ok next, node.delivered ++ out.toList⟩ (mid.learners l) := by
                rw [hproc]
                refine ⟨rfl, by rw [h.delivered], fun other ho => ?_⟩
                cases ho
                exact hsized
              cases out with
              | none =>
                  rw [Option.toList_none, List.append_nil] at hnext
                  exact ⟨mid, hreach, hlearned, hnext⟩
              | some ack =>
                  obtain ⟨s', hreach', hlearned', hlast⟩ := ih hnext
                  exact ⟨s', hreach.trans hreach', hlearned.trans hlearned', hlast⟩

-- An ack is taken in by a call that the system can make.
theorem learned_ack {node : EvLearner} {state : Learner}
    (h : TracksLearner cl.acceptors node (s.learners l)) (hnode : node.state = .ok state)
    {aa : AcceptAck} {pad : List UInt8} (hid : aa.acceptorId < cl.acceptors)
    (hm : .acceptAck .everyone aa ∈ s.net ∨ .acceptAck (.learner l) aa ∈ s.net)
    (hsend : (Frame.acceptAck aa pad).Sendable) :
    ∃ s', (paxos σ cl.toCluster).Reaches (Event.Matching T) s s' ∧ Learned l s s' ∧
      TracksLearner cl.acceptors (learnerHandleFrame node state
        (Frame.acceptAck aa pad).type.code (Frame.acceptAck aa pad).payload) (s'.learners l) := by
  have hstate : (s.learners l).state = .ok state := by
    have hs := h.state
    rw [hnode] at hs
    exact mapError_ok hs.symm
  have hsized := h.sized state hstate
  have hlen : (Frame.acceptAck aa pad).payload.length < 2 ^ 64 := by
    have hbound := (Frame.payload_bounds hsend).2
    omega
  have heq := Wire.learnerReceiveAccept_eq hsized (readAcceptAck_payload hsend) hid hlen
  have hoffer : (LearnerCall.receiveAccept aa).offered s.net l = true := by
    simpa [LearnerCall.offered] using hm
  obtain ⟨mid, hreach, hlearned, hproc⟩ := learned_call (T := T) cl hstate hoffer
  rw [LearnerProc.call, learnerCall] at hproc
  rw [learnerHandleFrame, if_pos (by rfl), heq]
  cases hr : LibPaxos.learnerReceiveAccept state aa with
  | error fault =>
      rw [hr] at hproc
      refine ⟨mid, hreach, hlearned, ?_⟩
      rw [hproc]
      exact h.fault fault
  | ok next =>
      rw [hr] at hproc heq
      have hnext : TracksLearner cl.acceptors { node with state := .ok next } (mid.learners l) := by
        simp only [Except.map, Option.toList_none, List.append_nil] at hproc
        rw [hproc]
        refine ⟨rfl, h.delivered, fun other ho => ?_⟩
        cases ho
        exact hsized.receive heq
      obtain ⟨s', hreach', hlearned', hlast⟩ := learned_deliver (T := T)
        (carraySize next.instances + 1) hnext
      exact ⟨s', hreach.trans hreach', hlearned.trans hlearned', hlast⟩

theorem evlearnerHandleMsg_frame (node : EvLearner) (state : Learner) {f : Frame}
    (h : f.Sendable) (rest : List UInt8) :
    evlearnerHandleMsg node state (f.bytes ++ rest) =
      (if f.payload.length ≤ PAXOS_MAX_VALUE_SIZE then
        learnerHandleFrame node state f.type.code f.payload else node, rest) :=
  handleMsg_frame _ h _ rest

section

variable {d d' : Deployment ι κ (Logged σ)}

omit [DecidableEq ι] in
theorem Tracks.learned {T : Terms} (h : Tracks T cl d s) {s' : System ι κ σ}
    (hl : Learned l s s') {node : EvLearner}
    (hnode : TracksLearner cl.acceptors node (s'.learners l)) :
    Tracks T cl (d.setLearner l node) s' := by
  refine ⟨hl.proposers ▸ h.proposer, hl.acceptors ▸ h.acceptor, fun m => ?_,
    fun way => (h.pipe way).mono fun f hf => hf.mono fun _ hm => hl.net ▸ hm⟩
  dsimp only [Deployment.setLearner]
  by_cases hm : m = l
  · subst hm
    rw [Function.update_self]
    exact hnode
  · rw [Function.update_of_ne hm, hl.others m hm]
    exact h.learner m

theorem Tracks.readLearner (h : Tracks T cl d s)
    (hr : (paxos σ cl.toCluster).Reachable (Event.Matching T) s) {c : Connection ι κ}
    (hpeer : c.peer = .learner l) (hstep : d.readLearner l (.down c) = some d') :
    ∃ s', (paxos σ cl.toCluster).Reaches (Event.Matching T) s s' ∧
      Tracks T cl d' s' := by
  unfold Deployment.readLearner at hstep
  cases hd : (d.learners l).state with
  | error fault =>
      rw [hd] at hstep
      cases hstep
  | ok state =>
      rw [hd] at hstep
      dsimp only at hstep
      split_ifs at hstep with hready
      obtain ⟨f, rest, hsend, hf, hinput, hrest⟩ := (h.pipe (.down c)).read hready
      have hnext := h.setPipes (Deployment.carries_update h.pipe hrest)
      have hmsg := evlearnerHandleMsg_frame (d.learners l) state hsend rest
      rw [hinput] at hstep
      generalize evlearnerHandleMsg (d.learners l) state (f.bytes ++ rest) = result at hstep hmsg
      obtain ⟨node, input⟩ := result
      obtain ⟨hnode, rfl⟩ := Prod.mk.inj hmsg
      cases hstep
      by_cases hsize : f.payload.length ≤ PAXOS_MAX_VALUE_SIZE
      · rw [if_pos hsize] at hnode
        cases hf with
        | prepareAck p _ rec hproposer hm => exact absurd (hproposer.symm.trans hpeer) nofun
        | acceptAck _ aa pad hm =>
            rw [hpeer] at hm
            have hack : aa.Compact cl.acceptors MAX_CLIENT_VALUE := by
              rcases hm with hm | hm
              · exact (Compact.of_matching hr).net _ hm
              · exact (Compact.of_matching hr).net _ hm
            obtain ⟨s', hreach, hlearned, htracks⟩ := learned_ack (T := T) (h.learner l) hd
              hack.acceptorId hm hsend
            rw [← hnode] at htracks
            exact ⟨s', hreach, hnext.learned hlearned htracks⟩
      · rw [if_neg hsize] at hnode
        rw [hnode]
        exact ⟨s, .refl s, hnext.learned (.refl l s) (h.learner l)⟩

theorem Tracks.checkHoles (h : Tracks T cl d s)
    (hr : (paxos σ cl.toCluster).Reachable (Event.Matching T) s)
    (hstep : d.checkHoles cl l = some d') :
    ∃ s', (paxos σ cl.toCluster).Reaches (Event.Matching T) s s' ∧
      Tracks T cl d' s' := by
  unfold Deployment.checkHoles at hstep
  cases hd : (d.learners l).state with
  | error fault =>
      rw [hd] at hstep
      cases hstep
  | ok state =>
      rw [hd] at hstep
      have hstate : (s.learners l).state = .ok state := by
        have hs := (h.learner l).state
        rw [hd] at hs
        exact mapError_ok hs.symm
      have hg : (Event.checkHoles l : Event ι κ).Matching T s :=
        ⟨⟨⟨trivial, trivial⟩, trivial⟩, fun _ => trivial⟩
      have hreach : (paxos σ cl.toCluster).Reaches (Event.Matching T) s
          { s with net := s.net ++ (learnerCheckHoles state).map (.repeatReq l) } :=
        .one hg (Steps.checkHoles l state hstate).enabled
      have htracks : Tracks T cl d
          { s with net := s.net ++ (learnerCheckHoles state).map (.repeatReq l) } :=
        ⟨h.proposer, h.acceptor, h.learner, fun way => (h.pipe way).mono fun f hf =>
          hf.mono fun _ hm => List.mem_append_left _ hm⟩
      have hcompact := Compact.of_matching (hr.reaches hreach)
      obtain ⟨pipes, he, hpipes⟩ := Deployment.sendAll_eq cl (.learner l)
        ((learnerCheckHoles state).map .repeatReq) htracks.pipe fun f hf => by
          obtain ⟨iid, hiid, rfl⟩ := List.mem_map.mp hf
          have hm : .repeatReq l iid ∈ s.net ++ (learnerCheckHoles state).map (.repeatReq l) :=
            List.mem_append_right _ (List.mem_map_of_mem hiid)
          exact ⟨hcompact.net _ hm, fun c hpeer _ => .repeatReq l c iid hpeer hm⟩
      cases hstep
      rw [he]
      exact ⟨_, hreach, htracks.setPipes hpipes⟩

end

end LibPaxos
