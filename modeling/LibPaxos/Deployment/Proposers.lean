import LibPaxos.Deployment.Tracking

namespace LibPaxos

open Wire MapStorage

variable {ι κ σ : Type} [MapStorage σ]

-- A run of the system in which proposer `p` has come to `state` and sent some
-- packets, and nothing else has happened.
structure Moved (p : ι) (s s' : System ι κ σ) (state : Proposer) (halted : Bool)
    (sent : List (Packet ι κ)) : Prop where
  state : (s'.proposers p).state = state
  halted : (s'.proposers p).halted = halted
  others : ∀ q, q ≠ p → s'.proposers q = s.proposers q
  acceptors : s'.acceptors = s.acceptors
  learners : s'.learners = s.learners
  net : s'.net = s.net ++ sent

section

variable {p : ι} {s s' s'' : System ι κ σ}

omit [MapStorage σ] in
theorem Moved.refl (p : ι) (s : System ι κ σ) :
    Moved p s s (s.proposers p).state (s.proposers p).halted [] :=
  ⟨rfl, rfl, fun _ _ => rfl, rfl, rfl, (List.append_nil _).symm⟩

omit [MapStorage σ] in
theorem Moved.trans {state state' : Proposer} {halted halted' : Bool}
    {sent sent' : List (Packet ι κ)} (h : Moved p s s' state halted sent)
    (h' : Moved p s' s'' state' halted' sent') : Moved p s s'' state' halted' (sent ++ sent') :=
  ⟨h'.state, h'.halted, fun q hq => (h'.others q hq).trans (h.others q hq),
    h'.acceptors.trans h.acceptors, h'.learners.trans h.learners,
    by rw [h'.net, h.net, List.append_assoc]⟩

end

variable [DecidableEq ι] [DecidableEq κ]

section

variable {cl : Layout ι κ} {s : System ι κ σ} {T : Terms} {p : ι}

-- One call of a live proposer.
theorem moved_call {c : ProposerCall} {mid : Proposer} {out : ProposerOutput}
    (hlive : (s.proposers p).halted = false) (hoffer : c.offered s.net p = true)
    (hcall : proposerCall (cl.proposerConfig p) (s.proposers p).state c = .ok (mid, out))
    (hg : (Event.call p c : Event ι κ).Matching T s) :
    ∃ s', (paxos σ cl.toCluster).Reaches (Event.Matching T) s s' ∧
      Moved p s s' mid false (out.packets p) := by
  have hproc : (s.proposers p).call (cl.proposerConfig p) c =
      ((s.proposers p).after c mid out, out) := by
    rw [ProposerProc.call, hcall]
  refine ⟨_, .one hg (Steps.call p c _ _ hlive hoffer hproc).enabled, ?_, ?_, fun q hq => ?_, rfl,
    rfl, rfl⟩
  · dsimp only
    rw [Function.update_self]
    rfl
  · dsimp only
    rw [Function.update_self]
    exact hlive
  · exact Function.update_of_ne hq _ _

-- A call that ends the process.
theorem moved_fault {c : ProposerCall} {fault : Fault}
    (hlive : (s.proposers p).halted = false) (hoffer : c.offered s.net p = true)
    (hcall : proposerCall (cl.proposerConfig p) (s.proposers p).state c = .error fault)
    (hg : (Event.call p c : Event ι κ).Matching T s) :
    ∃ s', (paxos σ cl.toCluster).Reaches (Event.Matching T) s s' ∧
      Moved p s s' (s.proposers p).state true [] := by
  have hproc : (s.proposers p).call (cl.proposerConfig p) c =
      ({ s.proposers p with halted := true }, .none) := by
    rw [ProposerProc.call, hcall]
  refine ⟨_, .one hg (Steps.call p c _ _ hlive hoffer hproc).enabled, ?_, ?_, fun q hq => ?_, rfl,
    rfl, rfl⟩
  · dsimp only
    rw [Function.update_self]
  · dsimp only
    rw [Function.update_self]
  · exact Function.update_of_ne hq _ _

omit [DecidableEq ι] [DecidableEq κ] in
theorem ProposerCall.Internal.matching {c : ProposerCall} (hc : c.Internal)
    (hw : c.NoWrap (s.proposers p).state) : (Event.call p c : Event ι κ).Matching T s := by
  cases c with
  | prepare junk now => exact ⟨⟨⟨trivial, hw⟩, trivial⟩, fun _ => trivial⟩
  | accept => exact ⟨⟨⟨trivial, hw⟩, trivial⟩, fun _ => trivial⟩
  | timeoutPrepare iter => exact ⟨⟨⟨trivial, hw⟩, trivial⟩, fun _ => trivial⟩
  | timeoutAccept iter => exact ⟨⟨⟨trivial, hw⟩, trivial⟩, fun _ => trivial⟩
  | propose | receivePrepareAck | receiveAcceptAck => exact hc.elim

theorem ProposerCall.Internal.offered {c : ProposerCall} (hc : c.Internal)
    (net : List (Packet ι κ)) (p : ι) : c.offered net p = true := by
  cases c with
  | prepare | accept | timeoutPrepare | timeoutAccept => rfl
  | propose | receivePrepareAck | receiveAcceptAck => exact hc.elim

-- A sequence of calls is a run of the system. The induction is on the sequence.
theorem moved_acts {state state' : Proposer} {outs : List ProposerOutput}
    (h : Acts (cl.proposerConfig p) state outs state') (hstate : (s.proposers p).state = state)
    (hlive : (s.proposers p).halted = false) :
    ∃ s', (paxos σ cl.toCluster).Reaches (Event.Matching T) s s' ∧
      Moved p s s' state' false (outs.flatMap fun out => out.packets p) := by
  induction h generalizing s with
  | done state =>
      refine ⟨s, .refl s, ?_⟩
      have hsame := Moved.refl p s
      rwa [hstate, hlive] at hsame
  | call hc hw hcall _ ih =>
      subst hstate
      obtain ⟨mid, hreach, hmoved⟩ := moved_call (T := T) hlive (hc.offered s.net p) hcall
        (hc.matching hw)
      obtain ⟨s', hreach', hmoved'⟩ := ih hmoved.state hmoved.halted
      exact ⟨s', hreach.trans hreach', hmoved.trans hmoved'⟩

end

-- The frame of a request that the proposer has sent.
def Requests (p : ι) (net : List (Packet ι κ)) (f : Frame) : Prop :=
  (∃ req, f = .prepareReq req ∧ .prepareReq p req ∈ net) ∨
    ∃ req, f = .acceptReq req ∧ .acceptReq p req ∈ net

omit [DecidableEq ι] [DecidableEq κ] in
theorem requests_frames {p : ι} (outs : List ProposerOutput) {f : Frame}
    (h : f ∈ outs.flatMap ProposerOutput.frames) :
    Requests p (outs.flatMap fun out => (out.packets p : List (Packet ι κ))) f := by
  obtain ⟨out, hout, hf⟩ := List.mem_flatMap.mp h
  have hmem {packet : Packet ι κ} (hp : packet ∈ out.packets p) :
      packet ∈ outs.flatMap fun out => (out.packets p : List (Packet ι κ)) :=
    List.mem_flatMap.mpr ⟨out, hout, hp⟩
  cases out with
  | none => cases hf
  | closed inst => cases hf
  | prepareReq req =>
      exact .inl ⟨req, List.mem_singleton.mp hf, hmem (List.mem_singleton.mpr rfl)⟩
  | acceptReq req =>
      exact .inr ⟨req, List.mem_singleton.mp hf, hmem (List.mem_singleton.mpr rfl)⟩

section

variable {cl : Layout ι κ} {d : Deployment ι κ (Logged σ)} {s s' : System ι κ σ} {p : ι}

theorem Tracks.sendAll (h : Tracks T cl d s)
    (hcompact : Compact MAX_CLIENT_VALUE cl.toCluster s) {frames : List Frame}
    (hf : ∀ f ∈ frames, Requests p s.net f) :
    Tracks T cl (d.sendAll cl (.proposer p) frames) s := by
  obtain ⟨pipes, he, hpipes⟩ := Deployment.sendAll_eq cl (.proposer p) frames h.pipe
    fun f hm => by
      rcases hf f hm with ⟨req, rfl, hnet⟩ | ⟨req, rfl, hnet⟩
      · exact ⟨hcompact.net _ hnet, fun c hpeer _ => .prepareReq p c req hpeer hnet⟩
      · obtain ⟨hiid, hballot, hvalue⟩ := hcompact.net _ hnet
        have hsize : acceptReqSize req < 2 ^ 63 := by
          have hmax : MAX_CLIENT_VALUE < 2 ^ 32 := by decide
          rw [acceptReqSize]
          omega
        exact ⟨⟨hiid, hballot, hsize⟩, fun c hpeer _ => .acceptReq p c req hpeer hnet⟩
  rw [he]
  exact h.setPipes hpipes

omit [DecidableEq κ] in
-- The node of a proposer and the system's proposer move on together.
theorem Tracks.moved {T : Terms} (h : Tracks T cl d s) {state : Proposer} {halted : Bool}
    {sent : List (Packet ι κ)} (hm : Moved p s s' state halted sent)
    {node : Except FrameFault Proposer} (hnode : TracksProposer node (s'.proposers p)) :
    Tracks T cl (d.setProposer p node) s' := by
  refine ⟨fun q => ?_, hm.acceptors ▸ h.acceptor, hm.learners ▸ h.learner,
    fun way => (h.pipe way).mono fun f hf => hf.mono fun _ hp => ?_⟩
  · dsimp only [Deployment.setProposer]
    by_cases hq : q = p
    · subst hq
      rw [Function.update_self]
      exact hnode
    · rw [Function.update_of_ne hq, hm.others q hq]
      exact h.proposer q
  · rw [hm.net]
    exact List.mem_append_left _ hp

theorem Tracks.setInput {T : Terms} (h : Tracks T cl d s) {way : Way ι κ}
    {rest : Evbuffer}
    (hrest : Pipe.Carries (Allows T s way) { d.pipes way with input := rest }) :
    Tracks T cl (d.setInput way rest) s :=
  h.setPipes (Deployment.carries_update h.pipe hrest)

omit [MapStorage σ] [DecidableEq ι] [DecidableEq κ] in
theorem TracksProposer.of_moved {state : Proposer} {halted : Bool} {sent : List (Packet ι κ)}
    (hm : Moved p s s' state halted sent) :
    (halted = false → TracksProposer (.ok state) (s'.proposers p)) ∧
      ∀ fault, halted = true → TracksProposer (.error (.fault fault)) (s'.proposers p) := by
  refine ⟨?_, fun fault hh => .dead _ fault (hm.halted.trans hh)⟩
  intro hh
  have hlive := TracksProposer.live (s'.proposers p) (hm.halted.trans hh)
  rwa [hm.state] at hlive

-- The proposer comes to a state by a run of calls, and their requests are written.
theorem Tracks.acts {T : Terms} (h : Tracks T cl d s)
    (hr : (paxos σ cl.toCluster).Reachable (Event.Matching T) s) {state state' : Proposer}
    {frames : List Frame} (hw : Writes (cl.proposerConfig p) state frames state')
    (hstate : (s.proposers p).state = state) (hlive : (s.proposers p).halted = false)
    (before : List Frame) (hbefore : ∀ f ∈ before, Requests p s.net f) :
    ∃ s', (paxos σ cl.toCluster).Reaches (Event.Matching T) s s' ∧
      Tracks T cl
        ((d.setProposer p (.ok state')).sendAll cl (.proposer p) (before ++ frames)) s' := by
  obtain ⟨outs, hacts, rfl⟩ := hw
  obtain ⟨s', hreach, hmoved⟩ := moved_acts (T := T) hacts hstate hlive
  refine ⟨s', hreach, (h.moved hmoved ((TracksProposer.of_moved hmoved).1 rfl)).sendAll
    (.of_matching (hr.reaches hreach)) fun f hf => ?_⟩
  have hnet {net : List (Packet ι κ)} (hf : Requests p net f) (hsub : ∀ x ∈ net, x ∈ s'.net) :
      Requests p s'.net f :=
    hf.imp (Exists.imp fun _ h => ⟨h.1, hsub _ h.2⟩) (Exists.imp fun _ h => ⟨h.1, hsub _ h.2⟩)
  rw [hmoved.net] at hnet ⊢
  rcases List.mem_append.mp hf with hf | hf
  · exact hnet (hbefore f hf) fun _ hm => List.mem_append_left _ hm
  · exact hnet (requests_frames outs hf) fun _ hm => List.mem_append_right _ hm

end

-- Where a proposer reads: from its clients, and from its connections to the acceptors.
def Way.ReadBy (p : ι) : Way ι κ → Prop
  | .down c => c.peer = .proposer p
  | .client q _ => q = p
  | .up _ => False

-- A frame that holds a whole message is handled as that message.
theorem proposerHandleFrame_eq (env : ProposerEnv) {n : Nat} {p : Proposer} (hp : FlagsSized n p)
    {type : Nat} {buffer : List UInt8} {msg : ProposerMsg}
    (h : readProposerMsg type buffer = some msg) (haddr : msg.Addressed n) :
    proposerHandleFrame env p type buffer =
      ((proposerReceive env p msg).mapError .fault).map fun r => (r.1, r.2.frames) := by
  rw [proposerHandleFrame, proposerDispatch_eq env hp h haddr]

-- The call that takes in a message, and how `try_accept` goes on from it.
structure TakesIn (T : Terms) (cl : Layout ι κ) (s : System ι κ σ) (p : ι) (env : ProposerEnv)
    (f : Frame) (c : ProposerCall) : Prop where
  offered : c.offered s.net p = true
  submits : (Event.call p c : Event ι κ).Submits T
  takes : ∀ junk now, c ≠ .prepare junk now
  fault : ∀ fault, proposerCall (cl.proposerConfig p) (s.proposers p).state c = .error fault →
    proposerHandleFrame env (s.proposers p).state f.type.code f.payload = .error (.fault fault)
  result : ∀ mid out, proposerCall (cl.proposerConfig p) (s.proposers p).state c = .ok (mid, out) →
    ∃ req, out.frames = req.toList.map .prepareReq ∧
      proposerHandleFrame env (s.proposers p).state f.type.code f.payload =
        .ok ((tryAccept env mid req).1, (tryAccept env mid req).2.frames)

section

variable {T : Terms} {cl : Layout ι κ} {s : System ι κ σ} {p : ι}

omit [MapStorage σ] in
theorem takesIn_prepareAck (env : ProposerEnv)
    (hflags : FlagsSized cl.acceptors (s.proposers p).state) {rec : AcceptorRecord}
    (hid : rec.acceptorId < cl.acceptors) (hm : .prepareAck p rec.toPrepareAck ∈ s.net)
    (hsend : (Frame.prepareAck rec).Sendable) :
    TakesIn T cl s p env (.prepareAck rec) (.receivePrepareAck rec.toPrepareAck env.now) := by
  have hread : readProposerMsg (Frame.prepareAck rec).type.code (Frame.prepareAck rec).payload =
      some (.prepareAck rec.toPrepareAck) := by
    rw [readProposerMsg, if_pos (by rfl), Frame.readPrepareAck_payload hsend]
    rfl
  have hhandle := proposerHandleFrame_eq env hflags hread hid
  refine ⟨by simpa [ProposerCall.offered] using hm, trivial,
    fun _ _ h => (by cases h), fun fault hf => ?_, fun mid out hok => ?_⟩
  · simp only [proposerCall, Except.map] at hf
    split at hf
    · rename_i e he
      cases hf
      rw [hhandle, proposerReceive, he]
      rfl
    · cases hf
  · simp only [proposerCall, Except.map] at hok
    split at hok
    · cases hok
    · rename_i r he
      cases hok
      refine ⟨r.2, ?_, by rw [hhandle, proposerReceive, he]; rfl⟩
      cases r.2 <;> rfl

omit [MapStorage σ] in
theorem takesIn_acceptAck (env : ProposerEnv)
    (hflags : FlagsSized cl.acceptors (s.proposers p).state) {aa : AcceptAck} {pad : List UInt8}
    (hid : aa.acceptorId < cl.acceptors)
    (hm : .acceptAck .everyone aa ∈ s.net ∨ .acceptAck (.proposer p) aa ∈ s.net)
    (hsend : (Frame.acceptAck aa pad).Sendable) :
    TakesIn T cl s p env (.acceptAck aa pad) (.receiveAcceptAck aa env.now) := by
  have hread : readProposerMsg (Frame.acceptAck aa pad).type.code
      (Frame.acceptAck aa pad).payload = some (.acceptAck aa) := by
    rw [readProposerMsg, if_neg (by simp [Frame.type, PaxosMsgCode.code]), if_pos (by rfl),
      readAcceptAck_payload hsend]
    rfl
  have hhandle := proposerHandleFrame_eq env hflags hread hid
  refine ⟨by simpa [ProposerCall.offered] using hm, trivial,
    fun _ _ h => (by cases h), fun fault hf => ?_, fun mid out hok => ?_⟩
  · simp only [proposerCall, Except.map] at hf
    split at hf
    · rename_i e he
      cases hf
      rw [hhandle, proposerReceive, he]
      rfl
    · cases hf
  · simp only [proposerCall, Except.map] at hok
    split at hok
    · cases hok
    · rename_i r he
      cases hok
      refine ⟨Wire.AcceptAckResult.request r.2, ?_, by rw [hhandle, proposerReceive, he]; rfl⟩
      cases r.2 <;> rfl

omit [MapStorage σ] in
theorem takesIn_submit (env : ProposerEnv) {value : Value} (hvalue : T.values value) :
    TakesIn T cl s p env (.submit value) (.propose value) := by
  refine ⟨rfl, hvalue, fun _ _ h => (by cases h), fun _ h => (by cases h),
    fun mid out hok => ⟨none, ?_, ?_⟩⟩
  · cases hok
    rfl
  · cases hok
    rw [proposerHandleFrame, proposerDispatch, if_neg (by simp [Frame.type, PaxosMsgCode.code]),
      if_neg (by simp [Frame.type, PaxosMsgCode.code]), if_pos (by rfl)]
    rfl

omit [DecidableEq ι] [DecidableEq κ] in
theorem Regular.flagsSized (h : Regular cl.toCluster s) (p : ι) :
    FlagsSized cl.acceptors (s.proposers p).state :=
  ⟨(h.lawful p).booked.acceptors, (h.lawful p).booked.preparing,
    fun inst hi => ((h.lawful p).booked.accepting inst hi).1⟩

-- Whatever arrives at a proposer is taken in by a call that the system can make.
theorem takesIn_frame (hreg : Regular cl.toCluster s)
    (hcompact : Compact MAX_CLIENT_VALUE cl.toCluster s) {way : Way ι κ} (hway : way.ReadBy p)
    {f : Frame} (hf : Allows T s way f) (hsend : f.Sendable) (env : ProposerEnv) :
    ∃ c, TakesIn T cl s p env f c := by
  have hflags := hreg.flagsSized p
  cases hf with
  | prepareReq | acceptReq | repeatReq => exact hway.elim
  | prepareAck q c rec hpeer hm =>
      obtain rfl : q = p := Peer.proposer.inj (hpeer.symm.trans hway)
      obtain ⟨rec', he, hrec⟩ := hcompact.net _ hm
      exact ⟨_, takesIn_prepareAck env hflags (compact_of_prepareAck he hrec).acceptorId hm hsend⟩
  | acceptAck c aa pad hm =>
      have haud : c.peer.audience = .proposer p := by rw [show c.peer = .proposer p from hway]; rfl
      rw [haud] at hm
      have hack : aa.Compact cl.acceptors MAX_CLIENT_VALUE := by
        rcases hm with hm | hm
        · exact hcompact.net _ hm
        · exact hcompact.net _ hm
      exact ⟨_, takesIn_acceptAck env hflags hack.acceptorId hm hsend⟩
  | submit q number value hvalue => exact ⟨_, takesIn_submit env hvalue⟩

theorem Proposer.HasRoom.noWrap {window : Nat} {state : Proposer} (h : state.HasRoom window)
    {c : ProposerCall} (hc : ∀ junk now, c ≠ .prepare junk now) : c.NoWrap state := by
  cases c with
  | prepare junk now => exact absurd rfl (hc junk now)
  | receivePrepareAck ack now =>
      simp only [ProposerCall.NoWrap]
      split
      · trivial
      · rename_i inst hfind
        exact fun _ => h.2.1 inst (instanceFind_mem hfind)
  | receiveAcceptAck ack now =>
      simp only [ProposerCall.NoWrap]
      split
      · trivial
      · rename_i inst hfind
        exact fun _ => h.2.2 inst (instanceFind_mem hfind)
  | propose | accept | timeoutPrepare | timeoutAccept => trivial

theorem Move.nextPrepareIid {q q' : Proposer} {c : ProposerCall} {out : ProposerOutput}
    (hm : Move q c q' out) (hc : ∀ junk now, c ≠ .prepare junk now) :
    q'.nextPrepareIid = q.nextPrepareIid := by
  cases hm with
  | prepare junk now => exact absurd rfl (hc junk now)
  | _ => rfl

theorem TracksProposer.ok {state : Proposer} {pr : ProposerProc}
    (h : TracksProposer (.ok state) pr) : pr.state = state ∧ pr.halted = false := by
  cases h with
  | live _ hlive => exact ⟨rfl, hlive⟩

omit [MapStorage σ] [DecidableEq κ] in
theorem Deployment.setProposer_twice {σ : Type} (d : Deployment ι κ σ) (p : ι)
    (x y : Except FrameFault Proposer) :
    (d.setProposer p x).setProposer p y = d.setProposer p y := by
  simp [Deployment.setProposer]

theorem evproposerHandleMsg_frame (env : ProposerEnv) (state : Proposer) {f : Frame}
    (h : f.Sendable) (rest : List UInt8) :
    evproposerHandleMsg env state (f.bytes ++ rest) =
      (if f.payload.length ≤ PAXOS_MAX_VALUE_SIZE then
        proposerHandleFrame env state f.type.code f.payload else .ok (state, []), rest) :=
  handleMsg_frame _ h _ rest

theorem Tracks.readProposer {T : Terms} {d d' : Deployment ι κ (Logged σ)} {way : Way ι κ}
    {now : Timeval} {junk : Nat → Nat → Int} (h : Tracks T cl d s)
    (hr : (paxos σ cl.toCluster).Reachable (Event.Matching T) s) (hway : way.ReadBy p)
    (hroom : ∀ state, d.proposers p = .ok state → state.HasRoom (cl.preexecWindow p))
    (hstep : d.readProposer cl p way now junk = some d') :
    ∃ s', (paxos σ cl.toCluster).Reaches (Event.Matching T) s s' ∧
      Tracks T cl d' s' := by
  have hreg : Regular cl.toCluster s := .of_reachable hr fun _ _ h => h.1.1
  unfold Deployment.readProposer at hstep
  cases hd : d.proposers p with
  | error fault =>
      rw [hd] at hstep
      cases hstep
  | ok state =>
      have hproc := h.proposer p
      rw [hd] at hproc
      obtain ⟨rfl, hlive⟩ := hproc.ok
      have hspace := hroom _ hd
      rw [hd] at hstep
      dsimp only at hstep
      split_ifs at hstep with hready
      obtain ⟨f, rest, hsend, hf, hinput, hrest⟩ := (h.pipe way).read hready
      have hnext := h.setInput hrest
      have hmsg := evproposerHandleMsg_frame ⟨cl.preexecWindow p, now, junk⟩
        (s.proposers p).state hsend rest
      rw [hinput] at hstep
      generalize evproposerHandleMsg ⟨cl.preexecWindow p, now, junk⟩ (s.proposers p).state
        (f.bytes ++ rest) = result at hstep hmsg
      by_cases hsize : f.payload.length ≤ PAXOS_MAX_VALUE_SIZE
      · rw [if_pos hsize] at hmsg
        obtain ⟨c, hc⟩ := takesIn_frame hreg (.of_matching hr) hway hf hsend
          ⟨cl.preexecWindow p, now, junk⟩
        have hwrap := hspace.noWrap hc.takes
        have hmatch : (Event.call p c : Event ι κ).Matching T s :=
          ⟨⟨⟨trivial, hwrap⟩, hc.submits⟩, fun _ => trivial⟩
        cases hcall : proposerCall (cl.proposerConfig p) (s.proposers p).state c with
        | error fault =>
            rw [hc.fault fault hcall] at hmsg
            subst hmsg
            cases hstep
            obtain ⟨s', hreach, hmoved⟩ := moved_fault hlive hc.offered hcall hmatch
            exact ⟨s', hreach, hnext.moved hmoved
              ((TracksProposer.of_moved hmoved).2 fault rfl)⟩
        | ok r =>
            obtain ⟨mid, out⟩ := r
            obtain ⟨req, hframes, hhandle⟩ := hc.result mid out hcall
            have hsame := (proposerCall_move (fun inst hi =>
              ((hreg.lawful p).booked.preparing inst hi).1) hcall).nextPrepareIid hc.takes
            obtain ⟨frames, hsent, hwrites⟩ := tryAccept_writes (cl.proposerConfig p)
              ⟨cl.preexecWindow p, now, junk⟩ mid req (by rw [hsame]; exact hspace.1)
            obtain ⟨⟨last, sent⟩, htry⟩ : ∃ r, tryAccept
              ⟨cl.preexecWindow p, now, junk⟩ mid req = r := ⟨_, rfl⟩
            rw [htry] at hhandle hsent hwrites
            rw [hhandle] at hmsg
            subst hmsg
            cases hstep
            obtain ⟨s₁, hreach, hmoved⟩ := moved_call hlive hc.offered hcall hmatch
            obtain ⟨s', hreach', htracks⟩ :=
              (hnext.moved hmoved ((TracksProposer.of_moved hmoved).1 rfl)).acts
                (hr.reaches hreach) hwrites hmoved.state hmoved.halted
                (req.toList.map .prepareReq) fun f hf => by
                  rw [← hframes] at hf
                  have hone := requests_frames (κ := κ) (p := p) [out]
                    (by simpa using hf)
                  rw [hmoved.net]
                  refine hone.imp (Exists.imp fun _ h => ⟨h.1, ?_⟩)
                    (Exists.imp fun _ h => ⟨h.1, ?_⟩)
                  · exact List.mem_append_right _ (by simpa using h.2)
                  · exact List.mem_append_right _ (by simpa using h.2)
            rw [Deployment.setProposer_twice, ← hsent] at htracks
            exact ⟨s', hreach.trans hreach', htracks⟩
      · rw [if_neg hsize] at hmsg
        subst hmsg
        cases hstep
        exact hnext.acts hr (.done _) rfl hlive [] (by simp)

-- The sweep ends within its bound, and what it sends again are calls of the system.
theorem Tracks.checkTimeouts {T : Terms} {d d' : Deployment ι κ (Logged σ)} {now : Timeval}
    (h : Tracks T cl d s)
    (hr : (paxos σ cl.toCluster).Reachable (Event.Matching T) s)
    (hstep : d.checkTimeouts cl p now = some d') :
    ∃ s', (paxos σ cl.toCluster).Reaches (Event.Matching T) s s' ∧
      Tracks T cl d' s' := by
  have hreg : Regular cl.toCluster s := .of_reachable hr fun _ _ h => h.1.1
  unfold Deployment.checkTimeouts at hstep
  cases hd : d.proposers p with
  | error fault =>
      rw [hd] at hstep
      cases hstep
  | ok state =>
      have hproc := h.proposer p
      rw [hd] at hproc
      obtain ⟨rfl, hlive⟩ := hproc.ok
      rw [hd] at hstep
      dsimp only at hstep
      obtain ⟨fuel, hfuel⟩ : ∃ fuel, fuel = (s.proposers p).state.prepareInstances.length +
          (s.proposers p).state.acceptInstances.length + 1 := ⟨_, rfl⟩
      rw [← hfuel] at hstep
      obtain ⟨prepares, accepts, hsweep, _⟩ := proposerCheckTimeouts_eq (cl.proposerConfig p) now
        (fun inst hi => ((hreg.lawful p).booked.accepting inst hi).2.1)
        (show (s.proposers p).state.prepareInstances.length < fuel by omega) (by omega)
      have hwrites := proposerCheckTimeouts_writes hsweep
      rw [hsweep] at hstep
      cases hstep
      exact h.acts hr hwrites rfl hlive [] (by simp)

end

end LibPaxos
