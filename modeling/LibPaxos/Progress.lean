import LibPaxos.NoLostValue
import LibPaxos.Quorum.FirstMajority
import LibPaxos.Simulation
import LibPaxos.StaleAcks
import LibPaxos.System.Theorems

namespace LibPaxos

open MapStorage

variable {ι κ σ : Type} [MapStorage σ]

-- One proposer moves, with a client that submits one value, and the acceptors whose flags
-- its clearing loops reach answer it. Everyone else may be gone.
def Event.SoloBy (cl : Cluster ι κ) (p : ι) (value : Value) : Event ι κ → Prop
  | .call q c => q = p ∧ ∀ w, c = .propose w → w = value
  | .handle a (.prepareReq q _) => a < paxosQuorum cl.acceptors ∧ q = p
  | .handle a (.acceptReq q _) => a < paxosQuorum cl.acceptors ∧ q = p
  | _ => False

def Event.Solo (cl : Cluster ι κ) (p : ι) (value : Value) (s : System ι κ σ) (e : Event ι κ) :
    Prop :=
  (e.noRestart ∧ e.noWrap s) ∧ e.SoloBy cl p value

-- The first majority can still promise ballots of the instance above those it has.
def System.HasRoom (cl : Cluster ι κ) (s : System ι κ σ) (i : Nat) : Prop :=
  ∀ a < paxosQuorum cl.acceptors, ∀ rec, records (s.acceptors a).store i = some rec →
    MAX_N_OF_PROPOSERS + rec.ballot < 2 ^ 32

-- Its members have promised no more than this ballot.
def System.Bounded (cl : Cluster ι κ) (s : System ι κ σ) (i ballot : Nat) : Prop :=
  ∀ a < paxosQuorum cl.acceptors, ∀ rec, records (s.acceptors a).store i = some rec →
    rec.ballot ≤ ballot

-- What a run for one instance leaves alone.
structure Spares (p : ι) (i : Nat) (s s' : System ι κ σ) : Prop where
  records : ∀ a j, j ≠ i → records (s'.acceptors a).store j = records (s.acceptors a).store j
  live : (s'.proposers p).halted = (s.proposers p).halted

theorem Spares.refl (p : ι) (i : Nat) (s : System ι κ σ) : Spares p i s s :=
  ⟨fun _ _ _ => rfl, rfl⟩

theorem Spares.trans {p : ι} {i : Nat} {s s' s'' : System ι κ σ} (h : Spares p i s s')
    (h' : Spares p i s' s'') : Spares p i s s'' :=
  ⟨fun a j hj => (h'.records a j hj).trans (h.records a j hj), h'.live.trans h.live⟩

theorem paxosQuorum_le {n : Nat} (hn : 1 ≤ n) : paxosQuorum n ≤ n := by
  unfold paxosQuorum
  omega

section

variable {P : Proposer} {inst : Instance} {rest : List Instance} (ack : PrepareAck)

-- What an answer to a prepare request does to the first instance.
theorem receivePrepareAck_preempts (hfront : P.prepareInstances = inst :: rest)
    (hiid : ack.iid = inst.iid) (hlt : inst.ballot < ack.ballot) (now : Timeval) :
    proposerReceivePrepareAck P ack now =
      .ok ({ P with prepareInstances := (preparePreempt P inst now).1 :: rest },
        some (preparePreempt P inst now).2) := by
  have hfind : instanceFind P.prepareInstances ack.iid = some inst := by
    simp [instanceFind, hfront, hiid]
  have hge : ¬ack.ballot < inst.ballot := by omega
  have hne : ¬ack.ballot = inst.ballot := by omega
  simp only [proposerReceivePrepareAck, hfind, hge, hne, if_false]
  simp [hfront, instanceWrite, hiid]

theorem receivePrepareAck_flags {n : Nat} (hfront : P.prepareInstances = inst :: rest)
    (hiid : ack.iid = inst.iid) (hballot : ack.ballot = inst.ballot) (hsized : inst.quorum.Sized n)
    (hid : ack.acceptorId < n) (now : Timeval) :
    ∃ P' inst', proposerReceivePrepareAck P ack now = .ok (P', none) ∧
      P'.prepareInstances = inst' :: rest ∧ inst'.iid = inst.iid ∧ inst'.ballot = inst.ballot ∧
      inst'.quorum.flagged ack.acceptorId = true ∧
      ∀ a, inst.quorum.flagged a = true → inst'.quorum.flagged a = true := by
  have hfind : instanceFind P.prepareInstances ack.iid = some inst := by
    simp [instanceFind, hfront, hiid]
  simp only [proposerReceivePrepareAck, hfind, hballot, lt_irrefl, if_false, if_true]
  rcases quorumAdd_ok hsized hid with hadd | hadd
  · rw [hadd]
    exact ⟨P, inst, rfl, hfront, rfl, rfl, flagged_of_not_added hadd, fun _ h => h⟩
  · obtain ⟨quorum, hadd⟩ : ∃ quorum, quorumAdd inst.quorum ack.acceptorId = .ok (quorum, true) :=
      ⟨_, hadd⟩
    have hflag := flagged_add hadd
    rw [hadd]
    refine ⟨_, (promiseValue P.values { inst with quorum := quorum } ack).2, rfl, ?_, by simp,
      by simp, by simp [hflag], fun a ha => by simp [hflag, ha]⟩
    simp [hfront, instanceWrite, hiid]

end

-- An instance gets into phase 1, or gets a new ballot, by a call that hands out its
-- request.
theorem Move.requests {P P' : Proposer} {c : ProposerCall} {out : ProposerOutput}
    (hm : Move P c P' out) {inst' : Instance} (hi : inst' ∈ P'.prepareInstances) :
    (∃ inst ∈ P.prepareInstances, inst.iid = inst'.iid ∧ inst.ballot = inst'.ballot) ∨
      out = .prepareReq ⟨inst'.iid, inst'.ballot⟩ := by
  have hsplit' {pre post : List Instance} {inst new : Instance}
      (hsplit : P.prepareInstances = pre ++ inst :: post) (hi : inst' ∈ pre ++ new :: post) :
      inst' = new ∨
        ∃ inst ∈ P.prepareInstances, inst.iid = inst'.iid ∧ inst.ballot = inst'.ballot := by
    rw [hsplit]
    rcases List.mem_append.mp hi with hi | hi
    · exact .inr ⟨inst', List.mem_append_left _ hi, rfl, rfl⟩
    · rcases List.mem_cons.mp hi with hi | hi
      · exact .inl hi
      · exact .inr ⟨inst', List.mem_append_right _ (List.mem_cons_of_mem _ hi), rfl, rfl⟩
  have hold (hi : inst' ∈ P.prepareInstances) :
      ∃ inst ∈ P.prepareInstances, inst.iid = inst'.iid ∧ inst.ballot = inst'.ballot :=
    ⟨inst', hi, rfl, rfl⟩
  cases hm with
  | idle | propose | ackCounted | ackClosed | timeoutAccept => exact .inl (hold hi)
  | prepare junk now =>
      rcases List.mem_append.mp hi with hi | hi
      · exact .inl (hold hi)
      · rw [List.mem_singleton.mp hi]
        exact .inr rfl
  | promise ack now pre post inst quorum hsplit hfind hiid hballot hadd =>
      rcases hsplit' hsplit hi with rfl | hi
      · exact .inl ⟨inst, by simp [hsplit], by simp, by simp⟩
      · exact .inl hi
  | preempt ack now pre post inst hsplit hfind hlt =>
      rcases hsplit' hsplit hi with rfl | hi
      · exact .inr rfl
      · exact .inl hi
  | accept inst rest value values hfront hreached hvalue =>
      exact .inl (hold (hfront ▸ List.mem_cons_of_mem _ hi))
  | ackPreempted ack now pre post inst hsplit hfind hne =>
      rcases List.mem_cons.mp hi with rfl | hi
      · exact .inr rfl
      · exact .inl (hold hi)
  | timeoutPrepare iter pre post inst hsplit =>
      rcases hsplit' hsplit hi with rfl | hi
      · exact .inl ⟨inst, by simp [hsplit], rfl, rfl⟩
      · exact .inl hi

variable [DecidableEq ι] [DecidableEq κ] {cl : Cluster ι κ} {p : ι} {value : Value}
  {s : System ι κ σ}

-- Every instance of phase 1 has its prepare request among the packets.
theorem prepareReq_of_reachable
    (hr : (paxos σ cl).Reachable (fun s e => e.noRestart ∧ e.noWrap s) s) (p : ι) :
    ∀ inst ∈ (s.proposers p).state.prepareInstances,
      .prepareReq p ⟨inst.iid, inst.ballot⟩ ∈ s.net := by
  refine hr.invariant
    (fun s => ∀ p, ∀ inst ∈ (s.proposers p).state.prepareInstances,
      .prepareReq p ⟨inst.iid, inst.ballot⟩ ∈ s.net)
    (fun p => by simp [paxos, System.start, ProposerProc.start, proposerNew])
    (fun s e s' hr h hg hs => ?_) p
  have hsteps := step_steps hs
  intro q inst hi
  cases hsteps with
  | call p c pr out hlive hoffer hcall =>
      dsimp only at hi ⊢
      by_cases hq : q = p
      · subst hq
        rw [Function.update_self] at hi
        rcases ProposerProc.call_cases (opened_of_reachable hr q).preparing hcall with
          ⟨_, _, rfl, _⟩ | ⟨q', hm, rfl⟩
        · exact List.mem_append_left _ (h q inst hi)
        · rcases hm.requests hi with ⟨old, hold, hiid, hballot⟩ | rfl
          · rw [← hiid, ← hballot]
            exact List.mem_append_left _ (h q old hold)
          · exact List.mem_append_right _ (List.mem_singleton.mpr rfl)
      · rw [Function.update_of_ne hq] at hi
        exact List.mem_append_left _ (h q inst hi)
  | restart p => exact hg.1.elim
  | handle a packet acceptor replies ha hm hr => exact List.mem_append_left _ (h q inst hi)
  | learn l c state hstate hoffer => exact h q inst hi
  | checkHoles l state hstate => exact List.mem_append_left _ (h q inst hi)

theorem countsFirst_of_reachable
    (hr : (paxos σ cl).Reachable (fun s e => e.noRestart ∧ e.noWrap s) s) (p : ι) :
    ∀ inst ∈ (s.proposers p).state.prepareInstances, inst.quorum.CountsFirst := by
  have hinv := hr.invariant
    (fun s => ∀ p, (∀ inst ∈ (s.proposers p).state.prepareInstances, inst.quorum.CountsFirst) ∧
      ∀ inst ∈ (s.proposers p).state.acceptInstances, inst.quorum.CountsFirst)
    (fun p => by simp [paxos, System.start, ProposerProc.start, proposerNew])
    (fun s e s' hr h hg hs => ?_)
  · exact (hinv p).1
  apply (step_steps hs).forall_proposers
    (P := fun _ pr => (∀ inst ∈ pr.state.prepareInstances, inst.quorum.CountsFirst) ∧
      ∀ inst ∈ pr.state.acceptInstances, inst.quorum.CountsFirst) h
  · rintro q c pr out rfl _ hcall
    rcases ProposerProc.call_cases (opened_of_reachable hr q).preparing hcall with
      ⟨_, _, rfl, _⟩ | ⟨q', hm, rfl⟩
    · exact h q
    · exact hm.forall_mem (P := fun inst => inst.quorum.CountsFirst)
        (fun _ _ _ _ => Quorum.countsFirst_clear _) (fun _ _ ha _ hquorum => hquorum ▸ ha)
        (fun _ _ => Quorum.countsFirst_clear _) (fun _ _ _ hadd ha => ha.add hadd) (h q).1 (h q).2
  · rintro q rfl
    exact hg.1.elim

-- What is known of the states of all runs is known of these too.
theorem solo_reachable {s' : System ι κ σ}
    (hr : (paxos σ cl).Reachable (fun s e => e.noRestart ∧ e.noWrap s) s)
    (h : (paxos σ cl).Reaches (Event.Solo cl p value) s s') :
    (paxos σ cl).Reachable (fun s e => e.noRestart ∧ e.noWrap s) s' :=
  hr.reaches (h.mono fun _ _ he => he.1)

theorem solo_call (cl : Cluster ι κ) {c : ProposerCall} {P : Proposer} {out : ProposerOutput}
    (hlive : (s.proposers p).halted = false) (hoffer : c.offered s.net p = true)
    (hwrap : c.NoWrap (s.proposers p).state) (hvalue : ∀ w, c = .propose w → w = value)
    (hcall : proposerCall (cl.proposerConfig p) (s.proposers p).state c = .ok (P, out)) :
    ∃ s', (paxos σ cl).Reaches (Event.Solo cl p value) s s' ∧ s'.acceptors = s.acceptors ∧
      (s'.proposers p).state = P ∧ (s'.proposers p).halted = false ∧
      s'.net = s.net ++ out.packets p := by
  have hproc : (s.proposers p).call (cl.proposerConfig p) c =
      ((s.proposers p).after c P out, out) := by
    rw [ProposerProc.call, hcall]
  have hsolo : Event.Solo cl p value s (.call p c) := ⟨⟨trivial, hwrap⟩, rfl, hvalue⟩
  refine ⟨_, .one hsolo (Steps.call p c _ out hlive hoffer hproc).enabled, rfl, ?_, ?_, rfl⟩
  · dsimp only
    rw [Function.update_self]
    rfl
  · dsimp only
    rw [Function.update_self]
    exact hlive

theorem solo_handle {a : Nat} {packet : Packet ι κ} {acceptor : Logged σ}
    {replies : List (Packet ι κ)} (ha : a < paxosQuorum cl.acceptors) (hm : packet ∈ s.net)
    (hsolo : (Event.handle a packet).SoloBy cl p value)
    (hhandle : handleReq (s.acceptors a) packet = some (acceptor, replies)) :
    ∃ s', (paxos σ cl).Reaches (Event.Solo cl p value) s s' ∧ s'.proposers = s.proposers ∧
      s'.acceptors = Function.update s.acceptors a acceptor ∧ s'.net = s.net ++ replies := by
  have hlt : a < cl.acceptors := Nat.lt_of_lt_of_le ha (paxosQuorum_le cl.acceptors_pos)
  have hguard : Event.Solo cl p value s (.handle a packet) := ⟨⟨trivial, trivial⟩, hsolo⟩
  exact ⟨_, .one hguard (Steps.handle a packet acceptor replies hlt hm hhandle).enabled,
    rfl, rfl, rfl⟩

-- The record of one instance at one acceptor is replaced. Its ballot is not lowered.
structure Rewrites (a i : Nat) (rec : AcceptorRecord) (s s' : System ι κ σ) : Prop where
  others : ∀ b j, b ≠ a ∨ j ≠ i →
    records (s'.acceptors b).store j = records (s.acceptors b).store j
  self : records (s'.acceptors a).store i = some rec
  raised : ∀ old, records (s.acceptors a).store i = some old → old.ballot ≤ rec.ballot

omit [DecidableEq ι] [DecidableEq κ] in
theorem rewrites_update {a i : Nat} {rec : AcceptorRecord} {s' : System ι κ σ}
    {acceptor : Logged σ} (hacceptors : s'.acceptors = Function.update s.acceptors a acceptor)
    (hgrows : (s.acceptors a).Grows acceptor)
    (hstore : records acceptor.store =
      Function.update (records (s.acceptors a).store) i (some rec)) : Rewrites a i rec s s' := by
  refine ⟨fun b j hne => ?_, ?_, fun old hold => ?_⟩
  · rw [hacceptors]
    by_cases hb : b = a
    · subst hb
      rw [Function.update_self, hstore, Function.update_of_ne (hne.resolve_left (by simp))]
    · rw [Function.update_of_ne hb]
  · rw [hacceptors, Function.update_self, hstore, Function.update_self]
  · obtain ⟨new, hnew, hle⟩ := hgrows.ballot i old hold
    rw [hstore, Function.update_self] at hnew
    exact Option.some.inj hnew ▸ hle

omit [DecidableEq ι] [DecidableEq κ] in
theorem Rewrites.bounded {a i b : Nat} {rec : AcceptorRecord} {s' : System ι κ σ}
    (h : Rewrites a i rec s s') (hb : s.Bounded cl i b) (hrec : rec.ballot ≤ b) :
    s'.Bounded cl i b := by
  intro a' ha' old hold
  by_cases he : a' = a
  · subst he
    rw [h.self] at hold
    exact Option.some.inj hold ▸ hrec
  · rw [h.others a' i (.inl he)] at hold
    exact hb a' ha' old hold

-- An acceptor is asked to prepare.
theorem solo_ask (hr : (paxos σ cl).Reachable (fun s e => e.noRestart ∧ e.noWrap s) s) {i b a : Nat}
    (ha : a < paxosQuorum cl.acceptors) (hm : .prepareReq p ⟨i, b⟩ ∈ s.net) :
    ∃ s' rec, (paxos σ cl).Reaches (Event.Solo cl p value) s s' ∧ s'.proposers = s.proposers ∧
      .prepareAck p rec.toPrepareAck ∈ s'.net ∧ rec.acceptorId = a ∧ rec.iid = i ∧
      Rewrites a i rec s s' ∧
      (rec.ballot = b ∨ records (s.acceptors a).store i = some rec ∧ b < rec.ballot) := by
  have hvoter := (Honest.of_reachable hr).voter a
  obtain ⟨acceptor, rec, he, _, hgrows, _, hid, hiid, _, hstore, hcase⟩ := hvoter.prepare ⟨i, b⟩
  have hhandle : handleReq (s.acceptors a) (.prepareReq p ⟨i, b⟩ : Packet ι κ) =
      some (acceptor, [.prepareAck p rec.toPrepareAck]) := by
    rw [handleReq, handlePrepareReq, he]
    rfl
  obtain ⟨s', hreach, hproposers, hacceptors, hnet⟩ := solo_handle ha hm ⟨ha, rfl⟩ hhandle
  refine ⟨s', rec, hreach, hproposers, ?_, hid, hiid,
    rewrites_update hacceptors hgrows hstore, hcase⟩
  rw [hnet]
  exact List.mem_append_right _ (List.mem_singleton.mpr rfl)

-- The acceptors of the first majority are asked in turn to accept. None has promised
-- more, so all do.
theorem solo_spread
    (hr : (paxos σ cl).Reachable (fun s e => e.noRestart ∧ e.noWrap s) s) {i b : Nat} {v : Value}
    (hm : .acceptReq p ⟨i, b, v⟩ ∈ s.net) (hb : s.Bounded cl i b) :
    ∃ s', (paxos σ cl).Reaches (Event.Solo cl p value) s s' ∧ s'.proposers = s.proposers ∧
      Spares p i s s' ∧ s'.ChosenAt cl i b v := by
  have hturn (k : Nat) (hk : k ≤ paxosQuorum cl.acceptors) :
      ∃ s', (paxos σ cl).Reaches (Event.Solo cl p value) s s' ∧ s'.proposers = s.proposers ∧
        Spares p i s s' ∧ s'.Bounded cl i b ∧ .acceptReq p ⟨i, b, v⟩ ∈ s'.net ∧
        ∀ a < k, s'.Accepted a i b v := by
    induction k with
    | zero => exact ⟨s, .refl s, rfl, .refl p i s, hb, hm, fun a ha => by omega⟩
    | succ k ih =>
        obtain ⟨mid, hreach, hproposers, hspares, hbound, hmid, haccepted⟩ := ih (by omega)
        have hhonest := Honest.of_reachable (solo_reachable hr hreach)
        obtain ⟨acceptor, rec, he, _, hgrows, _, _, _, hstore, hcase⟩ :=
          (hhonest.voter k).accept ⟨i, b, v⟩
        obtain ⟨hrec, hsaved⟩ : rec = acceptRecord k ⟨i, b, v⟩ ∧
            acceptor.saved = (mid.acceptors k).saved ++ [⟨i, b, v⟩] := by
          rcases hcase with hcase | ⟨hold, hlt, _⟩
          · exact hcase
          · exact absurd (hbound k (by omega) rec hold) (Nat.not_le.mpr hlt)
        have hhandle : handleReq (mid.acceptors k) (.acceptReq p ⟨i, b, v⟩ : Packet ι κ) =
            some (acceptor, [.acceptAck (if b = rec.ballot then .everyone else .proposer p)
              rec]) := by
          rw [handleReq, handleAcceptReq, he]
          rfl
        obtain ⟨s', hstep, hproposers', hacceptors, hnet⟩ := solo_handle
          (Nat.lt_of_succ_le hk) hmid ⟨Nat.lt_of_succ_le hk, rfl⟩ hhandle
        have hrewrites := rewrites_update hacceptors hgrows hstore
        refine ⟨s', hreach.trans hstep, hproposers'.trans hproposers,
          hspares.trans ⟨fun a j hj => hrewrites.others a j (.inr hj), by rw [hproposers']⟩,
          hrewrites.bounded hbound (by rw [hrec]; exact Nat.le_refl b), ?_, fun a ha => ?_⟩
        · rw [hnet]
          exact List.mem_append_left _ hmid
        · rw [System.Accepted, hacceptors]
          by_cases hak : a = k
          · subst hak
            rw [Function.update_self, hsaved]
            exact List.mem_append_right _ (List.mem_singleton.mpr rfl)
          · rw [Function.update_of_ne hak]
            exact haccepted a (by omega)
  obtain ⟨s', hreach, hproposers, hspares, _, _, haccepted⟩ := hturn _ (Nat.le_refl _)
  refine ⟨s', hreach, hproposers, hspares, Finset.range (paxosQuorum cl.acceptors),
    ⟨Finset.range_subset_range.mpr (paxosQuorum_le cl.acceptors_pos), ?_⟩,
    fun a ha => haccepted a (Finset.mem_range.mp ha)⟩
  rw [Finset.card_range]
  exact Nat.le_refl _

-- A proposer and the first of its instances in phase 1.
structure Fronts (p : ι) (inst : Instance) (rest : List Instance) (s : System ι κ σ) : Prop where
  live : (s.proposers p).halted = false
  front : (s.proposers p).state.prepareInstances = inst :: rest

-- The proposer takes in an answer to the first of its requests.
theorem solo_hear (cl : Cluster ι κ) {inst : Instance} {rest : List Instance}
    (h : Fronts p inst rest s) {rec : AcceptorRecord}
    (hm : .prepareAck p rec.toPrepareAck ∈ s.net) (hiid : rec.iid = inst.iid)
    (hwrap : inst.ballot < rec.ballot → MAX_N_OF_PROPOSERS + inst.ballot < 2 ^ 32) {P : Proposer}
    {out : Option PrepareReq}
    (hcall : proposerReceivePrepareAck (s.proposers p).state rec.toPrepareAck ⟨0, 0⟩ =
      .ok (P, out)) :
    ∃ s', (paxos σ cl).Reaches (Event.Solo cl p value) s s' ∧ s'.acceptors = s.acceptors ∧
      (s'.proposers p).state = P ∧ (s'.proposers p).halted = false := by
  have hfind : instanceFind (s.proposers p).state.prepareInstances rec.toPrepareAck.iid =
      some inst := by
    simp [instanceFind, h.front, AcceptAck.toPrepareAck, hiid]
  have hnoWrap : (ProposerCall.receivePrepareAck rec.toPrepareAck ⟨0, 0⟩).NoWrap
      (s.proposers p).state := by
    simp only [ProposerCall.NoWrap, hfind]
    exact hwrap
  obtain ⟨s', hreach, hacceptors, hstate, hlive, _⟩ := solo_call cl h.live
    (by simpa [ProposerCall.offered] using hm) hnoWrap (fun _ h => by cases h)
    (show proposerCall _ _ (.receivePrepareAck rec.toPrepareAck ⟨0, 0⟩) = .ok (P, .ofPrepare out) by
      rw [proposerCall, hcall]
      rfl)
  exact ⟨s', hreach, hacceptors, hstate, hlive⟩

-- The proposer is preempted until its ballot is not below what the first majority has
-- promised. Each round raises the ballot, which has an end.
theorem solo_raise
    (hr : (paxos σ cl).Reachable (fun s e => e.noRestart ∧ e.noWrap s) s) {inst : Instance}
    {rest : List Instance} (h : Fronts p inst rest s) (hroom : s.HasRoom cl inst.iid) :
    ∃ s' inst', (paxos σ cl).Reaches (Event.Solo cl p value) s s' ∧ Spares p inst.iid s s' ∧
      Fronts p inst' rest s' ∧ inst'.iid = inst.iid ∧ s'.Bounded cl inst.iid inst'.ballot := by
  induction hk : 2 ^ 32 - inst.ballot using Nat.strong_induction_on generalizing s inst with
  | h k ih =>
      by_cases hbound : s.Bounded cl inst.iid inst.ballot
      · exact ⟨s, inst, .refl s, .refl p _ s, h, rfl, hbound⟩
      · simp only [System.Bounded, not_forall, Nat.not_le] at hbound
        obtain ⟨a, ha, old, hold, hlt⟩ := hbound
        have hfront : inst ∈ (s.proposers p).state.prepareInstances := by simp [h.front]
        obtain ⟨asked, rec, hask, hproposers, hm, _, hiid, hrewrites, hcase⟩ :=
          solo_ask hr ha (prepareReq_of_reachable hr p inst hfront)
        have hraised := hrewrites.raised old hold
        obtain ⟨hrec, hhigh⟩ : records (s.acceptors a).store inst.iid = some rec ∧
            inst.ballot < rec.ballot := by
          rcases hcase with he | hcase
          · omega
          · exact hcase
        have hwrap : MAX_N_OF_PROPOSERS + inst.ballot < 2 ^ 32 := by
          have := hroom a ha rec hrec
          omega
        have hsame (b j : Nat) :
            records (asked.acceptors b).store j = records (s.acceptors b).store j := by
          by_cases hb : b = a ∧ j = inst.iid
          · rw [hb.1, hb.2, hrewrites.self, hrec]
          · exact hrewrites.others b j (not_and_or.mp hb)
        have hasked : Fronts p inst rest asked := ⟨hproposers ▸ h.live, hproposers ▸ h.front⟩
        obtain ⟨heard, hhear, hacceptors, hstate, hlive⟩ := solo_hear cl hasked hm
          hiid (fun _ => hwrap)
          (receivePrepareAck_preempts rec.toPrepareAck hasked.front hiid hhigh ⟨0, 0⟩)
        have hown : OwnBallot (asked.proposers p).state.id inst.ballot := by
          have hlaw := (Regular.of_reachable hr fun _ _ h => h).lawful p
          rw [hproposers, hlaw.booked.ident]
          exact hlaw.emitting.ownPrepare inst hfront
        have hnext : (preparePreempt (asked.proposers p).state inst ⟨0, 0⟩).1.ballot =
            MAX_N_OF_PROPOSERS + inst.ballot := (hown.next hwrap).1
        have hspares : Spares p inst.iid s heard := by
          refine ⟨fun b j _ => ?_, hlive.trans h.live.symm⟩
          rw [hacceptors, hsame]
        obtain ⟨s', inst', hreach, hspares', hfront', hiid', hbound'⟩ := ih
          (2 ^ 32 - (preparePreempt (asked.proposers p).state inst ⟨0, 0⟩).1.ballot)
          (by rw [hnext, ← hk]; unfold MAX_N_OF_PROPOSERS at hwrap ⊢; omega)
          (solo_reachable (solo_reachable hr hask) hhear)
          ⟨hlive, by rw [hstate]⟩ (fun b hb old hold => by
            rw [hacceptors, hsame] at hold
            exact hroom b hb old hold) rfl
        exact ⟨s', inst', (hask.trans hhear).trans hreach, hspares.trans hspares', hfront', hiid',
          hbound'⟩

-- The first majority is asked in turn to prepare. Nobody has promised more, so every
-- answer is a promise.
theorem solo_collect
    (hr : (paxos σ cl).Reachable (fun s e => e.noRestart ∧ e.noWrap s) s) {inst : Instance}
    {rest : List Instance} (h : Fronts p inst rest s)
    (hb : s.Bounded cl inst.iid inst.ballot) :
    ∃ s' inst', (paxos σ cl).Reaches (Event.Solo cl p value) s s' ∧ Spares p inst.iid s s' ∧
      Fronts p inst' rest s' ∧ inst'.iid = inst.iid ∧ s'.Bounded cl inst.iid inst'.ballot ∧
      quorumReached inst'.quorum = true := by
  have hsized {t : System ι κ σ} {item : Instance}
      (ht : (paxos σ cl).Reachable (fun s e => e.noRestart ∧ e.noWrap s) t)
      (hf : Fronts p item rest t) :
      item.quorum.Sized cl.acceptors :=
    (((Regular.of_reachable ht fun _ _ h => h).lawful p).booked.preparing item
      (by simp [hf.front])).2
  have hturn (k : Nat) (hk : k ≤ paxosQuorum cl.acceptors) :
      ∃ s' inst', (paxos σ cl).Reaches (Event.Solo cl p value) s s' ∧ Spares p inst.iid s s' ∧
        Fronts p inst' rest s' ∧ inst'.iid = inst.iid ∧ s'.Bounded cl inst.iid inst'.ballot ∧
        ∀ a < k, inst'.quorum.flagged a = true := by
    induction k with
    | zero => exact ⟨s, inst, .refl s, .refl p _ s, h, rfl, hb, fun a ha => by omega⟩
    | succ k ih =>
        obtain ⟨mid, item, hreach, hspares, hfront, hitem, hbound, hflags⟩ := ih (by omega)
        have hmid := solo_reachable hr hreach
        obtain ⟨asked, rec, hask, hproposers, hm, hid, hiid, hrewrites, hcase⟩ :=
          solo_ask hmid (Nat.lt_of_succ_le hk)
            (prepareReq_of_reachable hmid p item (by simp [hfront.front]))
        rw [hitem] at hrewrites hcase
        have hballot : rec.ballot = item.ballot := by
          rcases hcase with he | ⟨hold, hlt⟩
          · exact he
          · exact absurd (hbound k (by omega) rec hold) (Nat.not_le.mpr hlt)
        have hasked : Fronts p item rest asked :=
          ⟨hproposers ▸ hfront.live, hproposers ▸ hfront.front⟩
        have hlt : rec.acceptorId < cl.acceptors := by
          have := paxosQuorum_le cl.acceptors_pos
          omega
        obtain ⟨P, new, hcall, hnew, hiid', hballot', hset, hkeep⟩ :=
          receivePrepareAck_flags rec.toPrepareAck hasked.front hiid hballot
            (hsized (solo_reachable hmid hask) hasked) hlt ⟨0, 0⟩
        obtain ⟨heard, hhear, hacceptors, hstate, hlive⟩ := solo_hear cl hasked hm
          hiid (fun hlt => by omega) hcall
        refine ⟨heard, new, hreach.trans (hask.trans hhear),
          hspares.trans ⟨fun a j hj => ?_, hlive.trans hfront.live.symm⟩,
          ⟨hlive, by rw [hstate, hnew]⟩, hiid'.trans hitem, ?_, fun a ha => ?_⟩
        · rw [hacceptors, hrewrites.others a j (.inr hj)]
        · rw [hballot']
          intro a ha old hold
          rw [hacceptors] at hold
          exact hrewrites.bounded hbound (Nat.le_of_eq hballot) a ha old hold
        · by_cases hak : a = k
          · rw [hak, ← hid]
            exact hset
          · exact hkeep a (hflags a (by omega))
  obtain ⟨s', inst', hreach, hspares, hfront, hiid, hbound, hflags⟩ := hturn _ (Nat.le_refl _)
  have hr' := solo_reachable hr hreach
  refine ⟨s', inst', hreach, hspares, hfront, hiid, hbound, ?_⟩
  apply (countsFirst_of_reachable hr' p inst' (by simp [hfront.front])).reached
  rw [(hsized hr' hfront).1]
  exact hflags

-- Phase 2 of a prepared instance starts with its value or the first of the queue.
theorem solo_accept
    (hr : (paxos σ cl).Reachable (fun s e => e.noRestart ∧ e.noWrap s) s) {inst : Instance}
    {rest : List Instance} (h : Fronts p inst rest s) (hreached : quorumReached inst.quorum = true)
    {v : Value}
    (hv : inst.value = some v ∨ inst.value = none ∧ (s.proposers p).state.values.head? = some v) :
    ∃ s', (paxos σ cl).Reaches (Event.Solo cl p value) s s' ∧ s'.acceptors = s.acceptors ∧
      (s'.proposers p).halted = false ∧ (s'.proposers p).state.prepareInstances = rest ∧
      .acceptReq p ⟨inst.iid, inst.ballot, v⟩ ∈ s'.net := by
  have hopen : inst.closed = false :=
    (opened_of_reachable hr p).preparing inst (by simp [h.front])
  have hout : (proposerAccept (s.proposers p).state).1.prepareInstances = rest ∧
      (proposerAccept (s.proposers p).state).2 = some ⟨inst.iid, inst.ballot, v⟩ := by
    have hdrop : (inst :: rest).dropWhile (fun item => item.closed) = inst :: rest := by
      simp [hopen]
    rcases hv with hv | ⟨hv, hhead⟩
    · simp [proposerAccept, h.front, hdrop, hreached, hv]
    · simp [proposerAccept, h.front, hdrop, hreached, hv, hhead]
  have hcall : proposerCall (cl.proposerConfig p) (s.proposers p).state .accept =
      .ok ((proposerAccept (s.proposers p).state).1,
        .ofAccept (proposerAccept (s.proposers p).state).2) := rfl
  obtain ⟨s', hreach, hacceptors, hstate, hlive, hnet⟩ := solo_call cl
    (c := .accept) h.live rfl trivial (fun _ h => by cases h) hcall
  refine ⟨s', hreach, hacceptors, hlive, by rw [hstate, hout.1], ?_⟩
  rw [hnet, hout.2]
  exact List.mem_append_right _ (List.mem_singleton.mpr rfl)

-- With a client that submits, the first of its instances can be chosen.
theorem solo_front (value : Value)
    (hr : (paxos σ cl).Reachable (fun s e => e.noRestart ∧ e.noWrap s) s)
    {inst : Instance} {rest : List Instance} (h : Fronts p inst rest s)
    (hroom : s.HasRoom cl inst.iid) :
    ∃ s' b v, (paxos σ cl).Reaches (Event.Solo cl p value) s s' ∧ Spares p inst.iid s s' ∧
      (s'.proposers p).state.prepareInstances = rest ∧ s'.ChosenAt cl inst.iid b v := by
  obtain ⟨raised, item, hraise, hspares₁, hfront₁, hiid₁, hbound₁⟩ := solo_raise hr h hroom
  obtain ⟨ready, item', hcollect, hspares₂, hfront₂, hiid₂, hbound₂, hreached⟩ :=
    solo_collect (solo_reachable hr hraise) hfront₁ (hiid₁ ▸ hbound₁)
  have hready := solo_reachable (solo_reachable hr hraise) hcollect
  -- A value is at hand or is submitted now.
  obtain ⟨full, hsubmit, hsame, hfront₃, v, hv⟩ : ∃ full,
      (paxos σ cl).Reaches (Event.Solo cl p value) ready full ∧ full.acceptors = ready.acceptors ∧
        Fronts p item' rest full ∧ ∃ v, item'.value = some v ∨
          item'.value = none ∧ (full.proposers p).state.values.head? = some v := by
    cases hvalue : item'.value with
    | some v => exact ⟨ready, .refl _, rfl, hfront₂, v, .inl rfl⟩
    | none =>
        cases hvalues : (ready.proposers p).state.values with
        | cons v values => exact ⟨ready, .refl _, rfl, hfront₂, v, .inr ⟨rfl, by rw [hvalues]; rfl⟩⟩
        | nil =>
            obtain ⟨full, hreach, hacceptors, hstate, hlive, _⟩ := solo_call cl
              (c := .propose value) hfront₂.live rfl trivial (fun w h => by cases h; rfl) rfl
            refine ⟨full, hreach, hacceptors, ⟨hlive, ?_⟩, value, .inr ⟨rfl, ?_⟩⟩
            · rw [hstate]
              exact hfront₂.front
            · rw [hstate, proposerPropose, hvalues]
              rfl
  obtain ⟨sent, haccept, hacceptors, hlive, hrest, hm⟩ :=
    solo_accept (solo_reachable hready hsubmit) hfront₃ hreached hv
  rw [hiid₂, hiid₁] at hm
  rw [hiid₁] at hspares₂ hbound₂
  obtain ⟨s', hspread, hproposers, hspares₃, hchosen⟩ :=
    solo_spread (solo_reachable (solo_reachable hready hsubmit) haccept) hm (fun a ha old hold => by
      rw [hacceptors, hsame] at hold
      exact hbound₂ a ha old hold)
  refine ⟨s', _, v, (((hraise.trans hcollect).trans hsubmit).trans haccept).trans hspread, ?_,
    by rw [hproposers, hrest], hchosen⟩
  refine hspares₁.trans (hspares₂.trans (Spares.trans ⟨fun a j _ => ?_, ?_⟩ hspares₃))
  · rw [hacceptors, hsame]
  · rw [hlive, hfront₂.live]

-- The instances before it in the queue are chosen first.
theorem solo_listed (value : Value) {i : Nat} (insts : List Instance)
    (hr : (paxos σ cl).Reachable (fun s e => e.noRestart ∧ e.noWrap s) s)
    (hlive : (s.proposers p).halted = false)
    (hinsts : (s.proposers p).state.prepareInstances = insts) (hi : i ∈ insts.map Instance.iid)
    (hroom : ∀ inst ∈ insts, s.HasRoom cl inst.iid) :
    ∃ s' b v, (paxos σ cl).Reaches (Event.Solo cl p value) s s' ∧ s'.ChosenAt cl i b v := by
  induction insts generalizing s with
  | nil => cases hi
  | cons front rest ih =>
      obtain ⟨s', b, v, hreach, hspares, hrest, hchosen⟩ := solo_front value hr ⟨hlive, hinsts⟩
        (hroom front List.mem_cons_self)
      by_cases hfront : front.iid = i
      · exact ⟨s', b, v, hreach, hfront ▸ hchosen⟩
      · have hnodup := ((Regular.of_reachable hr fun _ _ h => h).lawful p).booked.nodup_prepare
        rw [hinsts, List.map_cons, List.nodup_cons] at hnodup
        have hi' : i ∈ rest.map Instance.iid :=
          (List.mem_cons.mp hi).resolve_left (Ne.symm hfront)
        obtain ⟨s'', b, v, hreach', hchosen⟩ := ih (solo_reachable hr hreach)
          (hspares.live.trans hlive) hrest hi' (fun inst hm a ha rec hrec => by
            have hne : inst.iid ≠ front.iid := fun he =>
              hnodup.1 (he ▸ List.mem_map_of_mem hm)
            rw [hspares.records a inst.iid hne] at hrec
            exact hroom inst (List.mem_cons_of_mem _ hm) a ha rec hrec)
        exact ⟨s'', b, v, hreach.trans hreach', hchosen⟩

-- More instances are opened until this one is.
theorem solo_open (cl : Cluster ι κ) {i : Nat} (hi : i < 2 ^ 32)
    (hlive : (s.proposers p).halted = false) :
    ∃ s', (paxos σ cl).Reaches (Event.Solo cl p value) s s' ∧ s'.acceptors = s.acceptors ∧
      (s'.proposers p).halted = false ∧ i ≤ (s'.proposers p).state.nextPrepareIid := by
  induction hk : i - (s.proposers p).state.nextPrepareIid generalizing s with
  | zero => exact ⟨s, .refl s, rfl, hlive, by omega⟩
  | succ k ih =>
      have hnext : (s.proposers p).state.nextPrepareIid + 1 < 2 ^ 32 := by omega
      obtain ⟨mid, hreach, hacceptors, hstate, hlive', _⟩ := solo_call cl
        (c := .prepare (fun _ => 0) ⟨0, 0⟩) hlive rfl hnext (fun _ h => by cases h) rfl
      have hiid : (mid.proposers p).state.nextPrepareIid =
          (s.proposers p).state.nextPrepareIid + 1 := by
        rw [hstate]
        exact uint32_of_lt hnext
      obtain ⟨s', hreach', hacceptors', hdone⟩ := ih hlive' (by omega)
      exact ⟨s', hreach.trans hreach', hacceptors'.trans hacceptors, hdone⟩

-- An acceptor that has promised more answers with its record, which stays as it is.
theorem solo_refused
    (hr : (paxos σ cl).Reachable (fun s e => e.noRestart ∧ e.noWrap s) s) {i b a : Nat} {v : Value}
    (ha : a < paxosQuorum cl.acceptors) (hm : .acceptReq p ⟨i, b, v⟩ ∈ s.net)
    {old : AcceptorRecord} (hold : records (s.acceptors a).store i = some old)
    (hlt : b < old.ballot) :
    ∃ s' rec, (paxos σ cl).Reaches (Event.Solo cl p value) s s' ∧ s'.proposers = s.proposers ∧
      (∀ a j, records (s'.acceptors a).store j = records (s.acceptors a).store j) ∧
      .acceptAck (.proposer p) rec ∈ s'.net ∧ records (s.acceptors a).store i = some rec ∧
      rec.iid = i ∧ b < rec.ballot := by
  obtain ⟨acceptor, rec, he, _, hgrows, _, _, hiid, hstore, hcase⟩ :=
    ((Honest.of_reachable hr).voter a).accept ⟨i, b, v⟩
  have hhandle : handleReq (s.acceptors a) (.acceptReq p ⟨i, b, v⟩ : Packet ι κ) =
      some (acceptor, [.acceptAck (if b = rec.ballot then .everyone else .proposer p) rec]) := by
    rw [handleReq, handleAcceptReq, he]
    rfl
  obtain ⟨s', hreach, hproposers, hacceptors, hnet⟩ := solo_handle ha hm ⟨ha, rfl⟩ hhandle
  have hrewrites := rewrites_update hacceptors hgrows hstore
  obtain ⟨hrec, hhigh⟩ : records (s.acceptors a).store i = some rec ∧ b < rec.ballot := by
    rcases hcase with ⟨rfl, _⟩ | ⟨hrec, hhigh, _⟩
    · have hraised : old.ballot ≤ b := hrewrites.raised old hold
      omega
    · exact ⟨hrec, hhigh⟩
  refine ⟨s', rec, hreach, hproposers, fun c j => ?_, ?_, hrec, hiid, hhigh⟩
  · by_cases hc : c = a ∧ j = i
    · rw [hc.1, hc.2, hrewrites.self, hrec]
    · exact hrewrites.others c j (not_and_or.mp hc)
  · rw [hnet, if_neg (Nat.ne_of_lt hhigh)]
    exact List.mem_append_right _ (List.mem_singleton.mpr rfl)

-- The instance that such an answer is about goes back to phase 1.
theorem solo_back (cl : Cluster ι κ) (hlive : (s.proposers p).halted = false)
    {rec : AcceptorRecord} (hm : .acceptAck (.proposer p) rec ∈ s.net) {inst : Instance}
    (hfind : instanceFind (s.proposers p).state.acceptInstances rec.iid = some inst)
    (hlt : inst.ballot < rec.ballot) (hwrap : MAX_N_OF_PROPOSERS + inst.ballot < 2 ^ 32) :
    ∃ s', (paxos σ cl).Reaches (Event.Solo cl p value) s s' ∧ s'.acceptors = s.acceptors ∧
      (s'.proposers p).halted = false ∧
      rec.iid ∈ (s'.proposers p).state.prepareInstances.map Instance.iid := by
  have hne : ¬rec.ballot = inst.ballot := by omega
  have hnoWrap : (ProposerCall.receiveAcceptAck rec ⟨0, 0⟩).NoWrap (s.proposers p).state := by
    simp only [ProposerCall.NoWrap, hfind]
    exact fun _ => hwrap
  have hoffer : (ProposerCall.receiveAcceptAck rec ⟨0, 0⟩).offered s.net p = true := by
    simp [ProposerCall.offered, hm]
  have hcall : proposerReceiveAcceptAck (s.proposers p).state rec ⟨0, 0⟩ =
      .ok ({ (s.proposers p).state with
        acceptInstances := instanceRemove (s.proposers p).state.acceptInstances inst
        prepareInstances := (preparePreempt (s.proposers p).state inst ⟨0, 0⟩).1 ::
          (s.proposers p).state.prepareInstances },
        .preempted (preparePreempt (s.proposers p).state inst ⟨0, 0⟩).2) := by
    simp only [proposerReceiveAcceptAck, hfind, hne, if_false]
  obtain ⟨s', hreach, hacceptors, hstate, hlive', _⟩ := solo_call cl hlive hoffer hnoWrap
    (fun _ h => by cases h)
    (show proposerCall _ _ (.receiveAcceptAck rec ⟨0, 0⟩) = .ok (_, .ofResult _) by
      rw [proposerCall, hcall]
      rfl)
  refine ⟨s', hreach, hacceptors, hlive', ?_⟩
  rw [hstate]
  exact List.mem_cons.mpr (.inl (instanceFind_split hfind).1.symm)

-- An instance of phase 2 is chosen, or an acceptor that has promised more sends it back
-- to phase 1.
theorem solo_retry (hr : (paxos σ cl).Reachable (fun s e => e.noRestart ∧ e.noWrap s) s)
    (hlive : (s.proposers p).halted = false) {i : Nat} {inst : Instance}
    (hfind : instanceFind (s.proposers p).state.acceptInstances i = some inst)
    (hroom : s.HasRoom cl i) :
    ∃ s', (paxos σ cl).Reaches (Event.Solo cl p value) s s' ∧
      ((∃ b v, s'.ChosenAt cl i b v) ∨
        (s'.proposers p).halted = false ∧
          (∀ a j, records (s'.acceptors a).store j = records (s.acceptors a).store j) ∧
          i ∈ (s'.proposers p).state.prepareInstances.map Instance.iid) := by
  have hreg := Regular.of_reachable hr fun _ _ h => h
  obtain ⟨⟨v, _, hemit⟩, _⟩ := (hreg.lawful p).emitting.accepting inst (instanceFind_mem hfind)
  rw [(instanceFind_split hfind).1] at hemit
  have hm : .acceptReq p ⟨i, inst.ballot, v⟩ ∈ s.net :=
    (hreg.honest.request p _).mpr ⟨_, List.mem_cons_self, hemit⟩
  by_cases hbound : s.Bounded cl i inst.ballot
  · obtain ⟨s', hreach, _, _, hchosen⟩ := solo_spread hr hm hbound
    exact ⟨s', hreach, .inl ⟨_, v, hchosen⟩⟩
  · simp only [System.Bounded, not_forall, Nat.not_le] at hbound
    obtain ⟨a, ha, old, hold, hlt⟩ := hbound
    obtain ⟨asked, rec, hask, hproposers, hsame, hack, hrec, rfl, hhigh⟩ :=
      solo_refused hr ha hm hold hlt
    have hwrap := hroom a ha rec hrec
    rw [← hproposers] at hlive hfind
    obtain ⟨s', hback, hacceptors, hlive', hlisted⟩ :=
      solo_back cl hlive hack hfind hhigh (by omega)
    exact ⟨s', hask.trans hback, .inr ⟨hlive', fun b j => by rw [hacceptors, hsame], hlisted⟩⟩

theorem discharged_of_reachable
    (hr : (paxos σ cl).Reachable (fun s e => e.noRestart ∧ e.noWrap s) s) (p : ι) :
    Discharged cl s (s.proposers p) := by
  have hinv := hr.invariant
    (fun s => ∀ p, Conserved (s.proposers p) ∧ Discharged cl s (s.proposers p))
    (fun p => ⟨.start _ _, .start _ _ _ _⟩) fun s e s' hr h hg hs =>
      Discharged.step (.of_reachable hr fun _ _ h => h) h (step_steps hs) hg.1
  exact (hinv p).2

-- No instance is ever lost to the system: whatever has happened, a proposer that still
-- runs can get any instance chosen with the first majority of the acceptors alone.
theorem any_instance_can_be_chosen (cl : Cluster ι κ) (s : System ι κ σ)
    (hr : (paxos σ cl).Reachable (fun s e => e.noRestart ∧ e.noWrap s) s) (p : ι)
    (hlive : (s.proposers p).halted = false) (hroom : ∀ i, s.HasRoom cl i) (value : Value) (i : Nat)
    (hi : 1 ≤ i ∧ i < 2 ^ 32) :
    ∃ s' b v, (paxos σ cl).Reaches (Event.Solo cl p value) s s' ∧ s'.ChosenAt cl i b v := by
  obtain ⟨opened, hopen, hacceptors, hlive', hnext⟩ := solo_open cl hi.2 hlive
  have hr' := solo_reachable hr hopen
  have hroom' (j : Nat) : opened.HasRoom cl j := by
    intro a ha rec hrec
    rw [hacceptors] at hrec
    exact hroom j a ha rec hrec
  have hplace := ((Regular.of_reachable hr' fun _ _ h => h).lawful p).booked.place i
  rw [if_pos ⟨hi.1, hnext⟩, ProposerProc.places] at hplace
  by_cases hprepare : i ∈ (opened.proposers p).state.prepareInstances.map Instance.iid
  · obtain ⟨s', b, v, hreach, hchosen⟩ := solo_listed value _ hr' hlive' rfl hprepare
      fun inst _ => hroom' inst.iid
    exact ⟨s', b, v, hopen.trans hreach, hchosen⟩
  by_cases haccept : i ∈ (opened.proposers p).state.acceptInstances.map Instance.iid
  · obtain ⟨item, hitem, hiid⟩ := List.mem_map.mp haccept
    obtain ⟨inst, hfind⟩ : ∃ inst,
        instanceFind (opened.proposers p).state.acceptInstances i = some inst :=
      Option.isSome_iff_exists.mp (List.find?_isSome.mpr ⟨item, hitem, by simpa using hiid⟩)
    obtain ⟨tried, hretry, ⟨b, v, hchosen⟩ | ⟨hlive'', hsame, hprepare⟩⟩ :=
      solo_retry hr' hlive' hfind (hroom' i)
    · exact ⟨tried, b, v, hopen.trans hretry, hchosen⟩
    · obtain ⟨s', b, v, hreach, hchosen⟩ := solo_listed value _ (solo_reachable hr' hretry)
        hlive'' rfl hprepare fun inst _ a ha rec hrec => hroom' inst.iid a ha rec (hsame a _ ▸ hrec)
      exact ⟨s', b, v, (hopen.trans hretry).trans hreach, hchosen⟩
  · rw [List.count_eq_zero.mpr hprepare, List.count_eq_zero.mpr haccept] at hplace
    obtain ⟨inst, hinst, rfl⟩ := List.mem_map.mp (List.count_pos_iff.mp (by omega :
      0 < ((opened.proposers p).finished.map Instance.iid).count i))
    obtain ⟨v, _, hchosen⟩ := (discharged_of_reachable hr' p).finished inst hinst
    exact ⟨opened, inst.ballot, v, hopen, hchosen⟩

-- The value of proposer 0 is accepted at ballot 10 and proposer 1 has promises at 11.
-- Proposer 0 can still end the instance alone.
theorem any_instance_can_be_chosen_overtaken : ∃ s : System (Fin 2) Empty BdbStorage,
    (paxos BdbStorage (.numbered Empty 2 1)).run (System.start (.numbered Empty 2 1))
        (overtaken 0 1) = some s ∧
      (s.acceptors 0).store.db 1 = some ⟨0, 1, 11, 10, false, [7]⟩ ∧
      ∃ s' b v, (paxos BdbStorage (.numbered Empty 2 1)).Reaches
          (Event.Solo (.numbered Empty 2 1) 0 [8]) s s' ∧
        s'.ChosenAt (.numbered Empty 2 1) 1 b v := by
  obtain ⟨s, hrun, hlive, hdb⟩ : ∃ s : System (Fin 2) Empty BdbStorage,
      (paxos BdbStorage (.numbered Empty 2 1)).run (System.start (.numbered Empty 2 1))
        (overtaken 0 1) = some s ∧ (s.proposers 0).halted = false ∧
      (s.acceptors 0).store.db = Function.update (Function.update (Function.update (fun _ => none)
        1 (some ⟨0, 1, 10, 0, false, []⟩)) 1 (some ⟨0, 1, 10, 10, false, [7]⟩))
        1 (some ⟨0, 1, 11, 10, false, [7]⟩) :=
    ⟨_, rfl, rfl, rfl⟩
  have hr := TransitionSystem.reachable_of_run
    (fun (s : System (Fin 2) Empty BdbStorage) e => e.noRestart ∧ e.noWrap s) (by decide) hrun
  refine ⟨s, hrun, by rw [hdb, Function.update_self],
    any_instance_can_be_chosen _ s hr 0 hlive (fun i a ha rec hrec => ?_) [8] 1 (by decide)⟩
  obtain rfl : a = 0 := Nat.lt_one_iff.mp ha
  change (s.acceptors 0).store.db i = some rec at hrec
  rw [hdb] at hrec
  by_cases hi : i = 1
  · rw [hi, Function.update_self] at hrec
    cases hrec
    decide
  · simp [Function.update_of_ne hi] at hrec

end LibPaxos
