import LibPaxos.Agreement
import LibPaxos.Learner.Theorems

namespace LibPaxos

open MapStorage Voting

variable {ι κ σ : Type} [MapStorage σ]

-- An acceptor answers a repeat request only from a record whose value was accepted
-- at the record's own ballot.
def Event.RepeatsAccepted (s : System ι κ σ) : Event ι κ → Prop
  | .handle a (.repeatReq _ iid) => ∀ rec ∈ records (s.acceptors a).store iid,
      rec.valueBallot = rec.ballot
  | _ => True

instance Event.RepeatsAccepted.decidable (s : System ι κ σ) :
    (e : Event ι κ) → Decidable (e.RepeatsAccepted s)
  | .handle _ (.repeatReq _ _) => Option.decidableForallMem _
  | .handle _ (.prepareReq _ _) => isTrue trivial
  | .handle _ (.prepareAck _ _) => isTrue trivial
  | .handle _ (.acceptReq _ _) => isTrue trivial
  | .handle _ (.acceptAck _ _) => isTrue trivial
  | .call _ _ => isTrue trivial
  | .restart _ => isTrue trivial
  | .learn _ _ => isTrue trivial
  | .checkHoles _ => isTrue trivial

-- An ack that a learner takes in reports a value accepted at the ack's own ballot, as
-- every broadcast ack does.
def Event.LearnsAccepted : Event ι κ → Prop
  | .learn _ (.receiveAccept ack) => ack.valueBallot = ack.ballot
  | _ => True

instance Event.LearnsAccepted.decidable : (e : Event ι κ) → Decidable e.LearnsAccepted
  | .learn _ (.receiveAccept _) => inferInstanceAs (Decidable (_ = _))
  | .learn _ .deliverNext => isTrue trivial
  | .handle _ _ => isTrue trivial
  | .call _ _ => isTrue trivial
  | .restart _ => isTrue trivial
  | .checkHoles _ => isTrue trivial

-- Requests and acks are for instances from 1 on, at positive ballots.
def Packet.Positive : Packet ι κ → Prop
  | .prepareReq _ req => 1 ≤ req.iid ∧ 0 < req.ballot
  | .acceptReq _ req => 1 ≤ req.iid ∧ 0 < req.ballot
  | .acceptAck _ ack => 1 ≤ ack.iid ∧ 0 < ack.ballot
  | _ => True

structure Positive (s : System ι κ σ) : Prop where
  net : ∀ packet ∈ s.net, packet.Positive
  record : ∀ a i rec, records (s.acceptors a).store i = some rec → 1 ≤ i ∧ 0 < rec.ballot

theorem Positive.start (cl : Cluster ι κ) : Positive (System.start cl : System ι κ σ) := by
  refine ⟨fun packet hm => ?_, fun a i rec hr => ?_⟩
  · cases hm
  · obtain ⟨_, _, hrec⟩ := MapStorage.open_eq (σ := σ) a
    change records (storageOpen a : σ) i = some rec at hr
    rw [hrec] at hr
    cases hr

-- The requests of a lawful proposer.
theorem Lawful.request {id n : Nat} {pr pr' : ProposerProc} (h : Lawful id n pr)
    (h' : Lawful id n pr') {cfg : PaxosConfig} {c : ProposerCall} {out : ProposerOutput}
    (hcall : pr.call cfg c = (pr', out)) :
    (∀ req, out = .prepareReq req → 1 ≤ req.iid ∧ 0 < req.ballot) ∧
      ∀ req, out = .acceptReq req → 1 ≤ req.iid ∧ 0 < req.ballot := by
  have hpos {b : Nat} (hb : OwnBallot id b) : 0 < b := by
    have hle := hb.2
    unfold MAX_N_OF_PROPOSERS at hle
    omega
  constructor
  · rintro req rfl
    rcases h.booked.call_cases hcall with ⟨_, _, _, he⟩ | ⟨p, hm, rfl⟩
    · cases he
    · obtain ⟨inst, hinst, hiid, hballot⟩ := hm.prepareReq
      rw [← hiid, ← hballot]
      exact ⟨(h'.booked.prepare_range hinst).1, hpos (h'.emitting.ownPrepare inst hinst)⟩
  · rintro req rfl
    have hm : req ∈ pr'.emitted := by
      rw [(call_history hcall).1]
      exact List.mem_append_right _ (List.mem_singleton.mpr rfl)
    exact ⟨(h'.emitting.range req hm).1, hpos (h'.emitting.own req hm)⟩

-- What an ack tells a learner: the acceptor accepted the value at the ack's ballot.
def System.Reports (s : System ι κ σ) (ack : AcceptAck) : Prop :=
  ack.isFinal = false ∧ s.Accepted ack.acceptorId ack.iid ack.ballot ack.value

theorem System.Reports.mono {s s' : System ι κ σ} (hg : s.Grows s') {ack : AcceptAck}
    (h : s.Reports ack) : s'.Reports ack := ⟨h.1, (hg _).saved _ h.2⟩

structure Informed (cl : Cluster ι κ) (s : System ι κ σ) : Prop where
  learner : ∀ l state, (s.learners l).state = .ok state → state.Made cl.acceptors s.Reports
  delivered : ∀ l, ∀ ack ∈ (s.learners l).delivered, Backed cl.acceptors s.Reports ack

theorem Informed.start (cl : Cluster ι κ) : Informed cl (System.start cl : System ι κ σ) := by
  refine ⟨fun l state hl => learnerNew_made _ hl, fun l ack hm => ?_⟩
  cases hm

variable [DecidableEq ι] [DecidableEq κ]

theorem Positive.step {cl : Cluster ι κ} {s s' : System ι κ σ} {e : Event ι κ}
    (hreg : Regular cl s) (h : Positive s) (hs : Steps cl s e s') (hw : e.noWrap s) :
    Positive s' := by
  have hlawful := Lawful.step hreg.lawful hs hw
  cases hs with
  | restart | learn => exact ⟨h.net, h.record⟩
  | checkHoles l state hstate =>
      refine ⟨List.forall_mem_append.mpr ⟨h.net, fun packet hm => ?_⟩, h.record⟩
      obtain ⟨iid, _, rfl⟩ := List.mem_map.mp hm
      trivial
  | call p c pr out hlive hoffer hcall =>
      have hnew : Lawful (cl.id p) cl.acceptors pr := by
        have hp := hlawful p
        dsimp only at hp
        rwa [Function.update_self] at hp
      obtain ⟨hprep, hacc⟩ := (hreg.lawful p).request hnew hcall
      refine ⟨List.forall_mem_append.mpr ⟨h.net, fun packet hm => ?_⟩, h.record⟩
      rcases mem_packets hm with ⟨req, hout, rfl⟩ | ⟨req, hout, rfl⟩
      · exact hprep req hout
      · exact hacc req hout
  | handle a packet acceptor replies ha hmem hr =>
      have hold := h.record a
      -- The record of the request's instance changes, the others stay.
      have hput {iid : Nat} {new : AcceptorRecord} (hiid : 1 ≤ iid) (hnew : 0 < new.ballot)
          (hstore : records acceptor.store =
            Function.update (records (s.acceptors a).store) iid (some new)) :
          ∀ i rec, records acceptor.store i = some rec → 1 ≤ i ∧ 0 < rec.ballot := by
        rw [hstore]
        refine (Function.forall_update_iff _ fun i (o : Option AcceptorRecord) =>
          ∀ rec, o = some rec → 1 ≤ i ∧ 0 < rec.ballot).mpr ⟨?_, fun i _ => hold i⟩
        rintro rec ⟨⟩
        exact ⟨hiid, hnew⟩
      suffices hstep : (∀ packet ∈ replies, packet.Positive) ∧
          ∀ i rec, records acceptor.store i = some rec → 1 ≤ i ∧ 0 < rec.ballot by
        refine ⟨List.forall_mem_append.mpr ⟨h.net, hstep.1⟩, ?_⟩
        exact (Function.forall_update_iff s.acceptors fun _ (acc : Logged σ) =>
          ∀ i rec, records acc.store i = some rec → 1 ≤ i ∧ 0 < rec.ballot).mpr
            ⟨hstep.2, fun b _ => h.record b⟩
      have hreq := h.net packet hmem
      cases ((hreg.honest.voter a).handled hr).2.2 with
      | prepare src req _ rec hseen hid hiid hsaved hstore hcase =>
          have hrec : 0 < rec.ballot := by
            have := hreq.2
            rcases hcase with he | ⟨_, hlt⟩ <;> omega
          exact ⟨List.forall_mem_singleton.mpr trivial, hput hreq.1 hrec hstore⟩
      | accepted src req _ hseen hsaved hstore =>
          exact ⟨List.forall_mem_singleton.mpr hreq, hput hreq.1 hreq.2 hstore⟩
      | refused src req _ rec hseen hid hiid hsaved hstore hrec hlt =>
          have hpos : 1 ≤ rec.iid ∧ 0 < rec.ballot := hiid ▸ hold req.iid rec hrec
          exact ⟨List.forall_mem_singleton.mpr hpos, hstore ▸ hold⟩
      | unknown src iid _ hsaved hstore hrec =>
          exact ⟨by simp, hstore ▸ hold⟩
      | repeated src iid _ rec hseen hid hiid hsaved hstore hrec =>
          have hpos : 1 ≤ rec.iid ∧ 0 < rec.ballot := hiid ▸ hold iid rec hrec
          exact ⟨List.forall_mem_singleton.mpr hpos, hstore ▸ hold⟩

omit [MapStorage σ] in
theorem ack_of_offered {s : System ι κ σ} {l : κ} {ack : AcceptAck}
    (hoffer : (LearnerCall.receiveAccept ack).offered s.net l = true) :
    .acceptAck .everyone ack ∈ s.net ∨ .acceptAck (.learner l) ack ∈ s.net := by
  simpa [LearnerCall.offered] using hoffer

-- What a learner is offered is an ack of an acceptor for one of the instances.
theorem offered_plain {cl : Cluster ι κ} {s : System ι κ σ} (hh : Honest cl s) (hpos : Positive s)
    {l : κ} {ack : AcceptAck} (hoffer : (LearnerCall.receiveAccept ack).offered s.net l = true) :
    ack.Plain cl.acceptors := by
  rcases ack_of_offered hoffer with hm | hm
  · exact ⟨(hpos.net _ hm).1, (hh.acceptAck _ ack hm).1⟩
  · exact ⟨(hpos.net _ hm).1, (hh.acceptAck _ ack hm).1⟩

theorem reports_of_offered {cl : Cluster ι κ} {s : System ι κ σ} (hh : Honest cl s)
    (hpos : Positive s) {l : κ} {ack : AcceptAck}
    (hoffer : (LearnerCall.receiveAccept ack).offered s.net l = true)
    (hvb : ack.valueBallot = ack.ballot) : s.Reports ack := by
  obtain ⟨dst, hnet⟩ : ∃ dst, .acceptAck dst ack ∈ s.net := by
    rcases ack_of_offered hoffer with hm | hm
    · exact ⟨_, hm⟩
    · exact ⟨_, hm⟩
  obtain ⟨_, hseen, _⟩ := hh.acceptAck dst ack hnet
  have hack : 1 ≤ ack.iid ∧ 0 < ack.ballot := hpos.net _ hnet
  refine ⟨hseen.truth.final, ?_⟩
  rcases hseen.truth.vote with ⟨h0, _⟩ | hsaved
  · omega
  · rw [hvb] at hsaved
    exact hsaved

theorem Informed.step {cl : Cluster ι κ} {s s' : System ι κ σ} {e : Event ι κ}
    (hh : Honest cl s) (hpos : Positive s) (h : Informed cl s) (hs : Steps cl s e s')
    (hlearns : e.LearnsAccepted) : Informed cl s' := by
  have hgrow := hs.grows hh
  have hlearner (l : κ) (state : Learner) (hl : (s.learners l).state = .ok state) :
      state.Made cl.acceptors s'.Reports := (h.learner l state hl).mono fun _ ha => ha.mono hgrow
  have hdel (l : κ) (ack : AcceptAck) (hm : ack ∈ (s.learners l).delivered) :
      Backed cl.acceptors s'.Reports ack := (h.delivered l ack hm).mono fun _ ha => ha.mono hgrow
  cases hs with
  | restart | checkHoles | call | handle => exact ⟨hlearner, hdel⟩
  | learn l c state hstate hoffer =>
      have hcall (state' : Learner) (out : Option AcceptAck)
          (hr : learnerCall state c = .ok (state', out)) :
          state'.Made cl.acceptors s.Reports ∧ ∀ ack ∈ out, Backed cl.acceptors s.Reports ack := by
        refine (h.learner l state hstate).call (fun ack hc => ?_) hr
        subst hc
        exact ⟨reports_of_offered hh hpos hoffer hlearns, offered_plain hh hpos hoffer⟩
      suffices hproc : (∀ state', ((s.learners l).call state c).state = .ok state' →
          state'.Made cl.acceptors s.Reports) ∧
          ∀ ack ∈ ((s.learners l).call state c).delivered, Backed cl.acceptors s.Reports ack by
        refine ⟨?_, ?_⟩
        · exact (Function.forall_update_iff s.learners fun _ (lp : LearnerProc) =>
            ∀ state, lp.state = .ok state → state.Made cl.acceptors s.Reports).mpr
              ⟨hproc.1, fun l _ => h.learner l⟩
        · exact (Function.forall_update_iff s.learners fun _ (lp : LearnerProc) =>
            ∀ ack ∈ lp.delivered, Backed cl.acceptors s.Reports ack).mpr
              ⟨hproc.2, fun l _ => h.delivered l⟩
      unfold LearnerProc.call
      cases hr : learnerCall state c with
      | error fault => exact ⟨nofun, h.delivered l⟩
      | ok result =>
          obtain ⟨hmade, hout⟩ := hcall result.1 result.2 hr
          refine ⟨fun state' he => Except.ok.inj he ▸ hmade, fun ack hm => ?_⟩
          rcases List.mem_append.mp hm with hm | hm
          · exact h.delivered l ack hm
          · exact hout ack (by simpa using hm)

structure Sourced (s : System ι κ σ) : Prop where
  holds : ∀ p, (s.proposers p).state.Holds s.Submitted
  proposed : ∀ i b v, s.Proposed i b v → s.Submitted v

theorem Sourced.step {cl : Cluster ι κ} {s s' : System ι κ σ} {e : Event ι κ}
    (hreg : Regular cl s) (h : Sourced s) (hs : Steps cl s e s') (hrestart : e.noRestart) :
    Sourced s' := by
  have hquiet (hne : ∀ p c, e ≠ .call p c) (hsame : s'.proposers = s.proposers) : Sourced s' := by
    have hsub (v : Value) (hv : s.Submitted v) : s'.Submitted v := by
      unfold System.Submitted
      rw [hsame]
      exact hv
    refine ⟨fun p => hsame ▸ (h.holds p).mono hsub, fun i b v hp => hsub v ?_⟩
    exact h.proposed i b v (hs.proposed_before hreg.honest hne hp)
  cases hs with
  | handle | learn | checkHoles => exact hquiet nofun rfl
  | restart p => exact hrestart.elim
  | call p c pr out hlive hoffer hcall =>
      have hsub (v : Value) (hv : s.Submitted v ∨ v ∈ c.submits) :
          System.Submitted { s with
            proposers := Function.update s.proposers p pr, net := s.net ++ out.packets p } v :=
        submitted_of_call hcall _ hv
      have hack (ack : PrepareAck) (now : Timeval) (hc : c = .receivePrepareAck ack now)
          (hne : ack.value ≠ []) : s.Submitted ack.value := by
        rw [hc] at hoffer
        obtain ⟨rec, rfl, _, hseen⟩ := hreg.honest.prepareAck p ack (prepareAck_of_offered hoffer)
        rcases hseen.truth.vote with ⟨_, hnil⟩ | hsaved
        · exact absurd hnil hne
        · exact h.proposed _ _ _ (hreg.proposed_of_accepted hsaved)
      have hstate : pr.state.Holds (fun v => s.Submitted v ∨ v ∈ c.submits) ∧
          ∀ r, out = .acceptReq r → s.Submitted r.value ∨ r.value ∈ c.submits := by
        rcases (hreg.lawful p).booked.call_cases hcall with ⟨_, _, rfl, rfl⟩ | ⟨p', hm, rfl⟩
        · exact ⟨(h.holds p).mono fun _ => .inl, nofun⟩
        · refine ((h.holds p).mono fun _ => .inl).move hm (fun value hc => ?_)
            fun ack now hc hne => .inl (hack ack now hc hne)
          rw [hc]
          exact .inr (List.mem_singleton.mpr rfl)
      refine ⟨?_, fun i b v hp => ?_⟩
      · exact (Function.forall_update_iff s.proposers fun _ (proc : ProposerProc) =>
          proc.state.Holds (System.Submitted { s with
            proposers := Function.update s.proposers p pr, net := s.net ++ out.packets p })).mpr
          ⟨hstate.1.mono hsub, fun q _ => (h.holds q).mono fun v hv => hsub v (.inl hv)⟩
      · rcases proposed_of_call hp with hp | hout
        · exact hsub v (.inl (h.proposed i b v hp))
        · exact hsub v (hstate.2 _ hout)

theorem Positive.of_reachable {cl : Cluster ι κ} {guard : System ι κ σ → Event ι κ → Prop}
    {s : System ι κ σ} (hr : (paxos σ cl).Reachable guard s)
    (hg : ∀ s e, guard s e → e.noRestart ∧ e.noWrap s) : Positive s :=
  hr.invariant Positive (.start cl) fun s e _ hr h hw hs =>
    h.step (.of_reachable hr hg) (step_steps hs) (hg s e hw).2

-- The state of a run without restarts and wraps in which learners take in only what
-- was accepted.
theorem learner_invariants {cl : Cluster ι κ} {guard : System ι κ σ → Event ι κ → Prop}
    {s : System ι κ σ} (hr : (paxos σ cl).Reachable guard s)
    (hg : ∀ s e, guard s e → (e.noRestart ∧ e.noWrap s) ∧ e.LearnsAccepted) :
    Informed cl s ∧ Sourced s := by
  refine hr.invariant (fun s => Informed cl s ∧ Sourced s) ⟨.start cl, fun p => .new _ _ _, ?_⟩ ?_
  · rintro i b v ⟨src, hm⟩
    cases hm
  · rintro s e s' hr ⟨hinf, hsrc⟩ hw hs
    have hreg := Regular.of_reachable hr fun s e h => (hg s e h).1
    have hpos := Positive.of_reachable hr fun s e h => (hg s e h).1
    obtain ⟨⟨hrestart, _⟩, hlearns⟩ := hg s e hw
    exact ⟨hinf.step hreg.honest hpos (step_steps hs) hlearns,
      hsrc.step hreg (step_steps hs) hrestart⟩

-- Where acceptors repeat only what they accepted, their answers report it.
theorem answers_of_reachable {cl : Cluster ι κ} {guard : System ι κ σ → Event ι κ → Prop}
    {s : System ι κ σ} (hr : (paxos σ cl).Reachable guard s)
    (hg : ∀ s e, guard s e → e.RepeatsAccepted s) (l : κ) (ack : AcceptAck)
    (hm : .acceptAck (.learner l) ack ∈ s.net) : ack.valueBallot = ack.ballot := by
  have hinv := hr.invariant
    (fun s => ∀ l ack, .acceptAck (.learner l) ack ∈ s.net → ack.valueBallot = ack.ballot) ?_
    (fun s e s' hr h hw hs => ?_)
  · exact hinv l ack hm
  · intro l ack hm
    cases hm
  intro l ack hm
  have hsteps := step_steps hs
  rcases hsteps.mem_net hm with hm | ⟨p, c, pr, out, rfl, _, _, _, hm⟩ |
    ⟨a, req, acceptor, replies, rfl, hhandle, _, hm⟩ | ⟨l, iid, he⟩
  · exact h l ack hm
  · rcases mem_packets hm with ⟨_, _, he⟩ | ⟨_, _, he⟩ <;> cases he
  · cases (((Honest.of_reachable hr).voter a).handled hhandle).2.2 with
    | repeated src iid _ rec hseen hid hiid hsaved hstore hrec =>
        cases List.mem_singleton.mp hm
        exact hg _ _ hw ack hrec
    | prepare | accepted | refused | unknown => simp at hm
  · cases he

-- Then learners take in nothing else.
theorem learner_invariants_of_repeats {cl : Cluster ι κ}
    {guard : System ι κ σ → Event ι κ → Prop} {s : System ι κ σ}
    (hr : (paxos σ cl).Reachable guard s)
    (hg : ∀ s e, guard s e → (e.noRestart ∧ e.noWrap s) ∧ e.RepeatsAccepted s) :
    Informed cl s ∧ Sourced s := by
  have hlearns : (paxos σ cl).Reachable
      (fun s e => (e.noRestart ∧ e.noWrap s) ∧ e.LearnsAccepted) s := by
    refine hr.strengthen fun s e s' hr hw hs => ⟨(hg s e hw).1, ?_⟩
    cases step_steps hs with
    | call | restart | handle | checkHoles => trivial
    | learn l c state hstate hoffer =>
        cases c with
        | deliverNext => trivial
        | receiveAccept ack =>
            rcases ack_of_offered hoffer with hm | hm
            · exact ((Honest.of_reachable hr).acceptAck _ ack hm).2.2 rfl
            · exact answers_of_reachable hr (fun s e h => (hg s e h).2) l ack hm
  exact learner_invariants hlearns fun _ _ h => h

omit [DecidableEq ι] [DecidableEq κ] in
-- The acks behind a delivery report one value, that of the only proposal at their
-- ballot.
theorem Regular.chosen_of_backed {cl : Cluster ι κ} {s : System ι κ σ} (h : Regular cl s)
    {ack : AcceptAck} (hb : Backed cl.acceptors s.Reports ack) :
    s.ChosenAt cl ack.iid ack.ballot ack.value := by
  obtain ⟨hself, hfinal | ⟨group, hmaj, hg⟩⟩ := hb
  · rw [hself.1] at hfinal
    cases hfinal
  · refine ⟨group, hmaj, fun a ha => ?_⟩
    obtain ⟨other, hother, hid, hiid, hballot⟩ := hg a ha
    have hacc := hother.2
    rw [hid, hiid, hballot] at hacc
    have hsame : other.value = ack.value :=
      h.proposed_unique (h.proposed_of_accepted hacc) (h.proposed_of_accepted hself.2)
    exact hsame ▸ hacc

-- Where learners take in only acks of values accepted at the ack's ballot, every
-- delivered value was chosen and submitted. Two learners deliver the same value for an
-- instance if no client value is empty.
theorem delivered_values_chosen (cl : Cluster ι κ) :
    (∀ s : System ι κ σ,
      (paxos σ cl).Reachable (fun s e => (e.noRestart ∧ e.noWrap s) ∧ e.LearnsAccepted) s →
      ∀ l, ∀ ack ∈ (s.learners l).delivered,
        s.ChosenAt cl ack.iid ack.ballot ack.value ∧ s.Submitted ack.value) ∧
    ∀ s : System ι κ σ,
      (paxos σ cl).Reachable
        (fun s e => ((e.noRestart ∧ e.noWrap s) ∧ e.LearnsAccepted) ∧ e.nonEmpty) s →
      ∀ l l', ∀ ack ∈ (s.learners l).delivered, ∀ ack' ∈ (s.learners l').delivered,
        ack.iid = ack'.iid → ack.value = ack'.value := by
  constructor
  · intro s hr l ack hm
    have hreg := Regular.of_reachable hr fun _ _ h => h.1
    obtain ⟨hinf, hsrc⟩ := learner_invariants hr fun _ _ h => h
    have hb := hinf.delivered l ack hm
    exact ⟨hreg.chosen_of_backed hb,
      hsrc.proposed _ _ _ (hreg.proposed_of_accepted hb.1.2)⟩
  · intro s hr l l' ack hm ack' hm' hiid
    have hreg := Regular.of_reachable hr fun _ _ h => h.1.1
    obtain ⟨hinf, _⟩ := learner_invariants hr fun _ _ h => h.1
    have hsafe := Safe.of_reachable hr fun _ _ h => ⟨h.1.1, h.2⟩
    have hc := hreg.chosen_of_backed (hinf.delivered l ack hm)
    have hc' := hreg.chosen_of_backed (hinf.delivered l' ack' hm')
    rw [← hiid] at hc'
    exact hsafe.agree hreg hc hc'

-- Two instances are prepared and their values sent.
def twoInstances {ι κ : Type} (p : ι) : List (Event ι κ) :=
  [.call p (.propose [7]), .call p (.propose [8]), .call p (.prepare (fun _ => 0) ⟨0, 0⟩),
    .call p (.prepare (fun _ => 0) ⟨0, 0⟩), .handle 0 (.prepareReq p ⟨1, 10⟩),
    .handle 0 (.prepareReq p ⟨2, 10⟩), .call p (.receivePrepareAck ⟨0, 1, 10, 0, []⟩ ⟨0, 0⟩),
    .call p (.receivePrepareAck ⟨0, 2, 10, 0, []⟩ ⟨0, 0⟩), .call p .accept, .call p .accept]

-- Learner `l` hears of instance 1 by the broadcast, learner `l'` by a repeat request
-- after it has closed instance 2.
def bothLearn {ι κ : Type} (p : ι) (l l' : κ) : List (Event ι κ) :=
  twoInstances p ++
    [.handle 0 (.acceptReq p ⟨1, 10, [7]⟩), .handle 0 (.acceptReq p ⟨2, 10, [8]⟩),
      .learn l (.receiveAccept ⟨0, 1, 10, 10, false, [7]⟩), .learn l .deliverNext,
      .learn l' (.receiveAccept ⟨0, 2, 10, 10, false, [8]⟩), .checkHoles l',
      .handle 0 (.repeatReq l' 1), .learn l' (.receiveAccept ⟨0, 1, 10, 10, false, [7]⟩),
      .learn l' .deliverNext]

def oneAcceptor : Cluster (Fin 1) (Fin 2) := .solo (Fin 2) ⟨4, true, 1⟩

theorem delivered_values_chosen_bothLearn : ∃ s : System (Fin 1) (Fin 2) BdbStorage,
    (paxos BdbStorage oneAcceptor).run (System.start oneAcceptor) (bothLearn 0 0 1) = some s ∧
      (s.learners 0).delivered = [⟨0, 1, 10, 10, false, [7]⟩] ∧
      (s.learners 1).delivered = [⟨0, 1, 10, 10, false, [7]⟩] ∧
      (∀ l, ∀ ack ∈ (s.learners l).delivered,
        s.ChosenAt oneAcceptor ack.iid ack.ballot ack.value ∧ s.Submitted ack.value) ∧
      ∀ l l', ∀ ack ∈ (s.learners l).delivered, ∀ ack' ∈ (s.learners l').delivered,
        ack.iid = ack'.iid → ack.value = ack'.value := by
  obtain ⟨s, hrun, h0, h1⟩ : ∃ s : System (Fin 1) (Fin 2) BdbStorage,
      (paxos BdbStorage oneAcceptor).run (System.start oneAcceptor) (bothLearn 0 0 1) = some s ∧
        (s.learners 0).delivered = [⟨0, 1, 10, 10, false, [7]⟩] ∧
        (s.learners 1).delivered = [⟨0, 1, 10, 10, false, [7]⟩] :=
    ⟨_, rfl, by decide, by decide⟩
  have hr := TransitionSystem.reachable_of_run
    (fun s e => (e.noRestart ∧ Event.noWrap (σ := BdbStorage) s e) ∧ e.LearnsAccepted)
    (by decide) hrun
  have hr' := TransitionSystem.reachable_of_run
    (fun s e => ((e.noRestart ∧ Event.noWrap (σ := BdbStorage) s e) ∧ e.LearnsAccepted) ∧
      e.nonEmpty) (by decide) hrun
  exact ⟨s, hrun, h0, h1, (delivered_values_chosen oneAcceptor).1 s hr,
    (delivered_values_chosen oneAcceptor).2 s hr'⟩

-- The request for instance 1 is late: the repeat request finds a record that holds
-- only a promise, and the learner delivers its empty value.
theorem promise_delivered_as_value : ∃ s : System (Fin 1) (Fin 2) BdbStorage,
    (paxos BdbStorage oneAcceptor).Reachable
        (fun s e => (e.noRestart ∧ e.noWrap s) ∧ e.nonEmpty) s ∧
      ∃ ack ∈ (s.learners 0).delivered,
        (∀ b, ¬s.ChosenAt oneAcceptor ack.iid b ack.value) ∧ ¬s.Submitted ack.value := by
  obtain ⟨s, hrun, hdel, hsaved, hsub⟩ : ∃ s : System (Fin 1) (Fin 2) BdbStorage,
      (paxos BdbStorage oneAcceptor).run (System.start oneAcceptor)
        (twoInstances 0 ++ [.handle 0 (.acceptReq 0 ⟨2, 10, [8]⟩),
          .learn 0 (.receiveAccept ⟨0, 2, 10, 10, false, [8]⟩), .checkHoles 0,
          .handle 0 (.repeatReq 0 1), .learn 0 (.receiveAccept ⟨0, 1, 10, 0, false, []⟩),
          .learn 0 .deliverNext]) = some s ∧
        (s.learners 0).delivered = [⟨0, 1, 10, 0, false, []⟩] ∧
        (s.acceptors 0).saved = [⟨2, 10, [8]⟩] ∧ (s.proposers 0).submitted = [[7], [8]] :=
    ⟨_, rfl, by decide, by decide, by decide⟩
  refine ⟨s, TransitionSystem.reachable_of_run _ (by decide) hrun, ⟨0, 1, 10, 0, false, []⟩,
    by simp [hdel], ?_, ?_⟩
  · rintro b ⟨group, ⟨hsub, hcard⟩, hg⟩
    have hpos : 0 < group.card := by omega
    obtain ⟨a, ha⟩ := Finset.card_pos.mp hpos
    have ha0 : a = 0 := by
      have := Finset.mem_range.mp (hsub ha)
      change a < 1 at this
      omega
    have hacc := hg a ha
    rw [ha0] at hacc
    simp [System.Accepted, hsaved] at hacc
  · rintro ⟨p, hp⟩
    obtain rfl : p = 0 := Subsingleton.elim p 0
    simp [hsub] at hp

end LibPaxos
