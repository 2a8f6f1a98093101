import LibPaxos.Acceptor.Votes
import LibPaxos.Proposer.Emission
import LibPaxos.System

namespace LibPaxos

open MapStorage

variable {ι κ σ : Type} [MapStorage σ]

-- What one acceptor does with one packet, over a storage that behaves as a map.
inductive Handled (a : Nat) (s : Logged σ) :
    Packet ι κ → Logged σ → List (Packet ι κ) → Prop
  | prepare (src : ι) (req : PrepareReq) (s' : Logged σ) (rec : AcceptorRecord)
      (hseen : Seen s' rec) (hid : rec.acceptorId = a) (hiid : rec.iid = req.iid)
      (hsaved : s'.saved = s.saved)
      (hstore : records s'.store = Function.update (records s.store) req.iid (some rec))
      (hcase : rec.ballot = req.ballot ∨
        records s.store req.iid = some rec ∧ req.ballot < rec.ballot) :
      Handled a s (.prepareReq src req) s' [.prepareAck src rec.toPrepareAck]
  | accepted (src : ι) (req : AcceptReq) (s' : Logged σ) (hseen : Seen s' (acceptRecord a req))
      (hsaved : s'.saved = s.saved ++ [req])
      (hstore : records s'.store =
        Function.update (records s.store) req.iid (some (acceptRecord a req))) :
      Handled a s (.acceptReq src req) s' [.acceptAck .everyone (acceptRecord a req)]
  | refused (src : ι) (req : AcceptReq) (s' : Logged σ) (rec : AcceptorRecord) (hseen : Seen s' rec)
      (hid : rec.acceptorId = a) (hiid : rec.iid = req.iid) (hsaved : s'.saved = s.saved)
      (hstore : records s'.store = records s.store)
      (hrec : records s.store req.iid = some rec) (hlt : req.ballot < rec.ballot) :
      Handled a s (.acceptReq src req) s' [.acceptAck (.proposer src) rec]
  | unknown (src : κ) (iid : Nat) (s' : Logged σ) (hsaved : s'.saved = s.saved)
      (hstore : records s'.store = records s.store) (hrec : records s.store iid = none) :
      Handled a s (.repeatReq src iid) s' []
  | repeated (src : κ) (iid : Nat) (s' : Logged σ) (rec : AcceptorRecord) (hseen : Seen s' rec)
      (hid : rec.acceptorId = a) (hiid : rec.iid = iid) (hsaved : s'.saved = s.saved)
      (hstore : records s'.store = records s.store) (hrec : records s.store iid = some rec) :
      Handled a s (.repeatReq src iid) s' [.acceptAck (.learner src) rec]

theorem Voter.handled {a : Nat} {s s' : Logged σ} {packet : Packet ι κ}
    {replies : List (Packet ι κ)} (h : Voter a s) (hr : handleReq s packet = some (s', replies)) :
    Voter a s' ∧ s.Grows s' ∧ Handled a s packet s' replies := by
  cases packet with
  | prepareReq src req =>
      obtain ⟨next, rec, he, hv, hg, hseen, hid, hiid, hsaved, hstore, hcase⟩ := h.prepare req
      simp only [handleReq, handlePrepareReq, he, Option.map_some, Option.some.injEq,
        Prod.mk.injEq] at hr
      obtain ⟨rfl, rfl⟩ := hr
      exact ⟨hv, hg, .prepare src req next rec hseen hid hiid hsaved hstore hcase⟩
  | acceptReq src req =>
      obtain ⟨next, rec, he, hv, hg, hseen, hid, hiid, hstore, hcase⟩ := h.accept req
      simp only [handleReq, handleAcceptReq, he, Option.map_some, Option.some.injEq,
        Prod.mk.injEq] at hr
      obtain ⟨rfl, rfl⟩ := hr
      rcases hcase with ⟨rfl, hsaved⟩ | ⟨hrec, hlt, hsaved⟩
      · rw [if_pos (by rfl)]
        exact ⟨hv, hg, .accepted src req next hseen hsaved hstore⟩
      · rw [if_neg (by omega)]
        rw [← hrec, Function.update_eq_self] at hstore
        exact ⟨hv, hg, .refused src req next rec hseen hid hiid hsaved hstore hrec hlt⟩
  | repeatReq src iid =>
      obtain ⟨next, he, hv, hg, hsaved, hsame⟩ := h.again iid
      simp only [handleReq, handleRepeatReq, he, Option.map_some, Option.some.injEq,
        Prod.mk.injEq] at hr
      obtain ⟨rfl, rfl⟩ := hr
      cases hrec : records s.store iid with
      | none => exact ⟨hv, hg, .unknown src iid next hsaved hsame hrec⟩
      | some rec =>
          obtain ⟨hid, hiid, _, _⟩ := h.record iid rec hrec
          have hseen := hv.seen (hsame ▸ hrec)
          exact ⟨hv, hg, .repeated src iid next rec hseen hid hiid hsaved hsame hrec⟩
  | prepareAck dst ack => cases hr
  | acceptAck dst ack => cases hr

-- An answer reports a record of the acceptor.
theorem Handled.prepareAck {a : Nat} {s s' : Logged σ} {packet : Packet ι κ}
    {replies : List (Packet ι κ)} (h : Handled a s packet s' replies) {dst : ι} {ack : PrepareAck}
    (hm : .prepareAck dst ack ∈ replies) :
    ∃ rec : AcceptorRecord, ack = rec.toPrepareAck ∧ rec.acceptorId = a ∧ Seen s' rec := by
  cases h with
  | prepare src req _ rec hseen hid hiid hsaved hstore hcase =>
      cases List.mem_singleton.mp hm
      exact ⟨rec, rfl, hid, hseen⟩
  | accepted | refused | unknown | repeated => simp at hm

theorem Handled.acceptAck {a : Nat} {s s' : Logged σ} {packet : Packet ι κ}
    {replies : List (Packet ι κ)} (h : Handled a s packet s' replies) {dst : Audience ι κ}
    {ack : AcceptAck} (hm : .acceptAck dst ack ∈ replies) :
    ack.acceptorId = a ∧ Seen s' ack ∧ (dst = .everyone → ack.valueBallot = ack.ballot) := by
  cases h with
  | prepare | unknown => simp at hm
  | accepted src req _ hseen hsaved hstore =>
      cases List.mem_singleton.mp hm
      exact ⟨rfl, hseen, fun _ => rfl⟩
  | refused src req _ rec hseen hid hiid hsaved hstore hrec hlt =>
      cases List.mem_singleton.mp hm
      exact ⟨hid, hseen, nofun⟩
  | repeated src iid _ rec hseen hid hiid hsaved hstore hrec =>
      cases List.mem_singleton.mp hm
      exact ⟨hid, hseen, nofun⟩

theorem Handled.no_request {a : Nat} {s s' : Logged σ} {packet : Packet ι κ}
    {replies : List (Packet ι κ)} (h : Handled a s packet s' replies) (src : ι) (r : AcceptReq) :
    .acceptReq src r ∉ replies := by
  cases h <;> simp

-- Only the request at hand is saved.
theorem Handled.saved {a : Nat} {s s' : Logged σ} {packet : Packet ι κ}
    {replies : List (Packet ι κ)} (h : Handled a s packet s' replies) {r : AcceptReq}
    (hr : r ∈ s'.saved) : r ∈ s.saved ∨ ∃ src, packet = .acceptReq src r := by
  cases h with
  | accepted src req _ hseen hsaved hstore =>
      rw [hsaved] at hr
      rcases List.mem_append.mp hr with hr | hr
      · exact .inl hr
      · exact .inr ⟨src, by rw [List.mem_singleton.mp hr]⟩
  | prepare _ _ _ _ _ _ _ hsaved => exact .inl (hsaved ▸ hr)
  | refused _ _ _ _ _ _ _ hsaved => exact .inl (hsaved ▸ hr)
  | unknown _ _ _ hsaved => exact .inl (hsaved ▸ hr)
  | repeated _ _ _ _ _ _ _ hsaved => exact .inl (hsaved ▸ hr)

-- The requests of every life of a proposer.
def ProposerProc.lives (pr : ProposerProc) : List (List AcceptReq) := pr.emitted :: pr.past

def ProposerProc.Requested (pr : ProposerProc) (r : AcceptReq) : Prop := ∃ life ∈ pr.lives, r ∈ life

-- An ack that a proposer can handle was sent to it.
section

variable [DecidableEq ι] [DecidableEq κ]

omit [MapStorage σ] in
theorem prepareAck_of_offered {s : System ι κ σ} {p : ι} {ack : PrepareAck} {now : Timeval}
    (h : (ProposerCall.receivePrepareAck ack now).offered s.net p = true) :
    .prepareAck p ack ∈ s.net := by simpa [ProposerCall.offered] using h

omit [MapStorage σ] in
theorem ackFor_of_offered {s : System ι κ σ} {p : ι} {ack : AcceptAck} {now : Timeval}
    (h : (ProposerCall.receiveAcceptAck ack now).offered s.net p = true) : s.AckFor p ack := by
  simpa [ProposerCall.offered, System.AckFor] using h

end

-- What holds of acceptors and packets in every run, restarts and wrapped counters
-- included.
structure Honest (cl : Cluster ι κ) (s : System ι κ σ) : Prop where
  voter : ∀ a, Voter a (s.acceptors a)
  prepareAck : ∀ dst ack, .prepareAck dst ack ∈ s.net → ∃ rec : AcceptorRecord,
    ack = rec.toPrepareAck ∧ rec.acceptorId < cl.acceptors ∧
      Seen (s.acceptors rec.acceptorId) rec
  acceptAck : ∀ dst ack, .acceptAck dst ack ∈ s.net → ack.acceptorId < cl.acceptors ∧
    Seen (s.acceptors ack.acceptorId) ack ∧ (dst = .everyone → ack.valueBallot = ack.ballot)
  saved : ∀ a, ∀ r ∈ (s.acceptors a).saved, a < cl.acceptors ∧ ∃ src, .acceptReq src r ∈ s.net
  request : ∀ src r, .acceptReq src r ∈ s.net ↔ (s.proposers src).Requested r

theorem Honest.start (cl : Cluster ι κ) : Honest cl (System.start cl : System ι κ σ) := by
  refine ⟨fun a => Voter.open a, ?_, ?_, ?_, fun src r => ?_⟩
  · intro dst ack h
    cases h
  · intro dst ack h
    cases h
  · intro a r h
    cases h
  · simp [System.start, ProposerProc.Requested, ProposerProc.lives, ProposerProc.start]

theorem mem_packets {p : ι} {out : ProposerOutput} {packet : Packet ι κ}
    (h : packet ∈ out.packets p) :
    (∃ req, out = .prepareReq req ∧ packet = .prepareReq p req) ∨
      ∃ req, out = .acceptReq req ∧ packet = .acceptReq p req := by
  cases out with
  | prepareReq req => exact .inl ⟨req, rfl, List.mem_singleton.mp h⟩
  | acceptReq req => exact .inr ⟨req, rfl, List.mem_singleton.mp h⟩
  | none => cases h
  | closed inst => cases h

theorem call_history {cfg : PaxosConfig} {pr pr' : ProposerProc} {c : ProposerCall}
    {out : ProposerOutput} (h : pr.call cfg c = (pr', out)) :
    pr'.emitted = pr.emitted ++ out.emits ∧ pr'.past = pr.past ∧
      pr'.submitted = pr.submitted ++ c.submits := by
  unfold ProposerProc.call at h
  split at h
  · rename_i fault hf
    cases h
    have hnone : c.submits = [] := by
      cases c with
      | propose value => cases hf
      | _ => rfl
    rw [hnone]
    exact ⟨(List.append_nil _).symm, rfl, (List.append_nil _).symm⟩
  · cases h
    exact ⟨rfl, rfl, rfl⟩

theorem requested_of_call {cfg : PaxosConfig} {pr pr' : ProposerProc} {c : ProposerCall}
    {out : ProposerOutput} (h : pr.call cfg c = (pr', out)) (r : AcceptReq) :
    pr'.Requested r ↔ pr.Requested r ∨ out = .acceptReq r := by
  obtain ⟨hemit, hpast, _⟩ := call_history h
  have hout : r ∈ out.emits ↔ out = .acceptReq r := by
    cases out <;> simp [ProposerOutput.emits, eq_comm]
  simp only [ProposerProc.Requested, ProposerProc.lives, List.exists_mem_cons_iff, hemit, hpast,
    List.mem_append, hout]
  exact or_right_comm

theorem requested_restart (pr : ProposerProc) (r : AcceptReq) :
    pr.restart.Requested r ↔ pr.Requested r := by
  simp [ProposerProc.Requested, ProposerProc.lives, ProposerProc.restart, ProposerProc.start]

-- What holds of a proposer whose counters have not wrapped: its bookkeeping, its
-- requests, and those of its earlier lives.
structure Lawful (id n : Nat) (pr : ProposerProc) : Prop where
  booked : Booked id n pr
  emitting : Emitting id pr
  past : ∀ life ∈ pr.past, (∀ r ∈ life, OwnBallot id r.ballot) ∧
    ∀ r ∈ life, ∀ r' ∈ life, r.iid = r'.iid → r.ballot = r'.ballot → r.value = r'.value

theorem Lawful.start (id n : Nat) : Lawful id n (ProposerProc.start id n) :=
  ⟨.start id n, .start id n, fun _ hl => by cases hl⟩

theorem Lawful.call {id n : Nat} {pr pr' : ProposerProc} (h : Lawful id n pr)
    (hid : id < MAX_N_OF_PROPOSERS) {cfg : PaxosConfig} {c : ProposerCall} {out : ProposerOutput}
    (hcall : pr.call cfg c = (pr', out)) (hw : c.NoWrap pr.state) : Lawful id n pr' := by
  rcases h.booked.call_cases hcall with ⟨_, _, rfl, _⟩ | ⟨p, hm, rfl⟩
  · have hem := h.emitting
    exact ⟨h.booked.halt, ⟨hem.1, hem.2, hem.3, hem.4, hem.5, hem.6, hem.7, hem.8⟩, h.past⟩
  · refine ⟨h.booked.move hm fun junk now hc => ?_, h.emitting.move hid h.booked hm hw, h.past⟩
    rw [hc] at hw
    exact hw

theorem Lawful.restart {id n : Nat} {pr : ProposerProc} (h : Lawful id n pr) :
    Lawful id n pr.restart := by
  have hb := Booked.start id n
  have he := Emitting.start id n
  unfold ProposerProc.restart
  rw [h.booked.ident, h.booked.acceptors]
  refine ⟨⟨hb.1, hb.2, hb.3, hb.4, hb.5⟩, ⟨he.1, he.2, he.3, he.4, he.5, he.6, he.7, he.8⟩,
    fun life hl => ?_⟩
  rcases List.mem_cons.mp hl with rfl | hl
  · exact ⟨h.emitting.own, h.emitting.unique⟩
  · exact h.past life hl

variable [DecidableEq ι] [DecidableEq κ]

-- Everything a step can do.
inductive Steps (cl : Cluster ι κ) (s : System ι κ σ) : Event ι κ → System ι κ σ → Prop
  | call (p : ι) (c : ProposerCall) (pr : ProposerProc) (out : ProposerOutput)
      (hlive : (s.proposers p).halted = false) (hoffer : c.offered s.net p = true)
      (hcall : (s.proposers p).call (cl.proposerConfig p) c = (pr, out)) :
      Steps cl s (.call p c)
        { s with proposers := Function.update s.proposers p pr, net := s.net ++ out.packets p }
  | restart (p : ι) :
      Steps cl s (.restart p)
        { s with proposers := Function.update s.proposers p (s.proposers p).restart }
  | handle (a : Nat) (packet : Packet ι κ) (acceptor : Logged σ) (replies : List (Packet ι κ))
      (ha : a < cl.acceptors) (hm : packet ∈ s.net)
      (hr : handleReq (s.acceptors a) packet = some (acceptor, replies)) :
      Steps cl s (.handle a packet)
        { s with acceptors := Function.update s.acceptors a acceptor, net := s.net ++ replies }
  | learn (l : κ) (c : LearnerCall) (state : Learner) (hstate : (s.learners l).state = .ok state)
      (hoffer : c.offered s.net l = true) :
      Steps cl s (.learn l c)
        { s with learners := Function.update s.learners l ((s.learners l).call state c) }
  | checkHoles (l : κ) (state : Learner) (hstate : (s.learners l).state = .ok state) :
      Steps cl s (.checkHoles l)
        { s with net := s.net ++ (learnerCheckHoles state).map (.repeatReq l) }

theorem step_steps {cl : Cluster ι κ} {s s' : System ι κ σ} {e : Event ι κ}
    (h : (paxos σ cl).step s e = some s') : Steps cl s e s' := by
  change System.step cl s e = some s' at h
  cases e with
  | call p c =>
      simp only [System.step] at h
      split_ifs at h with hg
      cases h
      exact .call p c _ _ hg.1 hg.2 rfl
  | restart p =>
      cases h
      exact .restart p
  | handle a packet =>
      simp only [System.step] at h
      split_ifs at h with hg
      obtain ⟨⟨acceptor, replies⟩, hr, he⟩ := Option.map_eq_some_iff.mp h
      cases he
      exact .handle a packet acceptor replies hg.1 hg.2 hr
  | learn l c =>
      simp only [System.step] at h
      split at h
      · cases h
      · rename_i state hstate
        split_ifs at h with hg
        cases h
        exact .learn l c state hstate hg
  | checkHoles l =>
      simp only [System.step] at h
      split at h
      · cases h
      · rename_i state hstate
        cases h
        exact .checkHoles l state hstate

theorem Steps.enabled {cl : Cluster ι κ} {s s' : System ι κ σ} {e : Event ι κ}
    (hs : Steps cl s e s') : (paxos σ cl).step s e = some s' := by
  change System.step cl s e = some s'
  cases hs with
  | call p c pr out hlive hoffer hcall => simp [System.step, hlive, hoffer, hcall]
  | restart p => rfl
  | handle a packet acceptor replies ha hm hr => simp [System.step, ha, hm, hr]
  | learn l c state hstate hoffer => simp [System.step, hstate, hoffer]
  | checkHoles l state hstate => simp [System.step, hstate]

-- The acceptors of a later state.
def System.Grows (s s' : System ι κ σ) : Prop := ∀ a, (s.acceptors a).Grows (s'.acceptors a)

theorem Steps.grows {cl : Cluster ι κ} {s s' : System ι κ σ} {e : Event ι κ} (h : Honest cl s)
    (hs : Steps cl s e s') : s.Grows s' := by
  cases hs with
  | handle a packet acceptor replies ha hm hr =>
      exact (Function.forall_update_iff s.acceptors fun b later => (s.acceptors b).Grows later).mpr
        ⟨((h.voter a).handled hr).2.1, fun b _ => .refl _⟩
  | call | restart | learn | checkHoles => exact fun a => .refl _

-- What was chosen stays chosen.
omit [DecidableEq ι] [DecidableEq κ] in
theorem System.ChosenAt.mono {cl : Cluster ι κ} {s s' : System ι κ σ} (hg : s.Grows s') {i b : Nat}
    {v : Value} (h : s.ChosenAt cl i b v) : s'.ChosenAt cl i b v := by
  obtain ⟨group, hmaj, hgroup⟩ := h
  exact ⟨group, hmaj, fun a ha => (hg a).saved _ (hgroup a ha)⟩

-- A property of every proposer is kept when each call and each restart keeps it.
theorem Steps.forall_proposers {cl : Cluster ι κ} {s s' : System ι κ σ} {e : Event ι κ}
    (hs : Steps cl s e s') {P : ι → ProposerProc → Prop} (h : ∀ p, P p (s.proposers p))
    (hcall : ∀ p c pr out, e = .call p c → c.offered s.net p = true →
      (s.proposers p).call (cl.proposerConfig p) c = (pr, out) → P p pr)
    (hrestart : ∀ p, e = .restart p → P p (s.proposers p).restart) (p : ι) :
    P p (s'.proposers p) := by
  cases hs with
  | call q c pr out hlive hoffer hc =>
      exact (Function.forall_update_iff s.proposers P).mpr
        ⟨hcall q c pr out rfl hoffer hc, fun p _ => h p⟩ p
  | restart q =>
      exact (Function.forall_update_iff s.proposers P).mpr ⟨hrestart q rfl, fun p _ => h p⟩ p
  | handle | learn | checkHoles => exact h p

theorem Steps.net {cl : Cluster ι κ} {s s' : System ι κ σ} {e : Event ι κ} (hs : Steps cl s e s')
    {packet : Packet ι κ} (hm : packet ∈ s.net) : packet ∈ s'.net := by
  cases hs with
  | call | handle | checkHoles => exact List.mem_append_left _ hm
  | restart | learn => exact hm

-- Where a packet comes from, and what its sender has become.
theorem Steps.mem_net {cl : Cluster ι κ} {s s' : System ι κ σ} {e : Event ι κ}
    (hs : Steps cl s e s') {packet : Packet ι κ} (hm : packet ∈ s'.net) :
    packet ∈ s.net ∨
      (∃ p c pr out, e = .call p c ∧ c.offered s.net p = true ∧
        (s.proposers p).call (cl.proposerConfig p) c = (pr, out) ∧ s'.proposers p = pr ∧
        packet ∈ out.packets p) ∨
      (∃ a req acceptor replies, e = .handle a req ∧
        handleReq (s.acceptors a) req = some (acceptor, replies) ∧ s'.acceptors a = acceptor ∧
        packet ∈ replies) ∨
      ∃ l iid, packet = .repeatReq l iid := by
  cases hs with
  | call p c pr out hlive hoffer hcall =>
      rcases List.mem_append.mp hm with hm | hm
      · exact .inl hm
      · exact .inr (.inl ⟨p, c, pr, out, rfl, hoffer, hcall, Function.update_self .., hm⟩)
  | handle a req acceptor replies ha hreq hr =>
      rcases List.mem_append.mp hm with hm | hm
      · exact .inl hm
      · exact .inr (.inr (.inl ⟨a, req, acceptor, replies, rfl, hr, Function.update_self .., hm⟩))
  | checkHoles l state hstate =>
      rcases List.mem_append.mp hm with hm | hm
      · exact .inl hm
      · obtain ⟨iid, _, rfl⟩ := List.mem_map.mp hm
        exact .inr (.inr (.inr ⟨l, iid, rfl⟩))
  | restart | learn => exact .inl hm

theorem Honest.request_step {cl : Cluster ι κ} {s s' : System ι κ σ} {e : Event ι κ}
    (h : Honest cl s) (hs : Steps cl s e s') (src : ι) (r : AcceptReq) :
    .acceptReq src r ∈ s'.net ↔ (s'.proposers src).Requested r := by
  cases hs with
  | call p c pr out hlive hoffer hcall =>
      have hout : .acceptReq src r ∈ (out.packets p : List (Packet ι κ)) ↔
          src = p ∧ out = .acceptReq r := by
        cases out <;> simp [ProposerOutput.packets, eq_comm]
      rw [List.mem_append, h.request src r, hout]
      dsimp only
      by_cases hp : src = p
      · subst hp
        rw [Function.update_self, requested_of_call hcall]
        simp
      · rw [Function.update_of_ne hp]
        simp [hp]
  | restart p =>
      dsimp only
      rw [h.request src r]
      by_cases hp : src = p
      · subst hp
        rw [Function.update_self, requested_restart]
      · rw [Function.update_of_ne hp]
  | handle a packet acceptor replies ha hm hr =>
      have hno := ((h.voter a).handled hr).2.2.no_request src r
      rw [List.mem_append, or_iff_left hno]
      exact h.request src r
  | learn l c state hstate hoffer => exact h.request src r
  | checkHoles l state hstate =>
      rw [List.mem_append, or_iff_left (by simp)]
      exact h.request src r

theorem Honest.step {cl : Cluster ι κ} {s s' : System ι κ σ} {e : Event ι κ} (h : Honest cl s)
    (hs : Steps cl s e s') : Honest cl s' := by
  have hgrow := hs.grows h
  have hrequest := h.request_step hs
  have hnet {packet : Packet ι κ} (hm : packet ∈ s.net) : packet ∈ s'.net := hs.net hm
  have hprep (dst : ι) (ack : PrepareAck) (hm : .prepareAck dst ack ∈ s.net) :
      ∃ rec : AcceptorRecord, ack = rec.toPrepareAck ∧ rec.acceptorId < cl.acceptors ∧
        Seen (s'.acceptors rec.acceptorId) rec := by
    obtain ⟨rec, he, hlt, hseen⟩ := h.prepareAck dst ack hm
    exact ⟨rec, he, hlt, hseen.mono (hgrow _)⟩
  have hacc (dst : Audience ι κ) (ack : AcceptAck) (hm : .acceptAck dst ack ∈ s.net) :
      ack.acceptorId < cl.acceptors ∧ Seen (s'.acceptors ack.acceptorId) ack ∧
        (dst = .everyone → ack.valueBallot = ack.ballot) := by
    obtain ⟨hlt, hseen, hall⟩ := h.acceptAck dst ack hm
    exact ⟨hlt, hseen.mono (hgrow _), hall⟩
  have hsaved (a : Nat) (r : AcceptReq) (hr : r ∈ (s.acceptors a).saved) :
      a < cl.acceptors ∧ ∃ src, .acceptReq src r ∈ s'.net := by
    obtain ⟨ha, src, hm⟩ := h.saved a r hr
    exact ⟨ha, src, hnet hm⟩
  cases hs with
  | call p c pr out hlive hoffer hcall =>
      refine ⟨h.voter, fun dst ack hm => ?_, fun dst ack hm => ?_, hsaved, hrequest⟩
      · rcases List.mem_append.mp hm with hm | hm
        · exact hprep dst ack hm
        · rcases mem_packets hm with ⟨req, _, he⟩ | ⟨req, _, he⟩ <;> cases he
      · rcases List.mem_append.mp hm with hm | hm
        · exact hacc dst ack hm
        · rcases mem_packets hm with ⟨req, _, he⟩ | ⟨req, _, he⟩ <;> cases he
  | restart p => exact ⟨h.voter, hprep, hacc, hsaved, hrequest⟩
  | learn l c state hstate hoffer => exact ⟨h.voter, hprep, hacc, hsaved, hrequest⟩
  | checkHoles l state hstate =>
      refine ⟨h.voter, fun dst ack hm => ?_, fun dst ack hm => ?_, hsaved, hrequest⟩
      · exact hprep dst ack (by simpa using hm)
      · exact hacc dst ack (by simpa using hm)
  | handle a packet acceptor replies ha hmem hr =>
      obtain ⟨hvoter, _, hh⟩ := (h.voter a).handled hr
      have hself : Function.update s.acceptors a acceptor a = acceptor := Function.update_self ..
      refine ⟨?_, fun dst ack hm => ?_, fun dst ack hm => ?_, fun b r hb => ?_, hrequest⟩
      · exact (Function.forall_update_iff s.acceptors Voter).mpr ⟨hvoter, fun b _ => h.voter b⟩
      · rcases List.mem_append.mp hm with hm | hm
        · exact hprep dst ack hm
        · obtain ⟨rec, rfl, rfl, hseen⟩ := hh.prepareAck hm
          refine ⟨rec, rfl, ha, ?_⟩
          dsimp only
          rw [hself]
          exact hseen
      · rcases List.mem_append.mp hm with hm | hm
        · exact hacc dst ack hm
        · obtain ⟨rfl, hseen, hall⟩ := hh.acceptAck hm
          refine ⟨ha, ?_, hall⟩
          dsimp only
          rw [hself]
          exact hseen
      · dsimp only at hb
        by_cases hab : b = a
        · subst hab
          rw [hself] at hb
          rcases hh.saved hb with hb | ⟨src, rfl⟩
          · exact hsaved b r hb
          · exact ⟨ha, src, hnet hmem⟩
        · rw [Function.update_of_ne hab] at hb
          exact hsaved b r hb

theorem Honest.of_reachable {cl : Cluster ι κ} {guard : System ι κ σ → Event ι κ → Prop}
    {s : System ι κ σ} (hr : (paxos σ cl).Reachable guard s) : Honest cl s :=
  hr.invariant (Honest cl) (.start cl) fun _ _ _ _ h _ hs => h.step (step_steps hs)

theorem Lawful.step {cl : Cluster ι κ} {s s' : System ι κ σ} {e : Event ι κ}
    (h : ∀ p, Lawful (cl.id p) cl.acceptors (s.proposers p)) (hs : Steps cl s e s')
    (hw : e.noWrap s) : ∀ p, Lawful (cl.id p) cl.acceptors (s'.proposers p) := by
  apply hs.forall_proposers (P := fun p pr => Lawful (cl.id p) cl.acceptors pr) h
  · rintro p c pr out rfl _ hcall
    exact (h p).call (cl.id_lt p) hcall hw
  · rintro p rfl
    exact (h p).restart

theorem Lawful.of_reachable {cl : Cluster ι κ} {guard : System ι κ σ → Event ι κ → Prop}
    {s : System ι κ σ} (hr : (paxos σ cl).Reachable guard s)
    (hg : ∀ s e, guard s e → e.noWrap s) (p : ι) :
    Lawful (cl.id p) cl.acceptors (s.proposers p) :=
  hr.invariant (fun s => ∀ p, Lawful (cl.id p) cl.acceptors (s.proposers p))
    (fun _ => .start _ _) (fun _ _ _ _ h hw hs => Lawful.step h (step_steps hs) (hg _ _ hw)) p

-- Without restarts a proposer has one life.
theorem past_of_reachable {cl : Cluster ι κ} {guard : System ι κ σ → Event ι κ → Prop}
    {s : System ι κ σ} (hr : (paxos σ cl).Reachable guard s)
    (hg : ∀ s e, guard s e → e.noRestart) (p : ι) : (s.proposers p).past = [] := by
  refine hr.invariant (fun s => ∀ p, (s.proposers p).past = []) (fun _ => rfl) ?_ p
  intro s e s' _ h hw hs
  apply (step_steps hs).forall_proposers (P := fun _ pr => pr.past = []) h
  · rintro p c pr out rfl _ hcall
    exact (call_history hcall).2.1.trans (h p)
  · rintro p rfl
    exact (hg _ _ hw).elim

theorem opened_of_reachable {cl : Cluster ι κ} {guard : System ι κ σ → Event ι κ → Prop}
    {s : System ι κ σ} (hr : (paxos σ cl).Reachable guard s) (p : ι) :
    (s.proposers p).state.Opened := by
  refine hr.invariant (fun s => ∀ p, (s.proposers p).state.Opened) (fun _ => .new _ _) ?_ p
  intro s e s' _ h hw hs
  apply (step_steps hs).forall_proposers (P := fun _ pr => pr.state.Opened) h
  · rintro p c pr out rfl _ hcall
    rcases ProposerProc.call_cases (h p).preparing hcall with ⟨_, _, rfl, _⟩ | ⟨p', hm, rfl⟩
    · exact h p
    · exact (h p).move hm
  · rintro p rfl
    exact .new _ _

-- Some proposer has sent this value for the instance at the ballot.
def System.Proposed (s : System ι κ σ) (iid ballot : Nat) (value : Value) : Prop :=
  ∃ src, .acceptReq src ⟨iid, ballot, value⟩ ∈ s.net

-- A state of a run without restarts in which no counter has wrapped.
structure Regular (cl : Cluster ι κ) (s : System ι κ σ) : Prop where
  honest : Honest cl s
  lawful : ∀ p, Lawful (cl.id p) cl.acceptors (s.proposers p)
  past : ∀ p, (s.proposers p).past = []

theorem Regular.of_reachable {cl : Cluster ι κ} {guard : System ι κ σ → Event ι κ → Prop}
    {s : System ι κ σ} (hr : (paxos σ cl).Reachable guard s)
    (hg : ∀ s e, guard s e → e.noRestart ∧ e.noWrap s) : Regular cl s :=
  ⟨.of_reachable hr, Lawful.of_reachable hr fun s e h => (hg s e h).2,
    past_of_reachable hr fun s e h => (hg s e h).1⟩

section

omit [DecidableEq ι] [DecidableEq κ]

theorem Regular.emitted {cl : Cluster ι κ} {s : System ι κ σ} (h : Regular cl s) {src : ι}
    {r : AcceptReq} (hm : .acceptReq src r ∈ s.net) : r ∈ (s.proposers src).emitted := by
  obtain ⟨life, hlife, hr⟩ := (h.honest.request src r).mp hm
  rw [ProposerProc.lives, h.past src, List.mem_singleton] at hlife
  exact hlife ▸ hr

theorem Regular.proposed_of_emitted {cl : Cluster ι κ} {s : System ι κ σ} (h : Regular cl s)
    {src : ι} {r : AcceptReq} (hr : r ∈ (s.proposers src).emitted) :
    s.Proposed r.iid r.ballot r.value :=
  ⟨src, (h.honest.request src r).mpr ⟨_, List.mem_cons_self, hr⟩⟩

theorem Regular.proposed_ballot {cl : Cluster ι κ} {s : System ι κ σ} (h : Regular cl s)
    {i b : Nat} {v : Value} (hp : s.Proposed i b v) : 0 < b := by
  obtain ⟨src, hm⟩ := hp
  have hown := (h.lawful src).emitting.own _ (h.emitted hm)
  have hle : MAX_N_OF_PROPOSERS ≤ b := hown.2
  unfold MAX_N_OF_PROPOSERS at hle
  omega

-- Ballots tell proposers apart, and one proposer proposes one value a ballot.
theorem Regular.proposed_unique {cl : Cluster ι κ} {s : System ι κ σ} (h : Regular cl s)
    {i b : Nat} {v w : Value} (hv : s.Proposed i b v) (hw : s.Proposed i b w) : v = w := by
  obtain ⟨src, hm⟩ := hv
  obtain ⟨src', hm'⟩ := hw
  have hown := (h.lawful src).emitting.own _ (h.emitted hm)
  have hown' := (h.lawful src').emitting.own _ (h.emitted hm')
  obtain rfl : src = src' := cl.id_injective (hown.1.symm.trans hown'.1)
  exact (h.lawful src).emitting.unique _ (h.emitted hm) _ (h.emitted hm') rfl rfl

-- An ack of the ballot of a pending proposal that reports a value accepted there
-- comes from an acceptor that accepted the proposal.
theorem Regular.accepted_of_ack {cl : Cluster ι κ} {s : System ι κ σ} (h : Regular cl s)
    {dst : Audience ι κ} {ack : AcceptAck} (hm : .acceptAck dst ack ∈ s.net) {p : ι}
    {inst : Instance} (hinst : inst ∈ (s.proposers p).state.acceptInstances)
    (hiid : inst.iid = ack.iid) (hvb : ack.valueBallot = inst.ballot) {value : Value}
    (hvalue : inst.value = some value) :
    s.Accepted ack.acceptorId inst.iid inst.ballot value := by
  obtain ⟨⟨v, hv, hemit⟩, _⟩ := (h.lawful p).emitting.accepting inst hinst
  obtain rfl : v = value := Option.some.inj (hv.symm.trans hvalue)
  have hprop : s.Proposed inst.iid inst.ballot v := h.proposed_of_emitted hemit
  have hpos := h.proposed_ballot hprop
  obtain ⟨_, hseen, _⟩ := h.honest.acceptAck dst ack hm
  rcases hseen.truth.vote with ⟨h0, _⟩ | hsaved
  · omega
  · rw [← hiid, hvb] at hsaved
    have hsame : ack.value = v := by
      obtain ⟨_, src, hreq⟩ := h.honest.saved _ _ hsaved
      exact h.proposed_unique ⟨src, hreq⟩ hprop
    rw [hsame] at hsaved
    exact hsaved

theorem Regular.proposed_of_accepted {cl : Cluster ι κ} {s : System ι κ σ} (h : Regular cl s)
    {a i b : Nat} {v : Value} (ha : s.Accepted a i b v) : s.Proposed i b v :=
  (h.honest.saved a _ ha).2

end

theorem Steps.proposed {cl : Cluster ι κ} {s s' : System ι κ σ} {e : Event ι κ}
    (hs : Steps cl s e s') {i b : Nat} {v : Value} (hp : s.Proposed i b v) : s'.Proposed i b v := by
  obtain ⟨src, hm⟩ := hp
  exact ⟨src, hs.net hm⟩

-- The client values after a call.
omit [MapStorage σ] [DecidableEq κ] in
theorem submitted_of_call {s : System ι κ σ} {p : ι} {cfg : PaxosConfig} {c : ProposerCall}
    {pr : ProposerProc} {out : ProposerOutput} (hcall : (s.proposers p).call cfg c = (pr, out))
    (net : List (Packet ι κ)) {v : Value} (hv : s.Submitted v ∨ v ∈ c.submits) :
    System.Submitted { s with proposers := Function.update s.proposers p pr, net := net } v := by
  obtain ⟨_, _, hsubmitted⟩ := call_history hcall
  rcases hv with ⟨q, hv⟩ | hv
  · refine ⟨q, ?_⟩
    dsimp only
    by_cases hq : q = p
    · subst hq
      rw [Function.update_self, hsubmitted]
      exact List.mem_append_left _ hv
    · rw [Function.update_of_ne hq]
      exact hv
  · refine ⟨p, ?_⟩
    dsimp only
    rw [Function.update_self, hsubmitted]
    exact List.mem_append_right _ hv

-- The proposals after a call.
omit [MapStorage σ] [DecidableEq κ] in
theorem proposed_of_call {s : System ι κ σ} {p : ι} {pr : ProposerProc} {out : ProposerOutput}
    {i b : Nat} {v : Value}
    (hp : System.Proposed { s with
      proposers := Function.update s.proposers p pr, net := s.net ++ out.packets p } i b v) :
    s.Proposed i b v ∨ out = .acceptReq ⟨i, b, v⟩ := by
  obtain ⟨src, hm⟩ := hp
  rcases List.mem_append.mp hm with hm | hm
  · exact .inl ⟨src, hm⟩
  · rcases mem_packets hm with ⟨req, _, he⟩ | ⟨req, hout, he⟩
    · cases he
    · cases he
      exact .inr hout

-- Only a call of a proposer makes a new proposal.
theorem Steps.proposed_before {cl : Cluster ι κ} {s s' : System ι κ σ} {e : Event ι κ}
    (h : Honest cl s) (hs : Steps cl s e s') (hne : ∀ p c, e ≠ .call p c) {i b : Nat} {v : Value}
    (hp : s'.Proposed i b v) : s.Proposed i b v := by
  obtain ⟨src, hm⟩ := hp
  cases hs with
  | call p c pr out hlive hoffer hcall => exact absurd rfl (hne p c)
  | handle a packet acceptor replies ha hmem hr =>
      rcases List.mem_append.mp hm with hm | hm
      · exact ⟨src, hm⟩
      · exact absurd hm (((h.voter a).handled hr).2.2.no_request src _)
  | restart | learn => exact ⟨src, hm⟩
  | checkHoles l state hstate => exact ⟨src, by simpa using hm⟩

end LibPaxos
