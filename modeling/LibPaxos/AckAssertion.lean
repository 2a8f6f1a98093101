import LibPaxos.Storage.Bdb
import LibPaxos.System.Theorems

namespace LibPaxos

open MapStorage

variable {ι κ σ : Type} [DecidableEq ι] [DecidableEq κ] [MapStorage σ]

-- The acceptor does not refuse a request on account of a later ballot of the same
-- proposer at which it has accepted nothing yet.
def Event.NoOwnNack (cl : Cluster ι κ) (s : System ι κ σ) : Event ι κ → Prop
  | .handle a (.acceptReq src req) => ∀ rec ∈ records (s.acceptors a).store req.iid,
      req.ballot < rec.ballot → rec.ballot % MAX_N_OF_PROPOSERS = cl.id src →
        rec.valueBallot = rec.ballot
  | _ => True

instance Event.NoOwnNack.decidable (cl : Cluster ι κ) (s : System ι κ σ) :
    (e : Event ι κ) → Decidable (e.NoOwnNack cl s)
  | .handle _ (.acceptReq _ _) => Option.decidableForallMem _
  | .handle _ (.prepareReq _ _) => isTrue trivial
  | .handle _ (.prepareAck _ _) => isTrue trivial
  | .handle _ (.acceptAck _ _) => isTrue trivial
  | .handle _ (.repeatReq _ _) => isTrue trivial
  | .call _ _ => isTrue trivial
  | .restart _ => isTrue trivial
  | .learn _ _ => isTrue trivial
  | .checkHoles _ => isTrue trivial

-- A nack either reports an acceptance at its ballot, or that ballot is another
-- proposer's.
def NacksOthers (cl : Cluster ι κ) (s : System ι κ σ) : Prop :=
  ∀ p ack, .acceptAck (.proposer p) ack ∈ s.net →
    ack.valueBallot = ack.ballot ∨ ack.ballot % MAX_N_OF_PROPOSERS ≠ cl.id p

theorem NacksOthers.step {cl : Cluster ι κ} {s s' : System ι κ σ} {e : Event ι κ}
    (hh : Honest cl s) (h : NacksOthers cl s) (hs : Steps cl s e s') (hn : e.NoOwnNack cl s) :
    NacksOthers cl s' := by
  intro p ack hm
  cases hs with
  | call q c pr out hlive hoffer hcall =>
      rcases List.mem_append.mp hm with hm | hm
      · exact h p ack hm
      · rcases mem_packets hm with ⟨req, _, he⟩ | ⟨req, _, he⟩ <;> cases he
  | restart | learn => exact h p ack hm
  | checkHoles l state hstate => exact h p ack (by simpa using hm)
  | handle a packet acceptor replies ha hmem hr =>
      rcases List.mem_append.mp hm with hm | hm
      · exact h p ack hm
      · cases ((hh.voter a).handled hr).2.2 with
        | refused src req _ rec hseen hid hiid hsaved hstore hrec hlt =>
            cases List.mem_singleton.mp hm
            by_cases hown : ack.ballot % MAX_N_OF_PROPOSERS = cl.id p
            · exact .inl (hn ack hrec hlt hown)
            · exact .inr hown
        | prepare | accepted | unknown | repeated => simp at hm

omit [DecidableEq ι] [DecidableEq κ] in
-- An ack of the ballot of a pending proposal reports an acceptance at that ballot.
theorem NacksOthers.assertHolds {cl : Cluster ι κ} {s : System ι κ σ} (hreg : Regular cl s)
    (h : NacksOthers cl s) {p : ι} {ack : AcceptAck} (hm : s.AckFor p ack) :
    AssertHolds (s.proposers p).state ack := by
  intro inst hfind hballot
  rcases hm with hall | hone
  · exact ((hreg.honest.acceptAck _ ack hall).2.2 rfl).trans hballot
  · rcases h p ack hone with hvb | hother
    · exact hvb.trans hballot
    · have hown := (hreg.lawful p).emitting.ownAccept inst (instanceFind_mem hfind)
      rw [hballot] at hother
      exact absurd hown.1 hother

omit [DecidableEq ι] [DecidableEq κ] in
theorem Honest.acceptorId_lt {cl : Cluster ι κ} {s : System ι κ σ} (h : Honest cl s) {p : ι}
    {ack : AcceptAck} (hm : s.AckFor p ack) : ack.acceptorId < cl.acceptors := by
  rcases hm with hm | hm
  · exact (h.acceptAck _ ack hm).1
  · exact (h.acceptAck _ ack hm).1

-- A proposer whose acks all meet the assertion does not halt.
theorem Regular.live {cl : Cluster ι κ} {s s' : System ι κ σ} {e : Event ι κ} (hreg : Regular cl s)
    (hs : Steps cl s e s') (hrestart : e.noRestart)
    (hassert : ∀ p ack now, e = .call p (.receiveAcceptAck ack now) → s.AckFor p ack →
      AssertHolds (s.proposers p).state ack)
    (hlive : ∀ p, (s.proposers p).halted = false) : ∀ p, (s'.proposers p).halted = false := by
  apply hs.forall_proposers (P := fun _ pr => pr.halted = false) hlive
  · rintro p c pr out rfl hoffer hcall
    have hadm : c.Admissible cl.acceptors (s.proposers p).state := by
      cases c with
      | receivePrepareAck ack now =>
          have hm := prepareAck_of_offered hoffer
          obtain ⟨rec, rfl, hlt, _⟩ := hreg.honest.prepareAck p ack hm
          exact hlt
      | receiveAcceptAck ack now =>
          have hm := ackFor_of_offered hoffer
          exact ⟨hreg.honest.acceptorId_lt hm, hassert p ack now rfl hm⟩
      | propose | prepare | accept | timeoutPrepare | timeoutAccept => trivial
    have hbooked := (hreg.lawful p).booked
    rcases hbooked.call_cases hcall with ⟨fault, hf, _⟩ | ⟨p', _, rfl⟩
    · exact absurd hf (hbooked.no_fault hadm fault)
    · exact hlive p
  · rintro p rfl
    exact hrestart.elim

-- A refusal answers a request at a lower ballot.
theorem refused_of_reachable {cl : Cluster ι κ} {guard : System ι κ σ → Event ι κ → Prop}
    {s : System ι κ σ} (hr : (paxos σ cl).Reachable guard s) {p : ι} {ack : AcceptAck}
    (hm : .acceptAck (.proposer p) ack ∈ s.net) :
    ∃ r, .acceptReq p r ∈ s.net ∧ r.iid = ack.iid ∧ r.ballot < ack.ballot := by
  have hinv := hr.invariant (fun s => ∀ p ack, .acceptAck (.proposer p) ack ∈ s.net →
    ∃ r, .acceptReq p r ∈ s.net ∧ r.iid = ack.iid ∧ r.ballot < ack.ballot) ?_
    (fun s e s' hr h hg hs => ?_)
  · exact hinv p ack hm
  · intro p ack hm
    cases hm
  intro p ack hm
  have hsteps := step_steps hs
  have hnet {packet : Packet ι κ} (hm : packet ∈ s.net) : packet ∈ s'.net := hsteps.net hm
  rcases hsteps.mem_net hm with hm | ⟨q, c, pr, out, rfl, _, _, _, hm⟩ |
    ⟨a, req, acceptor, replies, rfl, hhandle, _, hm⟩ | ⟨l, iid, he⟩
  · obtain ⟨r, hr, hlower⟩ := h p ack hm
    exact ⟨r, hnet hr, hlower⟩
  · rcases mem_packets hm with ⟨_, _, he⟩ | ⟨_, _, he⟩ <;> cases he
  · have hreq : req ∈ s.net := by
      cases hsteps with
      | handle _ _ _ _ _ hreq _ => exact hreq
    obtain ⟨_, _, hhandled⟩ := ((Honest.of_reachable hr).voter a).handled hhandle
    cases hhandled with
    | prepare | accepted | unknown | repeated => simp at hm
    | refused src req _ rec hseen hid hiid hsaved hstore hrec hlt =>
        cases List.mem_singleton.mp hm
        exact ⟨req, hnet hreq, hiid.symm, hlt⟩
  · cases he

-- An earlier request of the proposer is refused, and before it takes the refusal in, its
-- instance has taken the ballot that the acceptor had promised.
structure LateRefusal (s : System ι κ σ) (p : ι) (ack : AcceptAck) : Prop where
  refusal : .acceptAck (.proposer p) ack ∈ s.net ∧ ack.valueBallot ≠ ack.ballot
  stale : ∃ r, .acceptReq p r ∈ s.net ∧ r.iid = ack.iid ∧ r.ballot < ack.ballot
  pending : ∃ inst ∈ (s.proposers p).state.acceptInstances,
    inst.iid = ack.iid ∧ inst.ballot = ack.ballot

-- These are the acks that fail the assertion.
theorem assertHolds_iff {cl : Cluster ι κ} {s : System ι κ σ}
    (hr : (paxos σ cl).Reachable (fun s e => e.noRestart ∧ e.noWrap s) s) {p : ι}
    {ack : AcceptAck} (hm : s.AckFor p ack) :
    AssertHolds (s.proposers p).state ack ↔ ¬LateRefusal s p ack := by
  have hreg : Regular cl s := .of_reachable hr fun _ _ h => h
  constructor
  · rintro hassert ⟨⟨_, hvalue⟩, _, inst, hinst, hiid, hballot⟩
    have hfind := instanceFind_of_nodup (hreg.lawful p).booked.nodup_accept hinst
    rw [hiid] at hfind
    exact hvalue ((hassert inst hfind hballot.symm).trans hballot)
  · intro hnot inst hfind hballot
    by_contra hvalue
    have hrefusal : .acceptAck (.proposer p) ack ∈ s.net := by
      refine hm.resolve_left fun hall => hvalue ?_
      exact ((hreg.honest.acceptAck _ ack hall).2.2 rfl).trans hballot
    exact hnot ⟨⟨hrefusal, hballot ▸ hvalue⟩, refused_of_reachable hr hrefusal, inst,
      instanceFind_mem hfind, (instanceFind_split hfind).1, hballot.symm⟩

-- No proposer takes in a late refusal.
def Event.onTime (s : System ι κ σ) : Event ι κ → Prop
  | .call p (.receiveAcceptAck ack _) => ¬LateRefusal s p ack
  | _ => True

theorem live_of_onTime {cl : Cluster ι κ} {s : System ι κ σ}
    (hr : (paxos σ cl).Reachable (fun s e => (e.noRestart ∧ e.noWrap s) ∧ e.onTime s) s) (p : ι) :
    (s.proposers p).halted = false := by
  refine hr.invariant (fun s => ∀ p, (s.proposers p).halted = false) (fun p => rfl)
    (fun s e s' hr hlive hw hs => ?_) p
  have hplain := hr.mono fun _ _ h => h.1
  refine (Regular.of_reachable hr fun _ _ h => h.1).live (step_steps hs) hw.1.1 ?_ hlive
  rintro p ack now rfl hm
  exact (assertHolds_iff hplain hm).mpr hw.2

-- In every run in which no acceptor refuses a proposer on account of its own later
-- ballot, the assertion holds for every ack, and a counted ack means acceptance. In any
-- run it fails exactly for late refusals, and no proposer halts while none is taken in.
theorem accept_ack_assertion_holds (cl : Cluster ι κ) :
    (∀ s : System ι κ σ,
      (paxos σ cl).Reachable (fun s e => (e.noRestart ∧ e.noWrap s) ∧ e.NoOwnNack cl s) s →
      ∀ p, (s.proposers p).halted = false ∧ ∀ ack, s.AckFor p ack → ∀ inst,
        instanceFind (s.proposers p).state.acceptInstances ack.iid = some inst →
        ack.ballot = inst.ballot → ack.valueBallot = ack.ballot ∧
          ∃ value, inst.value = some value ∧
            s.Accepted ack.acceptorId inst.iid inst.ballot value) ∧
    (∀ s : System ι κ σ, (paxos σ cl).Reachable (fun s e => e.noRestart ∧ e.noWrap s) s →
      ∀ p ack, s.AckFor p ack →
        (AssertHolds (s.proposers p).state ack ↔ ¬LateRefusal s p ack)) ∧
    ∀ s : System ι κ σ,
      (paxos σ cl).Reachable (fun s e => (e.noRestart ∧ e.noWrap s) ∧ e.onTime s) s →
      ∀ p, (s.proposers p).halted = false := by
  refine ⟨fun s hr p => ?_, fun s hr p ack hm => assertHolds_iff hr hm,
    fun s hr p => live_of_onTime hr p⟩
  have hreg := Regular.of_reachable hr fun _ _ h => h.1
  have hinv : NacksOthers cl s ∧ ∀ p, (s.proposers p).halted = false := by
    refine hr.invariant (fun s => NacksOthers cl s ∧ ∀ p, (s.proposers p).halted = false)
      ⟨fun p ack hm => (by cases hm), fun p => rfl⟩ fun s e s' hr h hw hs => ?_
    have hreg := Regular.of_reachable hr fun _ _ h => h.1
    exact ⟨h.1.step hreg.honest (step_steps hs) hw.2,
      hreg.live (step_steps hs) hw.1.1 (fun _ _ _ _ hm => h.1.assertHolds hreg hm) h.2⟩
  refine ⟨hinv.2 p, fun ack hm inst hfind hballot => ?_⟩
  have hvb := hinv.1.assertHolds hreg hm inst hfind hballot
  have hinst := instanceFind_mem hfind
  obtain ⟨_, hsome, _⟩ := (hreg.lawful p).booked.accepting inst hinst
  obtain ⟨value, hv⟩ := Option.isSome_iff_exists.mp hsome
  have hiid := (instanceFind_split hfind).1
  refine ⟨hvb.trans hballot.symm, value, hv, ?_⟩
  rcases hm with hm | hm
  · exact hreg.accepted_of_ack hm hinst hiid hvb hv
  · exact hreg.accepted_of_ack hm hinst hiid hvb hv

-- Proposer `p` is preempted by `q`, prepares again and sends its value at ballot 20.
def preemption {ι : Type} (p q : ι) : List (Event ι Empty) :=
  [.call p (.propose [7]), .call p (.prepare (fun _ => 0) ⟨0, 0⟩),
    .handle 0 (.prepareReq p ⟨1, 10⟩), .call p (.receivePrepareAck ⟨0, 1, 10, 0, []⟩ ⟨0, 0⟩),
    .call p .accept, .call q (.prepare (fun _ => 0) ⟨0, 0⟩), .handle 0 (.prepareReq q ⟨1, 11⟩),
    .handle 0 (.acceptReq p ⟨1, 10, [7]⟩),
    .call p (.receiveAcceptAck ⟨0, 1, 11, 0, false, []⟩ ⟨0, 0⟩),
    .handle 0 (.prepareReq p ⟨1, 20⟩), .call p (.receivePrepareAck ⟨0, 1, 20, 0, []⟩ ⟨0, 0⟩),
    .call p .accept]

theorem accept_ack_assertion_holds_preemption : ∃ s : System (Fin 2) Empty BdbStorage,
    (paxos BdbStorage (.numbered Empty 2 1)).run (System.start (.numbered Empty 2 1))
        (preemption 0 1 ++ [.handle 0 (.acceptReq 0 ⟨1, 20, [7]⟩)]) = some s ∧
      s.AckFor 0 ⟨0, 1, 20, 20, false, [7]⟩ ∧
      (s.proposers 0).halted = false ∧ ∀ ack, s.AckFor 0 ack → ∀ inst,
        instanceFind (s.proposers 0).state.acceptInstances ack.iid = some inst →
        ack.ballot = inst.ballot → ack.valueBallot = ack.ballot ∧
          ∃ value, inst.value = some value ∧
            s.Accepted ack.acceptorId inst.iid inst.ballot value := by
  obtain ⟨s, hrun, hack⟩ : ∃ s : System (Fin 2) Empty BdbStorage,
      (paxos BdbStorage (.numbered Empty 2 1)).run (System.start (.numbered Empty 2 1))
        (preemption 0 1 ++ [.handle 0 (.acceptReq 0 ⟨1, 20, [7]⟩)]) = some s ∧
        Packet.acceptAck .everyone ⟨0, 1, 20, 20, false, [7]⟩ ∈ s.net :=
    ⟨_, rfl, by decide⟩
  have hr := TransitionSystem.reachable_of_run
    (fun s e => (e.noRestart ∧ e.noWrap s) ∧
      Event.NoOwnNack (σ := BdbStorage) (.numbered Empty 2 1) s e) (by decide) hrun
  exact ⟨s, hrun, .inl hack, (accept_ack_assertion_holds _).1 s hr 0⟩

-- A copy of the first request is handled last. Its nack carries ballot 20, at which
-- nothing was accepted, and halts the proposer.
theorem accept_ack_assertion_fails : ∃ s : System (Fin 2) Empty BdbStorage,
    (paxos BdbStorage (.numbered Empty 2 1)).Reachable (fun s e => e.noRestart ∧ e.noWrap s) s ∧
      s.AckFor 0 ⟨0, 1, 20, 0, false, []⟩ ∧
      ¬AssertHolds (s.proposers 0).state ⟨0, 1, 20, 0, false, []⟩ ∧
      ((s.proposers 0).call {} (.receiveAcceptAck ⟨0, 1, 20, 0, false, []⟩ ⟨0, 0⟩)).1.halted =
        true := by
  obtain ⟨s, hrun, hack, hfails, hhalts⟩ : ∃ s : System (Fin 2) Empty BdbStorage,
      (paxos BdbStorage (.numbered Empty 2 1)).run (System.start (.numbered Empty 2 1))
        (preemption 0 1 ++ [.handle 0 (.acceptReq 0 ⟨1, 10, [7]⟩)]) = some s ∧
        Packet.acceptAck (.proposer 0) ⟨0, 1, 20, 0, false, []⟩ ∈ s.net ∧
        ¬AssertHolds (s.proposers 0).state ⟨0, 1, 20, 0, false, []⟩ ∧
        ((s.proposers 0).call {} (.receiveAcceptAck ⟨0, 1, 20, 0, false, []⟩ ⟨0, 0⟩)).1.halted =
          true :=
    ⟨_, rfl, by decide, by decide, by decide⟩
  exact ⟨s, TransitionSystem.reachable_of_run _ (by decide) hrun, .inr hack, hfails, hhalts⟩

end LibPaxos
