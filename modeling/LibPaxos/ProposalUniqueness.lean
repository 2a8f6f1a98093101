import LibPaxos.Wraparound

namespace LibPaxos

variable {ι κ σ : Type} [DecidableEq ι] [DecidableEq κ] [MapStorage σ]

omit [DecidableEq ι] [DecidableEq κ] [MapStorage σ] in
theorem Lawful.of_life {id n : Nat} {pr : ProposerProc} (h : Lawful id n pr)
    {life : List AcceptReq} (hl : life ∈ pr.lives) :
    (∀ r ∈ life, OwnBallot id r.ballot) ∧
      ∀ r ∈ life, ∀ r' ∈ life, r.iid = r'.iid → r.ballot = r'.ballot → r.value = r'.value := by
  rcases List.mem_cons.mp hl with rfl | hl
  · exact ⟨h.emitting.own, h.emitting.unique⟩
  · exact h.past life hl

-- Two requests with one iid and one ballot come from one proposer. They carry the
-- same value if it sent them in the same life.
theorem proposals_unique_between_restarts (cl : Cluster ι κ) (s : System ι κ σ)
    (hr : (paxos σ cl).Reachable (fun s e => e.noWrap s) s) (p q : ι) (r r' : AcceptReq)
    (hm : .acceptReq p r ∈ s.net) (hm' : .acceptReq q r' ∈ s.net) (hiid : r.iid = r'.iid)
    (hballot : r.ballot = r'.ballot) :
    p = q ∧ ((∃ life ∈ (s.proposers p).lives, r ∈ life ∧ r' ∈ life) → r.value = r'.value) := by
  have hh := Honest.of_reachable hr
  have hlaw := Lawful.of_reachable hr fun _ _ h => h
  constructor
  · obtain ⟨life, hl, hlife⟩ := (hh.request p r).mp hm
    obtain ⟨life', hl', hlife'⟩ := (hh.request q r').mp hm'
    have hown := ((hlaw p).of_life hl).1 r hlife
    have hown' := ((hlaw q).of_life hl').1 r' hlife'
    apply cl.id_injective
    rw [← hown.1, ← hown'.1, hballot]
  · rintro ⟨life, hl, hlife, hlife'⟩
    exact ((hlaw p).of_life hl).2 r hlife r' hlife' hiid hballot

-- The proposer sends a value and is restarted. It asks for the same instance with the
-- same ballot again, and the acceptor promises again. It sends another value.
def restarted {ι : Type} (p : ι) : List (Event ι Empty) :=
  [.call p (.propose [7]), .call p (.prepare (fun _ => 0) ⟨0, 0⟩),
    .handle 0 (.prepareReq p ⟨1, 10⟩), .call p (.receivePrepareAck ⟨0, 1, 10, 0, []⟩ ⟨0, 0⟩),
    .call p .accept, .restart p, .call p (.propose [8]),
    .call p (.prepare (fun _ => 0) ⟨0, 0⟩), .handle 0 (.prepareReq p ⟨1, 10⟩),
    .call p (.receivePrepareAck ⟨0, 1, 10, 0, []⟩ ⟨0, 0⟩), .call p .accept,
    .call p (.timeoutAccept ⟨0, 0, ⟨1, 0⟩⟩)]

theorem proposals_unique_between_restarts_resent : ∃ s : System (Fin 1) Empty BdbStorage,
    (paxos BdbStorage (.solo Empty)).run (System.start (.solo Empty)) (restarted 0) = some s ∧
      (s.proposers 0).lives = [[⟨1, 10, [8]⟩, ⟨1, 10, [8]⟩], [⟨1, 10, [7]⟩]] ∧
      ∀ r r', .acceptReq 0 r ∈ s.net → .acceptReq 0 r' ∈ s.net → r.iid = r'.iid →
        r.ballot = r'.ballot →
        (∃ life ∈ (s.proposers 0).lives, r ∈ life ∧ r' ∈ life) → r.value = r'.value := by
  obtain ⟨s, hrun, hlives⟩ : ∃ s : System (Fin 1) Empty BdbStorage,
      (paxos BdbStorage (.solo Empty)).run (System.start (.solo Empty)) (restarted 0) = some s ∧
        (s.proposers 0).lives = [[⟨1, 10, [8]⟩, ⟨1, 10, [8]⟩], [⟨1, 10, [7]⟩]] :=
    ⟨_, rfl, by decide⟩
  have hr := TransitionSystem.reachable_of_run (fun s e => Event.noWrap (σ := BdbStorage) s e)
    (by decide) hrun
  exact ⟨s, hrun, hlives, fun r r' hm hm' hiid hballot =>
    (proposals_unique_between_restarts _ s hr 0 0 r r' hm hm' hiid hballot).2⟩

-- A restart alone, wrapped iids alone and wrapped ballots alone each give two
-- requests that differ only in their values.
theorem proposals_not_unique :
    (∃ s : System (Fin 1) Empty BdbStorage,
      (paxos BdbStorage (.solo Empty)).Reachable (fun s e => e.noWrap s) s ∧
        .acceptReq 0 ⟨1, 10, [7]⟩ ∈ s.net ∧ .acceptReq 0 ⟨1, 10, [8]⟩ ∈ s.net) ∧
    (∃ s : System (Fin 1) Empty BdbStorage,
      (paxos BdbStorage (.solo Empty)).Reachable (fun _ e => e.noRestart) s ∧
        .acceptReq 0 ⟨1, 10, [7]⟩ ∈ s.net ∧ .acceptReq 0 ⟨1, 10, [8]⟩ ∈ s.net) ∧
    ∃ s : System (Fin 5) Empty BdbStorage,
      (paxos BdbStorage quintet).Reachable (fun s e => e.noRestart ∧ e.noIidWrap s) s ∧
        .acceptReq 0 ⟨1, 14, [7]⟩ ∈ s.net ∧ .acceptReq 4 ⟨1, 14, [8]⟩ ∈ s.net := by
  refine ⟨?_, ?_, exists_ballot_reused⟩
  · obtain ⟨s, hrun, h7, h8⟩ : ∃ s : System (Fin 1) Empty BdbStorage,
        (paxos BdbStorage (.solo Empty)).run (System.start (.solo Empty)) (restarted 0) = some s ∧
          .acceptReq 0 ⟨1, 10, [7]⟩ ∈ s.net ∧ .acceptReq 0 ⟨1, 10, [8]⟩ ∈ s.net :=
      ⟨_, rfl, by decide, by decide⟩
    exact ⟨s, TransitionSystem.reachable_of_run _ (by decide) hrun, h7, h8⟩
  · obtain ⟨s, _, hr, _, h7, h8⟩ := exists_iid_reused (σ := BdbStorage) fun j =>
      if j = 0 then [7] else [8]
    exact ⟨s, hr, h7, h8⟩

end LibPaxos
