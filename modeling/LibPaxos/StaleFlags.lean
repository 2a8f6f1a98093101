import LibPaxos.Quorum.FirstMajority
import LibPaxos.Storage.Bdb
import LibPaxos.System.Theorems

namespace LibPaxos

open MapStorage

variable {ι κ σ : Type}

-- The memory of a new quorum holds no zero where the clearing loop does not come.
def Event.Stale (cl : Cluster ι κ) : Event ι κ → Prop
  | .call _ (.prepare junk _) => ∀ a < cl.acceptors, paxosQuorum cl.acceptors ≤ a → junk a ≠ 0
  | _ => True

-- The acceptor takes no part.
def Event.Misses (a : Nat) : Event ι κ → Prop
  | .handle b _ => b ≠ a
  | _ => True

instance Event.Stale.decidable (cl : Cluster ι κ) : (e : Event ι κ) → Decidable (e.Stale cl)
  | .call _ (.prepare junk _) =>
      inferInstanceAs (Decidable (∀ a < cl.acceptors, paxosQuorum cl.acceptors ≤ a → junk a ≠ 0))
  | .call _ (.propose _) => isTrue trivial
  | .call _ (.receivePrepareAck _ _) => isTrue trivial
  | .call _ .accept => isTrue trivial
  | .call _ (.receiveAcceptAck _ _) => isTrue trivial
  | .call _ (.timeoutPrepare _) => isTrue trivial
  | .call _ (.timeoutAccept _) => isTrue trivial
  | .restart _ => isTrue trivial
  | .handle _ _ => isTrue trivial
  | .learn _ _ => isTrue trivial
  | .checkHoles _ => isTrue trivial

instance Event.Misses.decidable (a : Nat) : (e : Event ι κ) → Decidable (e.Misses a)
  | .handle b _ => inferInstanceAs (Decidable (b ≠ a))
  | .call _ _ => isTrue trivial
  | .restart _ => isTrue trivial
  | .learn _ _ => isTrue trivial
  | .checkHoles _ => isTrue trivial

-- A quorum in which only the first acceptors can be counted, and one of them is not.
structure Quorum.Blocked (n a : Nat) (q : Quorum) : Prop where
  sized : q.Sized n
  missing : q.flagged a = false
  stale : ∀ b < n, paxosQuorum n ≤ b → q.flagged b = true
  count : q.count ≤ ((Finset.range (paxosQuorum n)).filter fun b => q.flagged b = true).card

variable {n a : Nat} {q : Quorum}

theorem Quorum.Blocked.open (h : q.Blocked n a) (ha : a < paxosQuorum n) :
    quorumReached q = false := by
  have hsub : (Finset.range (paxosQuorum n)).filter (fun b => q.flagged b = true) ⊂
      Finset.range (paxosQuorum n) := by
    refine Finset.filter_ssubset.mpr ⟨a, Finset.mem_range.mpr ha, ?_⟩
    rw [h.missing]
    simp
  have hlt := Finset.card_lt_card hsub
  rw [Finset.card_range] at hlt
  have hcount := h.count
  rw [quorumReached, h.sized.1]
  exact decide_eq_false (by omega)

theorem Quorum.Blocked.clear (hsized : q.Sized n) (ha : a < paxosQuorum n)
    (hstale : ∀ b < n, paxosQuorum n ≤ b → q.flagged b = true) : (quorumClear q).Blocked n a := by
  refine ⟨quorumClear_sized hsized, flagged_clear q (hsized.1.symm ▸ ha), fun b hb hge => ?_,
    Nat.zero_le _⟩
  rw [Quorum.flagged, List.getD_eq_getElem?_getD, quorumClear_flag,
    if_neg (by rw [hsized.1]; omega), ← List.getD_eq_getElem?_getD]
  exact hstale b hb hge

theorem Quorum.Blocked.init (ha : a < paxosQuorum n) {junk : Nat → Int}
    (hjunk : ∀ b < n, paxosQuorum n ≤ b → junk b ≠ 0) : (quorumInit n junk).Blocked n a := by
  refine .clear ⟨rfl, by simp⟩ ha fun b hb hge => ?_
  simp [Quorum.flagged, hb, hjunk b hb hge]

-- Whoever is counted is one of the first.
theorem Quorum.Blocked.add (h : q.Blocked n a) {id : Nat} (hid : id ≠ a) {q' : Quorum}
    (hadd : quorumAdd q id = .ok (q', true)) : q'.Blocked n a := by
  have hflag := flagged_add hadd
  have hsized := quorumAdd_sized h.sized hadd
  obtain ⟨hzero, rfl⟩ := quorumAdd_true hadd
  have hlt : id < n := h.sized.2 ▸ (List.getElem?_eq_some_iff.mp hzero).1
  have hnew : q.flagged id = false := by simp [Quorum.flagged, hzero]
  have hfirst : id < paxosQuorum n := by
    by_contra hge
    rw [h.stale id hlt (by omega)] at hnew
    cases hnew
  refine ⟨hsized, ?_, fun b hb hge => ?_, ?_⟩
  · rw [hflag, h.missing]
    simp [Ne.symm hid]
  · rw [hflag, h.stale b hb hge, Bool.or_true]
  · have hinsert : (Finset.range (paxosQuorum n)).filter (fun b =>
        Quorum.flagged { q with count := q.count + 1, acceptorIds := q.acceptorIds.set id 1 } b =
          true) =
        insert id ((Finset.range (paxosQuorum n)).filter fun b => q.flagged b = true) := by
      ext b
      rw [Finset.mem_insert, Finset.mem_filter, Finset.mem_filter, hflag]
      by_cases hb : b = id
      · simp [hb, hfirst]
      · simp [hb]
    rw [hinsert, Finset.card_insert_of_notMem (by simp [hnew])]
    exact Nat.succ_le_succ h.count

-- A proposer that waits for the acceptor in every instance.
structure Proposer.Stuck (n a : Nat) (p : Proposer) : Prop where
  acceptors : p.acceptors = n
  preparing : ∀ inst ∈ p.prepareInstances, inst.quorum.Blocked n a
  accepting : p.acceptInstances = []

theorem Proposer.Stuck.move {p p' : Proposer} {c : ProposerCall} {out : ProposerOutput}
    (h : p.Stuck n a) (ha : a < paxosQuorum n) (hm : Move p c p' out)
    (hjunk : ∀ junk now, c = .prepare junk now → ∀ b < n, paxosQuorum n ≤ b → junk b ≠ 0)
    (hack : ∀ ack now, c = .receivePrepareAck ack now → ack.acceptorId ≠ a) :
    p'.Stuck n a ∧ ∀ r, out ≠ .acceptReq r := by
  have hnone {pre post : List Instance} {inst : Instance}
      (hsplit : p.acceptInstances = pre ++ inst :: post) : False := by
    rw [h.accepting] at hsplit
    cases pre <;> cases hsplit
  cases hm with
  | idle | propose => exact ⟨⟨h.acceptors, h.preparing, h.accepting⟩, nofun⟩
  | prepare junk now =>
      refine ⟨⟨h.acceptors, List.forall_mem_append.mpr ⟨h.preparing,
        List.forall_mem_singleton.mpr ?_⟩, h.accepting⟩, nofun⟩
      rw [h.acceptors]
      exact .init ha (hjunk junk now rfl)
  | promise ack now pre post inst quorum hsplit hfind hiid hballot hadd =>
      refine ⟨⟨h.acceptors, forall_mem_split hsplit h.preparing fun hinst => ?_, h.accepting⟩,
        nofun⟩
      rw [promiseValue_quorum]
      exact Quorum.Blocked.add hinst (hack ack now rfl) hadd
  | preempt ack now pre post inst hsplit hfind hlt =>
      exact ⟨⟨h.acceptors, forall_mem_split hsplit h.preparing fun hinst =>
        .clear hinst.sized ha hinst.stale, h.accepting⟩, nofun⟩
  | accept inst rest value values hfront hreached hvalue =>
      rw [(h.preparing inst (by simp [hfront])).open ha] at hreached
      cases hreached
  | ackCounted ack now pre post inst quorum hsplit => exact (hnone hsplit).elim
  | ackClosed ack now pre post inst quorum hsplit => exact (hnone hsplit).elim
  | ackPreempted ack now pre post inst hsplit => exact (hnone hsplit).elim
  | timeoutPrepare iter pre post inst hsplit =>
      exact ⟨⟨h.acceptors, forall_mem_split hsplit h.preparing fun hinst => hinst,
        h.accepting⟩, nofun⟩
  | timeoutAccept iter pre post inst value hsplit hvalue => exact (hnone hsplit).elim

variable [MapStorage σ]

-- Nobody gets beyond phase 1.
structure Starved (cl : Cluster ι κ) (a : Nat) (s : System ι κ σ) : Prop where
  proposers : ∀ p, (s.proposers p).state.Stuck cl.acceptors a
  promises : ∀ dst ack, .prepareAck dst ack ∈ s.net → ack.acceptorId ≠ a
  requests : ∀ p r, .acceptReq p r ∉ s.net

theorem Starved.start (cl : Cluster ι κ) (a : Nat) :
    Starved cl a (System.start cl : System ι κ σ) := by
  refine ⟨fun p => ⟨rfl, ?_, rfl⟩, ?_, ?_⟩
  · intro inst h
    cases h
  · intro dst ack h
    cases h
  · intro p r h
    cases h

variable [DecidableEq ι] [DecidableEq κ] {cl : Cluster ι κ} {s s' : System ι κ σ} {e : Event ι κ}

omit [MapStorage σ] in
-- A call moves the proposer, or a fault stops it where it was.
theorem Starved.call (h : Starved cl a s) (ha : a < paxosQuorum cl.acceptors) {p : ι}
    (hopen : (s.proposers p).state.Opened) {c : ProposerCall}
    (hoffer : c.offered s.net p = true) (hstale : (Event.call p c : Event ι κ).Stale cl)
    {pr : ProposerProc} {out : ProposerOutput}
    (hcall : (s.proposers p).call (cl.proposerConfig p) c = (pr, out)) :
    pr.state.Stuck cl.acceptors a ∧ ∀ r, out ≠ .acceptReq r := by
  rcases ProposerProc.call_cases hopen.preparing hcall with ⟨_, _, rfl, rfl⟩ | ⟨p', hm, rfl⟩
  · exact ⟨h.proposers p, fun r he => by cases he⟩
  · refine (h.proposers p).move ha hm ?_ ?_
    · rintro junk now rfl
      exact hstale
    · rintro ack now rfl
      exact h.promises p ack (prepareAck_of_offered hoffer)

theorem Starved.step (h : Starved cl a s) (ha : a < paxosQuorum cl.acceptors)
    (hhonest : Honest cl s) (hopen : ∀ p, (s.proposers p).state.Opened) (hs : Steps cl s e s')
    (hstale : e.Stale cl) (hmiss : e.Misses a) : Starved cl a s' := by
  refine ⟨?_, fun dst ack hm => ?_, fun q r hm => ?_⟩
  · apply hs.forall_proposers (P := fun _ pr => pr.state.Stuck cl.acceptors a) h.proposers
    · rintro p c pr out rfl hoffer hcall
      exact (h.call ha (hopen p) hoffer hstale hcall).1
    · rintro p rfl
      refine ⟨(h.proposers p).acceptors, ?_, rfl⟩
      intro inst hm
      cases hm
  · rcases hs.mem_net hm with hm | ⟨p, c, pr, out, rfl, _, _, _, hm⟩ |
      ⟨b, req, acceptor, replies, rfl, hr, _, hm⟩ | ⟨l, iid, he⟩
    · exact h.promises dst ack hm
    · rcases mem_packets hm with ⟨_, _, he⟩ | ⟨_, _, he⟩ <;> cases he
    · obtain ⟨_, _, hhandled⟩ := (hhonest.voter b).handled hr
      obtain ⟨rec, rfl, hid, _⟩ := hhandled.prepareAck hm
      exact fun he => hmiss (hid.symm.trans he)
    · cases he
  · rcases hs.mem_net hm with hm | ⟨p, c, pr, out, rfl, hoffer, hcall, _, hm⟩ |
      ⟨b, req, acceptor, replies, rfl, hr, _, hm⟩ | ⟨l, iid, he⟩
    · exact h.requests q r hm
    · rcases mem_packets hm with ⟨_, _, he⟩ | ⟨req, hreq, _⟩
      · cases he
      · exact (h.call ha (hopen p) hoffer hstale hcall).2 req hreq
    · obtain ⟨_, _, hhandled⟩ := (hhonest.voter b).handled hr
      exact hhandled.no_request q r hm
    · cases he

-- `quorum_clear` clears the flags of the first majority only. Where the memory behind
-- them is not zero, the others are never counted: without one acceptor of the first
-- majority no proposer gets to phase 2, whoever else answers.
theorem first_majority_needed (cl : Cluster ι κ) (a : Nat) (ha : a < paxosQuorum cl.acceptors)
    (s : System ι κ σ)
    (hr : (paxos σ cl).Reachable (fun _ e => e.Stale cl ∧ e.Misses a) s) :
    (∀ p r, .acceptReq p r ∉ s.net) ∧ ∀ i b v, ¬s.ChosenAt cl i b v := by
  have hinv := hr.invariant (Starved cl a) (.start cl a) fun s e s' hr h hg hs =>
    h.step ha (.of_reachable hr) (opened_of_reachable hr) (step_steps hs) hg.1 hg.2
  refine ⟨hinv.requests, ?_⟩
  rintro i b v ⟨group, ⟨_, hcard⟩, haccepted⟩
  obtain ⟨voter, hvoter⟩ : group.Nonempty := Finset.card_pos.mp (by omega)
  obtain ⟨_, src, hm⟩ := (Honest.of_reachable hr).saved voter _ (haccepted voter hvoter)
  exact hinv.requests src _ hm

-- Two of three acceptors answer and both answers are taken in.
def firstIsDown {ι : Type} (p : ι) : List (Event ι Empty) :=
  [.call p (.propose [7]), .call p (.prepare (fun _ => 1) ⟨0, 0⟩),
    .handle 1 (.prepareReq p ⟨1, 10⟩), .handle 2 (.prepareReq p ⟨1, 10⟩),
    .call p (.receivePrepareAck ⟨1, 1, 10, 0, []⟩ ⟨0, 0⟩),
    .call p (.receivePrepareAck ⟨2, 1, 10, 0, []⟩ ⟨0, 0⟩), .call p .accept]

theorem first_majority_needed_down : ∃ s : System (Fin 1) Empty BdbStorage,
    (paxos BdbStorage (.numbered Empty 1 3)).run (System.start (.numbered Empty 1 3))
        (firstIsDown 0) = some s ∧
      .prepareAck 0 ⟨1, 1, 10, 0, []⟩ ∈ s.net ∧ .prepareAck 0 ⟨2, 1, 10, 0, []⟩ ∈ s.net ∧
      (∀ p r, .acceptReq p r ∉ s.net) ∧ ∀ i b v, ¬s.ChosenAt (.numbered Empty 1 3) i b v := by
  obtain ⟨s, hrun, h1, h2⟩ : ∃ s : System (Fin 1) Empty BdbStorage,
      (paxos BdbStorage (.numbered Empty 1 3)).run (System.start (.numbered Empty 1 3))
        (firstIsDown 0) = some s ∧
      .prepareAck 0 ⟨1, 1, 10, 0, []⟩ ∈ s.net ∧ .prepareAck 0 ⟨2, 1, 10, 0, []⟩ ∈ s.net :=
    ⟨_, rfl, by decide, by decide⟩
  have hr := TransitionSystem.reachable_of_run
    (fun _ e => Event.Stale (.numbered Empty 1 3) e ∧ e.Misses 0) (by decide) hrun
  exact ⟨s, hrun, h1, h2, first_majority_needed _ 0 (by decide) s hr⟩

end LibPaxos
