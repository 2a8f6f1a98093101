import LibPaxos.Storage.Bdb
import LibPaxos.System.Theorems

namespace LibPaxos

-- The instance with this iid, in whichever list it is.
def Proposer.IsInstance (p : Proposer) (iid : Nat) (inst : Instance) : Prop :=
  (p.prepareInstances ++ p.acceptInstances).filter (fun item => item.iid = iid) = [inst]

-- A promise of a lower ballot changes nothing, and only one of a higher ballot preempts.
structure PrepareAckSound (p : Proposer) (ack : PrepareAck) (now : Timeval) : Prop where
  stale : ∀ inst, p.IsInstance ack.iid inst → ack.ballot < inst.ballot →
    proposerReceivePrepareAck p ack now = .ok (p, none)
  preempts : ∀ inst p' out, p.IsInstance ack.iid inst →
    proposerReceivePrepareAck p ack now = .ok (p', some out) → inst.ballot < ack.ballot

structure AcceptAckSound (p : Proposer) (ack : AcceptAck) (now : Timeval) : Prop where
  stale : ∀ inst, p.IsInstance ack.iid inst → ack.ballot < inst.ballot →
    proposerReceiveAcceptAck p ack now = .ok (p, .ignored)
  preempts : ∀ inst p' out, p.IsInstance ack.iid inst →
    proposerReceiveAcceptAck p ack now = .ok (p', .preempted out) → inst.ballot < ack.ballot

-- The instance that waits for accept acks has a higher ballot than the ack.
def AcceptAck.Outdated (p : Proposer) (ack : AcceptAck) : Prop :=
  ∃ inst, p.IsInstance ack.iid inst ∧ inst ∈ p.acceptInstances ∧ ack.ballot < inst.ballot

theorem Proposer.IsInstance.eq {p : Proposer} {iid : Nat} {inst item : Instance}
    (h : p.IsInstance iid inst) (hm : item ∈ p.prepareInstances ∨ item ∈ p.acceptInstances)
    (hiid : item.iid = iid) : item = inst := by
  have hin : item ∈ (p.prepareInstances ++ p.acceptInstances).filter
      (fun item => item.iid = iid) := by
    rw [List.mem_filter, List.mem_append]
    exact ⟨hm, by simp [hiid]⟩
  rw [h] at hin
  exact List.mem_singleton.mp hin

theorem prepareAckSound (p : Proposer) (ack : PrepareAck) (now : Timeval) :
    PrepareAckSound p ack now := by
  constructor
  · intro inst hinst hlt
    unfold proposerReceivePrepareAck
    cases hfind : instanceFind p.prepareInstances ack.iid with
    | none => rfl
    | some found =>
        obtain ⟨hiid, _⟩ := instanceFind_split hfind
        obtain rfl := hinst.eq (.inl (instanceFind_mem hfind)) hiid
        exact if_pos hlt
  · intro inst p' out hinst hcall
    have hmove := proposerReceivePrepareAck_move hcall
    cases hmove with
    | preempt _ _ _ _ found hsplit hfind hlt =>
        obtain ⟨hiid, _⟩ := instanceFind_split hfind
        rw [hinst.eq (.inl (instanceFind_mem hfind)) hiid] at hlt
        exact hlt

-- The handler of accept acks compares ballots for equality only.
theorem acceptAckSound_iff (p : Proposer) (ack : AcceptAck) (now : Timeval) :
    AcceptAckSound p ack now ↔ ¬ack.Outdated p := by
  constructor
  · rintro h ⟨inst, hinst, hm, hlt⟩
    have hstale := h.stale inst hinst hlt
    have hfind : instanceFind p.acceptInstances ack.iid = some inst := by
      cases hfind : instanceFind p.acceptInstances ack.iid with
      | none =>
          have hiid : inst.iid = ack.iid := by
            have hin : inst ∈ (p.prepareInstances ++ p.acceptInstances).filter
                (fun item => item.iid = ack.iid) := by simp [show _ = _ from hinst]
            simpa using (List.mem_filter.mp hin).2
          have hno := List.find?_eq_none.mp hfind inst hm
          simp [hiid] at hno
      | some found =>
          obtain ⟨hiid, _⟩ := instanceFind_split hfind
          rw [hinst.eq (.inr (instanceFind_mem hfind)) hiid]
    have hne : ¬ack.ballot = inst.ballot := by omega
    simp [proposerReceiveAcceptAck, hfind, hne] at hstale
  · intro h
    constructor
    · intro inst hinst hlt
      unfold proposerReceiveAcceptAck
      cases hfind : instanceFind p.acceptInstances ack.iid with
      | none => rfl
      | some found =>
          obtain ⟨hiid, _⟩ := instanceFind_split hfind
          have hm := instanceFind_mem hfind
          obtain rfl := hinst.eq (.inr hm) hiid
          exact absurd ⟨found, hinst, hm, hlt⟩ h
    · intro inst p' out hinst hcall
      have hmove := proposerReceiveAcceptAck_move hcall
      cases hmove with
      | ackPreempted _ _ _ _ found hsplit hfind hne =>
          obtain ⟨hiid, _⟩ := instanceFind_split hfind
          have hm := instanceFind_mem hfind
          obtain rfl := hinst.eq (.inr hm) hiid
          by_contra hle
          exact h ⟨found, hinst, hm, by omega⟩

theorem stale_acks_ignored (p : Proposer) (promise : PrepareAck) (ack : AcceptAck)
    (now : Timeval) :
    (PrepareAckSound p promise now ∧ AcceptAckSound p ack now) ↔ ¬ack.Outdated p := by
  rw [acceptAckSound_iff]
  exact and_iff_right (prepareAckSound p promise now)

-- The value of proposer `p` is accepted and acknowledged to everyone. Proposer `q`
-- takes the instance over before the ack reaches it.
def overtaken {ι : Type} (p q : ι) : List (Event ι Empty) :=
  [.call p (.propose [7]), .call p (.prepare (fun _ => 0) ⟨0, 0⟩),
    .handle 0 (.prepareReq p ⟨1, 10⟩), .call p (.receivePrepareAck ⟨0, 1, 10, 0, []⟩ ⟨0, 0⟩),
    .call p .accept, .handle 0 (.acceptReq p ⟨1, 10, [7]⟩),
    .call q (.prepare (fun _ => 0) ⟨0, 0⟩), .handle 0 (.prepareReq q ⟨1, 11⟩),
    .call q (.receivePrepareAck ⟨0, 1, 11, 10, [7]⟩ ⟨0, 0⟩), .call q .accept]

theorem stale_ack_preempts : ∃ (s : System (Fin 2) Empty BdbStorage) (ack : AcceptAck),
    (paxos BdbStorage (.numbered Empty 2 1)).Reachable (fun s e => e.noRestart ∧ e.noWrap s) s ∧
      s.AckFor 1 ack ∧ ¬AcceptAckSound (s.proposers 1).state ack ⟨0, 0⟩ := by
  obtain ⟨s, hrun, hack, inst, hinst, hm, hb⟩ : ∃ s : System (Fin 2) Empty BdbStorage,
      (paxos BdbStorage (.numbered Empty 2 1)).run (System.start (.numbered Empty 2 1))
        (overtaken 0 1) = some s ∧ .acceptAck .everyone ⟨0, 1, 10, 10, false, [7]⟩ ∈ s.net ∧
      ∃ inst, ((s.proposers 1).state.prepareInstances ++
          (s.proposers 1).state.acceptInstances).filter (fun item => item.iid = 1) = [inst] ∧
        inst ∈ (s.proposers 1).state.acceptInstances ∧ 10 < inst.ballot :=
    ⟨_, rfl, by decide, _, rfl, by decide, by decide⟩
  have hr := TransitionSystem.reachable_of_run (fun s e => e.noRestart ∧ e.noWrap s)
    (by decide) hrun
  refine ⟨s, ⟨0, 1, 10, 10, false, [7]⟩, hr, .inl hack, fun hsound => ?_⟩
  exact (acceptAckSound_iff _ _ _).mp hsound ⟨inst, hinst, hm, hb⟩

end LibPaxos
