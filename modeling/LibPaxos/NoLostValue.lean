import LibPaxos.Proposer.Conservation
import LibPaxos.Storage.Bdb
import LibPaxos.System.Theorems

namespace LibPaxos

variable {ι κ σ : Type} [MapStorage σ]

-- Acks counted for a proposal mean acceptance, and a removed instance was chosen.
structure Discharged (cl : Cluster ι κ) (s : System ι κ σ) (pr : ProposerProc) : Prop where
  counted : ∀ inst ∈ pr.state.acceptInstances, ∀ value, inst.value = some value →
    inst.quorum.CountedBy fun a => s.Accepted a inst.iid inst.ballot value
  finished : ∀ inst ∈ pr.finished, ∃ value, inst.value = some value ∧
    s.ChosenAt cl inst.iid inst.ballot value

omit [MapStorage σ] in
theorem Discharged.start (cl : Cluster ι κ) (s : System ι κ σ) (id n : Nat) :
    Discharged cl s (ProposerProc.start id n) := by
  constructor <;> simp [ProposerProc.start, proposerNew]

theorem Discharged.mono {cl : Cluster ι κ} {s s' : System ι κ σ} {pr : ProposerProc}
    (h : Discharged cl s pr) (hg : s.Grows s') : Discharged cl s' pr := by
  constructor
  · intro inst hm value hv
    exact (h.counted inst hm value hv).mono fun a ha => (hg a).saved _ ha
  · intro inst hm
    obtain ⟨value, hv, hchosen⟩ := h.finished inst hm
    exact ⟨value, hv, hchosen.mono hg⟩

theorem Discharged.move {cl : Cluster ι κ} {s : System ι κ σ} (hreg : Regular cl s) {p : ι}
    (h : Discharged cl s (s.proposers p)) {c : ProposerCall} {p' : Proposer} {out : ProposerOutput}
    (hm : Move (s.proposers p).state c p' out)
    (hack : ∀ ack now, c = .receiveAcceptAck ack now → ∃ dst, .acceptAck dst ack ∈ s.net) :
    Discharged cl s ((s.proposers p).after c p' out) := by
  have hbooked := (hreg.lawful p).booked
  -- One more ack for an instance whose acks so far mean acceptance.
  have hadded {ack : AcceptAck} {now : Timeval} {inst : Instance} {quorum : Quorum}
      (hc : c = .receiveAcceptAck ack now)
      (hinst : inst ∈ (s.proposers p).state.acceptInstances) (hiid : inst.iid = ack.iid)
      (hvb : ack.valueBallot = inst.ballot)
      (hadd : quorumAdd inst.quorum ack.acceptorId = .ok (quorum, true)) (value : Value)
      (hv : inst.value = some value) :
      quorum.CountedBy fun a => s.Accepted a inst.iid inst.ballot value := by
    obtain ⟨dst, hnet⟩ := hack ack now hc
    exact (h.counted inst hinst value hv).add
      (hreg.accepted_of_ack hnet hinst hiid hvb hv) hadd
  cases hm with
  | idle | propose | prepare | promise | preempt | timeoutPrepare =>
      exact ⟨h.counted, by simpa [ProposerProc.after, ProposerOutput.finishes] using h.finished⟩
  | accept inst rest value values hfront hreached hvalue =>
      refine ⟨fun item hi v hv => ?_,
        by simpa [ProposerProc.after, ProposerOutput.finishes] using h.finished⟩
      rcases List.mem_append.mp hi with hi | hi
      · exact h.counted item hi v hv
      · rw [List.mem_singleton.mp hi]
        exact Quorum.countedBy_clear _ _
  | ackCounted ack now pre post inst quorum hsplit hiid hballot hvb hadd hopen =>
      refine ⟨forall_mem_split hsplit h.counted fun _ value hv => ?_,
        by simpa [ProposerProc.after, ProposerOutput.finishes] using h.finished⟩
      exact hadded rfl (by simp [hsplit]) hiid hvb hadd value hv
  | ackClosed ack now pre post inst quorum hsplit hiid hballot hvb hadd hreached =>
      have hinst : inst ∈ (s.proposers p).state.acceptInstances := by simp [hsplit]
      refine ⟨fun item hi => h.counted item (mem_instanceRemove.mp hi).1, fun item hi => ?_⟩
      rcases List.mem_append.mp hi with hi | hi
      · exact h.finished item hi
      · rw [List.mem_singleton.mp hi]
        obtain ⟨hpending, hsome, _⟩ := hbooked.accepting inst hinst
        obtain ⟨value, hv⟩ := Option.isSome_iff_exists.mp hsome
        exact ⟨value, hv, (hadded rfl hinst hiid hvb hadd value hv).majority
          (quorumAdd_sized hpending.2 hadd) hreached⟩
  | ackPreempted ack now pre post inst hsplit hfind hne =>
      exact ⟨fun item hi => h.counted item (mem_instanceRemove.mp hi).1,
        by simpa [ProposerProc.after, ProposerOutput.finishes] using h.finished⟩
  | timeoutAccept iter pre post inst value hsplit hvalue =>
      exact ⟨forall_mem_split hsplit h.counted fun hi => hi,
        by simpa [ProposerProc.after, ProposerOutput.finishes] using h.finished⟩

variable [DecidableEq ι] [DecidableEq κ]

theorem Discharged.step {cl : Cluster ι κ} {s s' : System ι κ σ} {e : Event ι κ}
    (hreg : Regular cl s)
    (h : ∀ p, Conserved (s.proposers p) ∧ Discharged cl s (s.proposers p))
    (hs : Steps cl s e s') (hrestart : e.noRestart) :
    ∀ p, Conserved (s'.proposers p) ∧ Discharged cl s' (s'.proposers p) := by
  have hgrow := hs.grows hreg.honest
  apply hs.forall_proposers (P := fun _ pr => Conserved pr ∧ Discharged cl s' pr)
    fun p => ⟨(h p).1, (h p).2.mono hgrow⟩
  · rintro p c pr out rfl hoffer hcall
    have hbooked := (hreg.lawful p).booked
    rcases hbooked.call_cases hcall with ⟨_, _, rfl, _⟩ | ⟨p', hm, rfl⟩
    · have hd := (h p).2.mono hgrow
      exact ⟨(h p).1, hd.counted, hd.finished⟩
    · refine ⟨(h p).1.move hbooked hm, ((h p).2.move hreg hm fun ack now hc => ?_).mono hgrow⟩
      rw [hc] at hoffer
      rcases ackFor_of_offered hoffer with hall | hone
      · exact ⟨.everyone, hall⟩
      · exact ⟨.proposer p, hone⟩
  · rintro p rfl
    exact hrestart.elim

-- Counted as multisets, every submitted value is queued, pending or finished, and
-- every finished value was chosen for its instance.
theorem no_submitted_value_lost (cl : Cluster ι κ) (s : System ι κ σ)
    (hr : (paxos σ cl).Reachable (fun s e => e.noRestart ∧ e.noWrap s) s) (p : ι) :
    ((s.proposers p).submitted : Multiset Value) ≤
        (s.proposers p).state.values + instanceValues (s.proposers p).state.prepareInstances +
          instanceValues (s.proposers p).state.acceptInstances +
            instanceValues (s.proposers p).finished ∧
      ∀ inst ∈ (s.proposers p).finished, ∃ value, inst.value = some value ∧
        s.ChosenAt cl inst.iid inst.ballot value := by
  have hinv : ∀ p, Conserved (s.proposers p) ∧ Discharged cl s (s.proposers p) := by
    refine hr.invariant
      (fun s => ∀ p, Conserved (s.proposers p) ∧ Discharged cl s (s.proposers p))
      (fun p => ⟨.start _ _, .start _ _ _ _⟩) fun s e s' hr h hw hs => ?_
    exact Discharged.step (.of_reachable hr fun _ _ h => h) h (step_steps hs) hw.1
  exact ⟨(hinv p).1.submitted_le, (hinv p).2.finished⟩

-- Two values. The first is chosen and its instance removed, the second still queued.
def closing {ι : Type} (p : ι) : List (Event ι Empty) :=
  [.call p (.propose [7]), .call p (.propose [8]), .call p (.prepare (fun _ => 0) ⟨0, 0⟩),
    .handle 0 (.prepareReq p ⟨1, 10⟩), .call p (.receivePrepareAck ⟨0, 1, 10, 0, []⟩ ⟨0, 0⟩),
    .call p .accept, .handle 0 (.acceptReq p ⟨1, 10, [7]⟩),
    .call p (.receiveAcceptAck ⟨0, 1, 10, 10, false, [7]⟩ ⟨0, 0⟩)]

theorem no_submitted_value_lost_closing : ∃ s : System (Fin 1) Empty BdbStorage,
    (paxos BdbStorage (.solo Empty)).run (System.start (.solo Empty)) (closing 0) =
        some s ∧
      ((s.proposers 0).submitted : Multiset Value) ≤
        (s.proposers 0).state.values + instanceValues (s.proposers 0).state.prepareInstances +
          instanceValues (s.proposers 0).state.acceptInstances +
            instanceValues (s.proposers 0).finished ∧
      instanceValues (s.proposers 0).finished = [[7]] ∧
      ∀ inst ∈ (s.proposers 0).finished, ∃ value, inst.value = some value ∧
        s.ChosenAt (.solo Empty) inst.iid inst.ballot value := by
  obtain ⟨s, hrun, hfin⟩ : ∃ s : System (Fin 1) Empty BdbStorage,
      (paxos BdbStorage (.solo Empty)).run (System.start (.solo Empty)) (closing 0) =
        some s ∧ instanceValues (s.proposers 0).finished = [[7]] := ⟨_, rfl, by decide⟩
  have hr := TransitionSystem.reachable_of_run (fun s e => e.noRestart ∧ e.noWrap s)
    (by decide) hrun
  obtain ⟨hle, hchosen⟩ := no_submitted_value_lost _ s hr 0
  exact ⟨s, hrun, hle, hfin, hchosen⟩

end LibPaxos
