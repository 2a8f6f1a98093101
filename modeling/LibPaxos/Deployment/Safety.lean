import LibPaxos.Deployment.Connections
import LibPaxos.Deployment.Refinement
import LibPaxos.ReplicatedLog

namespace LibPaxos

open Wire MapStorage

variable {ι κ σ : Type} [DecidableEq ι] [DecidableEq κ]

theorem valueToLearners_run : ∃ d : Deployment (Fin 1) (Fin 2) (Logged BdbStorage),
    (d.learners 0).delivered = [⟨0, 1, 10, 10, false, [7]⟩] ∧
      (d.learners 1).delivered = [⟨0, 1, 10, 10, false, [7]⟩] ∧
      (d.pipes (.down ⟨.proposer 0, 0, 0⟩)).inFlight.length = 45 ∧
      (deployment (Logged BdbStorage) smallLayout).Reachable
        (fun d e => e.Regular oneByte smallLayout d) d := by
  obtain ⟨d, hd⟩ := Option.isSome_iff_exists.mp (show
    ((deployment (Logged BdbStorage) smallLayout).run (Deployment.start smallLayout)
      valueToLearners).isSome = true by decide +kernel)
  have hdelivered : ((deployment (Logged BdbStorage) smallLayout).run
      (Deployment.start smallLayout) valueToLearners).map
        (fun d => ((d.learners 0).delivered, (d.learners 1).delivered,
          (d.pipes (.down ⟨.proposer 0, 0, 0⟩)).inFlight.length)) =
      some ([⟨0, 1, 10, 10, false, [7]⟩], [⟨0, 1, 10, 10, false, [7]⟩], 45) := by decide +kernel
  rw [hd, Option.map_some, Option.some.injEq, Prod.mk.injEq, Prod.mk.injEq] at hdelivered
  exact ⟨d, hdelivered.1, hdelivered.2.1, hdelivered.2.2,
    TransitionSystem.reachable_of_run _ (by decide +kernel) hd⟩

variable [DurableMap σ]

-- Every process reads whole frames: what is buffered on a connection and on the way
-- is a sequence of them, no reader leaves the payload of one, and acceptors go on. In
-- other runs a client value may not fit the buffers.
theorem deployment_keeps_framing (cl : Layout ι κ) (hn : cl.acceptors ≤ 2 ^ 31) (T : Terms)
    (d : Deployment ι κ (Logged σ))
    (hr : (deployment (Logged σ) cl).Reachable (fun d e => e.Regular T cl d) d) :
    (∀ way, ∃ frames : List Frame, (∀ f ∈ frames, f.Sendable) ∧
      (d.pipes way).input ++ (d.pipes way).inFlight = frames.flatMap Frame.bytes) ∧
    (∀ a, ∃ state, (d.acceptors a).state = .ok state) ∧
    (∀ p fault, d.proposers p = .error fault → ∃ f, fault = .fault f) ∧
    ∀ l fault, (d.learners l).state = .error fault → ∃ f, fault = .fault f := by
  obtain ⟨s, _, htracks⟩ := (deployment_simulates cl hn T).reachable hr
  refine ⟨fun way => ?_, fun a => ?_, fun p fault hp => ?_, fun l fault hl => ?_⟩
  · obtain ⟨frames, hall, hbytes⟩ := htracks.pipe way
    exact ⟨frames, fun f hf => (hall f hf).1, hbytes⟩
  · obtain ⟨state, hstate, _⟩ := (htracks.acceptor a).state
    exact ⟨state, hstate⟩
  · have hproc := htracks.proposer p
    rw [hp] at hproc
    cases hproc with
    | dead _ f _ => exact ⟨f, rfl⟩
  · have hstate := (htracks.learner l).state
    rw [hl] at hstate
    cases hs : (s.learners l).state with
    | error f =>
        rw [hs] at hstate
        exact ⟨f, Except.error.inj hstate⟩
    | ok state =>
        rw [hs] at hstate
        cases hstate

theorem deployment_keeps_framing_run :
    ∃ d : Deployment (Fin 1) (Fin 2) (Logged BdbStorage),
      (d.learners 0).delivered = [⟨0, 1, 10, 10, false, [7]⟩] ∧
      ∀ a, ∃ state, (d.acceptors a).state = .ok state := by
  obtain ⟨d, hdelivered, _, _, hr⟩ := valueToLearners_run
  exact ⟨d, hdelivered, (deployment_keeps_framing smallLayout (by decide) oneByte d hr).2.1⟩

theorem Tracks.agree {cl : Layout ι κ} {T : Terms} {d : Deployment ι κ (Logged σ)}
    {s : System ι κ σ} (h : Tracks T cl d s) (hT : T.repeatsAccepted)
    (hs : (paxos σ cl.toCluster).Reachable (Event.Matching T) s) :
    (∀ l, ∀ ack ∈ (d.learners l).delivered, T.values ack.value) ∧
      ∀ l l', ∀ ack ∈ (d.learners l).delivered, ∀ ack' ∈ (d.learners l').delivered,
        ack.iid = ack'.iid → ack.value = ack'.value := by
  constructor
  · intro l ack hm
    rw [(h.learner l).delivered] at hm
    exact delivered_value hT hs hm
  · intro l l' ack hm ack' hm' hiid
    rw [(h.learner _).delivered] at hm hm'
    exact delivered_agree hT hs hm hm' hiid

end LibPaxos
