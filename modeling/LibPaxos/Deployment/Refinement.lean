import LibPaxos.Deployment.Learners
import LibPaxos.Deployment.Proposers

namespace LibPaxos

open Wire MapStorage

variable {ι κ σ : Type} [DecidableEq ι] [DecidableEq κ] [DurableMap σ] {cl : Layout ι κ}
  {d d' : Deployment ι κ (Logged σ)} {s : System ι κ σ} {T : Terms}

omit [DecidableEq ι] [DecidableEq κ] in
-- The processes start in the same states, with nothing on the way.
theorem Tracks.start (T : Terms) (cl : Layout ι κ) :
    Tracks T cl (Deployment.start cl : Deployment ι κ (Logged σ))
      (System.start cl.toCluster) := by
  refine ⟨fun p => .live (ProposerProc.start (cl.id p) cl.acceptors) rfl,
    fun a => ⟨⟨_, rfl, ?_⟩, [], .new (by decide)⟩, fun l => ⟨rfl, rfl, fun state hl => .new hl⟩,
    fun way => .empty _⟩
  exact ⟨(MapStorage.open_eq (σ := σ) a).1, rfl, rfl, rfl⟩

theorem Tracks.setBevs (h : Tracks T cl d s) {a : Nat}
    {bevs : Carray (Connection ι κ)} (list : List (Connection ι κ))
    (hbevs : bevs.Deque (list.map some)) (c : Connection ι κ) (status : Status) :
    Tracks T cl ((d.setBevs a bevs).setStatus c status) s := by
  refine ⟨h.proposer, fun b => ?_, h.learner, h.pipe⟩
  dsimp only [Deployment.setBevs, Deployment.setStatus]
  by_cases hb : b = a
  · subst hb
    rw [Function.update_self]
    exact ⟨(h.acceptor b).state, list, hbevs⟩
  · rw [Function.update_of_ne hb]
    exact h.acceptor b

-- Connections come and go: neither call of carray.c fails.
theorem Tracks.onAccept (h : Tracks T cl d s) {c : Connection ι κ}
    (hstep : d.onAccept cl c = some d') : Tracks T cl d' s := by
  unfold Deployment.onAccept at hstep
  split_ifs at hstep
  obtain ⟨list, hlist⟩ := (h.acceptor c.acceptor).bevs
  obtain ⟨bevs, hpush, hbevs⟩ := hlist.pushBack (some c)
  rw [carrayPushBack, hpush] at hstep
  cases hstep
  exact h.setBevs (list ++ [c]) (by simpa using hbevs) c _

theorem Tracks.onError (h : Tracks T cl d s) {c : Connection ι κ} {eof : Bool}
    (hstep : d.onError c eof = some d') : Tracks T cl d' s := by
  unfold Deployment.onError at hstep
  split_ifs at hstep
  · obtain ⟨list, hlist⟩ := (h.acceptor c.acceptor).bevs
    obtain ⟨bevs, hreject, hbevs⟩ := hlist.map matchBufferevent c 0
    rw [carrayReject, hreject] at hstep
    cases hstep
    rw [filter_matchBufferevent] at hbevs
    exact h.setBevs _ hbevs c _
  · cases hstep
    exact ⟨h.proposer, h.acceptor, h.learner, h.pipe⟩

-- One event of a deployment is a run of the system.
theorem Tracks.step (h : Tracks T cl d s)
    (hr : (paxos σ cl.toCluster).Reachable (Event.Matching T) s) (hn : cl.acceptors ≤ 2 ^ 31)
    {e : DeploymentEvent ι κ} (hg : e.Regular T cl d)
    (hstep : (deployment (Logged σ) cl).step d e = some d') :
    ∃ s', (paxos σ cl.toCluster).Reaches (Event.Matching T) s s' ∧
      Tracks T cl d' s' := by
  cases e with
  | arrive way size =>
      cases hstep
      exact ⟨s, .refl s, h.setPipes (Deployment.carries_update h.pipe ((h.pipe way).arrive size))⟩
  | onAccept c => exact ⟨s, .refl s, h.onAccept hstep⟩
  | onError c eof => exact ⟨s, .refl s, h.onError hstep⟩
  | onSocketEvent peer a =>
      cases hstep
      exact ⟨s, .refl s, h.proposer, h.acceptor, h.learner, h.pipe⟩
  | readRequest c pad => exact h.readRequest hr hn hg.2 hstep
  | readReply peer a now junk =>
      cases peer with
      | proposer p =>
          have hway : (Way.down (d.peersGetBuffer (.proposer p) a)).ReadBy p := rfl
          exact h.readProposer hr hway hg.1.1 hstep
      | learner l => exact h.readLearner hr rfl hstep
  | submit p number value =>
      cases hstep
      have hshort := T.short value hg.1.2
      have hlen : value.length < 2 ^ 31 := by
        have hmax : MAX_CLIENT_VALUE < 2 ^ 31 := by decide
        omega
      exact ⟨s, .refl s, h.write ⟨T.ne_nil value hg.1.2, hlen⟩ (.submit p number value hg.1.2)⟩
  | readSubmit p number now junk =>
      have hway : (Way.client p number : Way ι κ).ReadBy p := rfl
      exact h.readProposer hr hway hg.1.1 hstep
  | checkTimeouts p now => exact h.checkTimeouts hr hstep
  | checkHoles l => exact h.checkHoles hr hstep
  | crash a => exact ⟨s, .refl s, h.crash hstep⟩
  | crashAfterCommit c => exact h.crashAfterCommit hr hstep

theorem deployment_simulates (cl : Layout ι κ) (hn : cl.acceptors ≤ 2 ^ 31) (T : Terms) :
    (deployment (Logged σ) cl).Simulates (fun d e => e.Regular T cl d) (paxos σ cl.toCluster)
      (Event.Matching T) (Tracks T cl) :=
  ⟨.start _ cl, fun _ _ _ _ hr h hg hstep => h.step hr hn hg hstep⟩

end LibPaxos
