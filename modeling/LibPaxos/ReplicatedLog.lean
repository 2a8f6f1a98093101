import LibPaxos.DecidedLog
import LibPaxos.Learner.Order
import LibPaxos.Simulation
import LibPaxos.System.Terms

namespace LibPaxos

variable {ι κ σ : Type} [MapStorage σ] [DecidableEq ι] [DecidableEq κ] {cl : Cluster ι κ}
  {T : Terms} {s s' : System ι κ σ}

-- A delivered value is one that a client submitted.
theorem delivered_value (hT : T.repeatsAccepted)
    (hr : (paxos σ cl).Reachable (Event.Matching T) s) {l : κ} {ack : AcceptAck}
    (hm : ack ∈ (s.learners l).delivered) : T.values ack.value := by
  have hreg := Regular.of_reachable hr fun _ _ h => h.1.1
  obtain ⟨hinf, hsrc⟩ := learner_invariants_of_repeats hr fun _ _ h => ⟨h.1.1, h.2 hT⟩
  have hproposed := hreg.proposed_of_accepted (hinf.delivered l ack hm).1.2
  exact submitted_values hr (hsrc.proposed _ _ _ hproposed)

-- Two learners deliver one value for an instance.
theorem delivered_agree (hT : T.repeatsAccepted)
    (hr : (paxos σ cl).Reachable (Event.Matching T) s) {l l' : κ} {ack ack' : AcceptAck}
    (hm : ack ∈ (s.learners l).delivered) (hm' : ack' ∈ (s.learners l').delivered)
    (hiid : ack.iid = ack'.iid) : ack.value = ack'.value := by
  have hreg := Regular.of_reachable hr fun _ _ h => h.1.1
  obtain ⟨hinf, _⟩ := learner_invariants_of_repeats hr fun _ _ h => ⟨h.1.1, h.2 hT⟩
  have hsafe := Safe.of_reachable hr fun _ _ h => ⟨h.1.1, h.1.2.nonEmpty⟩
  have hc := hreg.chosen_of_backed (hinf.delivered l ack hm)
  have hc' := hreg.chosen_of_backed (hinf.delivered l' ack' hm')
  rw [← hiid] at hc'
  exact hsafe.agree hreg hc hc'

-- The abstract log of a state: what some learner has delivered is decided.
structure Records (cl : Cluster ι κ) (s : System ι κ σ) (t : DecidedLog κ Value) : Prop where
  log : ∀ l, t.log l = (s.learners l).delivered.map AcceptAck.value
  order : ∀ l, (s.learners l).InOrder (cl.learnerConfig l) cl.acceptors (t.first l)
  decided : ∀ i value, t.decided i = some value ↔
    ∃ l, ∃ ack ∈ (s.learners l).delivered, ack.iid = i ∧ ack.value = value

omit [MapStorage σ] [DecidableEq ι] in
-- A learner that has delivered nothing may move its start.
theorem Records.enter {t : DecidedLog κ Value} (h : Records cl s t) {l : κ} {lp : LearnerProc}
    (hdelivered : lp.delivered = (s.learners l).delivered) {start : Nat}
    (hstart : (s.learners l).delivered = [] ∨ start = t.first l)
    (horder : lp.InOrder (cl.learnerConfig l) cl.acceptors start) :
    ∃ t', (decidedLog κ Value).Reaches (fun _ e => e.Decides T.values) t t' ∧
      Records cl { s with learners := Function.update s.learners l lp } t' := by
  have hsame (m : κ) :
      (Function.update s.learners l lp m).delivered = (s.learners m).delivered := by
    by_cases hm : m = l
    · subst hm
      rw [Function.update_self, hdelivered]
    · rw [Function.update_of_ne hm]
  have hlog (m : κ) :
      t.log m = (Function.update s.learners l lp m).delivered.map AcceptAck.value := by
    rw [hsame, h.log]
  have hdecided (i : Nat) (value : Value) : t.decided i = some value ↔
      ∃ m, ∃ ack ∈ (Function.update s.learners l lp m).delivered,
        ack.iid = i ∧ ack.value = value := by
    simp only [hsame, h.decided]
  rcases hstart with hnil | rfl
  · have hempty : t.log l = [] := by rw [h.log, hnil]; rfl
    refine ⟨{ t with first := Function.update t.first l start },
      .one (e := .enter l start) trivial ?_, hlog, fun m => ?_, hdecided⟩
    · simp only [decidedLog, DecidedLog.step, hempty]
    · dsimp only
      by_cases hm : m = l
      · subst hm
        rw [Function.update_self, Function.update_self]
        exact horder
      · rw [Function.update_of_ne hm, Function.update_of_ne hm]
        exact h.order m
  · refine ⟨t, .refl t, hlog, ?_, hdecided⟩
    exact (Function.forall_update_iff s.learners fun m (lp : LearnerProc) =>
      lp.InOrder (cl.learnerConfig m) cl.acceptors (t.first m)).mpr ⟨horder, fun m _ => h.order m⟩

omit [MapStorage σ] [DecidableEq ι] in
-- What has been delivered when one learner has delivered one ack more.
theorem exists_delivered_update {l : κ} {lp : LearnerProc} {ack : AcceptAck}
    (hdelivered : lp.delivered = (s.learners l).delivered ++ [ack]) (i : Nat) (value : Value) :
    (∃ m, ∃ other ∈ (Function.update s.learners l lp m).delivered,
        other.iid = i ∧ other.value = value) ↔
      (∃ m, ∃ other ∈ (s.learners m).delivered, other.iid = i ∧ other.value = value) ∨
        i = ack.iid ∧ value = ack.value := by
  constructor
  · rintro ⟨m, other, hm, hiid, hother⟩
    by_cases he : m = l
    · subst he
      rw [Function.update_self, hdelivered] at hm
      rcases List.mem_append.mp hm with hm | hm
      · exact .inl ⟨m, other, hm, hiid, hother⟩
      · cases List.mem_singleton.mp hm
        exact .inr ⟨hiid.symm, hother.symm⟩
    · rw [Function.update_of_ne he] at hm
      exact .inl ⟨m, other, hm, hiid, hother⟩
  · rintro (⟨m, other, hm, hiid, hother⟩ | ⟨rfl, rfl⟩)
    · refine ⟨m, other, ?_, hiid, hother⟩
      by_cases he : m = l
      · subst he
        rw [Function.update_self, hdelivered]
        exact List.mem_append_left _ hm
      · rwa [Function.update_of_ne he]
    · refine ⟨l, ack, ?_, rfl, rfl⟩
      rw [Function.update_self, hdelivered]
      exact List.mem_append_right _ (List.mem_singleton.mpr rfl)

omit [MapStorage σ] [DecidableEq ι] in
-- The next instance is decided when the first learner delivers it.
theorem Records.deliver {t : DecidedLog κ Value} (h : Records cl s t) {l : κ} {lp : LearnerProc}
    {ack : AcceptAck} (hdelivered : lp.delivered = (s.learners l).delivered ++ [ack])
    (horder : lp.InOrder (cl.learnerConfig l) cl.acceptors (t.first l))
    (hvalue : T.values ack.value)
    (hagree : ∀ m, ∀ other ∈ (s.learners m).delivered, other.iid = ack.iid →
      other.value = ack.value) :
    ∃ t', (decidedLog κ Value).Reaches (fun _ e => e.Decides T.values) t t' ∧
      Records cl { s with learners := Function.update s.learners l lp } t' := by
  have hnext : ack.iid = t.first l + (t.log l).length := by
    have hiids := horder.iids
    rw [hdelivered, List.map_append, List.length_append, List.length_singleton,
      List.range'_concat, Nat.one_mul] at hiids
    have hlast := (List.append_inj' hiids rfl).2
    rw [h.log, List.length_map]
    simpa using hlast
  obtain ⟨mid, hreach, hmid, hlog, hfirst⟩ := t.reaches_decide (i := ack.iid) hvalue
    fun value hd => by
      obtain ⟨m, other, hm, hiid, hother⟩ := (h.decided _ _).mp hd
      exact hother.symm.trans (hagree m other hm hiid)
  have hdecided : mid.decided (mid.first l + (mid.log l).length) = some ack.value := by
    rw [hfirst, hlog, ← hnext]
    exact (hmid _ _).mpr (.inr ⟨rfl, rfl⟩)
  refine ⟨{ mid with log := Function.update mid.log l (mid.log l ++ [ack.value]) },
    hreach.trans (.one (e := .deliver l) trivial
      (by simp only [decidedLog, DecidedLog.step, hdecided])), fun m => ?_, fun m => ?_,
    fun i value => ?_⟩
  · dsimp only
    by_cases hm : m = l
    · subst hm
      rw [Function.update_self, Function.update_self, hlog, h.log, hdelivered, List.map_append]
      rfl
    · rw [Function.update_of_ne hm, Function.update_of_ne hm, hlog, h.log]
  · dsimp only
    rw [hfirst]
    exact (Function.forall_update_iff s.learners fun m (lp : LearnerProc) =>
      lp.InOrder (cl.learnerConfig m) cl.acceptors (t.first m)).mpr
        ⟨horder, fun m _ => h.order m⟩ m
  · dsimp only
    rw [hmid, h.decided, exists_delivered_update hdelivered]

end LibPaxos
