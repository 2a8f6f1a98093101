import LibPaxos.Proposer.Bookkeeping

namespace LibPaxos

def Instance.holds (value : Value) (inst : Instance) : Bool := inst.value = some value

-- How many copies of a value a proposer has queued, pending or finished.
def ProposerProc.copies (pr : ProposerProc) (value : Value) : Nat :=
  pr.state.values.count value + pr.state.prepareInstances.countP (Instance.holds value) +
    pr.state.acceptInstances.countP (Instance.holds value) +
      pr.finished.countP (Instance.holds value)

-- No copy of a submitted value is lost. Copies that come back in promises only
-- add to what is there.
def Conserved (pr : ProposerProc) : Prop :=
  ∀ value, pr.submitted.count value ≤ pr.copies value

theorem Conserved.start (id n : Nat) : Conserved (ProposerProc.start id n) := by
  intro value
  simp [ProposerProc.start]

-- An instance is replaced by one with the same value.
theorem countP_holds_split (value : Value) {c pre post : List Instance} {inst new : Instance}
    (hsplit : c = pre ++ inst :: post) (hv : new.value = inst.value) :
    (pre ++ new :: post).countP (Instance.holds value) = c.countP (Instance.holds value) := by
  have hholds : new.holds value = inst.holds value := by simp [Instance.holds, hv]
  rw [hsplit, List.countP_append, List.countP_append, List.countP_cons, List.countP_cons, hholds]

-- A promise that replaces the value of an instance puts the old one on the queue.
theorem count_promiseValue (value : Value) (values : List Value) (inst : Instance)
    (ack : PrepareAck) :
    values.count value + [inst].countP (Instance.holds value) ≤
      (promiseValue values inst ack).1.count value +
        [(promiseValue values inst ack).2].countP (Instance.holds value) := by
  rcases promiseValue_cases values inst ack with ⟨he, _⟩ | ⟨he, _, hnone⟩ | ⟨old, he, _, hold, _⟩
  · rw [he]
  · rw [he]
    have hno : [inst].countP (Instance.holds value) = 0 := by simp [Instance.holds, hnone]
    dsimp only
    omega
  · rw [he, List.count_append]
    have hone : [inst].countP (Instance.holds value) = [old].count value := by
      simp [Instance.holds, hold, List.countP_cons, List.count_singleton]
    omega

-- An instance without a value takes the front of the queue.
theorem count_taken (value : Value) {values values' : List Value} {inst : Instance} {v : Value}
    (hvalue : (inst.value = some v ∧ values' = values) ∨
      (inst.value = none ∧ values = v :: values')) (quorum : Quorum) :
    values.count value + [inst].countP (Instance.holds value) = values'.count value +
      [{ inst with value := some v, quorum := quorum }].countP (Instance.holds value) := by
  have hv : [{ inst with value := some v, quorum := quorum }].countP (Instance.holds value) =
      [v].count value := by
    simp [Instance.holds, List.countP_cons, List.count_singleton]
  rcases hvalue with ⟨hsome, rfl⟩ | ⟨hnone, rfl⟩
  · simp [Instance.holds, hsome, List.countP_cons]
  · have hno : [inst].countP (Instance.holds value) = 0 := by simp [Instance.holds, hnone]
    rw [hno, hv, ← List.singleton_append, List.count_append]
    omega

-- The removed instance is the one that the list no longer counts.
theorem countP_holds_remove (value : Value) {c pre post : List Instance} {inst : Instance}
    (hnodup : (c.map Instance.iid).Nodup) (hsplit : c = pre ++ inst :: post) (new : Instance)
    (hiid : new.iid = inst.iid) (hv : new.value = inst.value) :
    c.countP (Instance.holds value) = (instanceRemove c new).countP (Instance.holds value) +
      [new].countP (Instance.holds value) := by
  subst hsplit
  rw [← countP_holds_split value rfl hv, instanceRemove_split new hnodup hiid]
  simp only [List.countP_append, List.countP_cons, List.countP_nil]
  omega

theorem Conserved.move {id n : Nat} {pr : ProposerProc} (hb : Booked id n pr) (h : Conserved pr)
    {c : ProposerCall} {p : Proposer} {out : ProposerOutput} (hm : Move pr.state c p out) :
    Conserved (pr.after c p out) := by
  intro value
  have hv := h value
  have hnodup := hb.nodup_accept
  unfold ProposerProc.after
  unfold ProposerProc.copies at hv ⊢
  cases hm with
  | idle hs _ => simpa [hs, ProposerOutput.finishes] using hv
  | propose v =>
      simp only [ProposerCall.submits, ProposerOutput.finishes, List.append_nil, List.count_append]
      omega
  | prepare junk now =>
      simp only [ProposerCall.submits, ProposerOutput.finishes, List.append_nil,
        List.countP_append]
      omega
  | promise ack now pre post inst quorum hsplit hfind hiid hballot hadd =>
      have hcount := count_promiseValue value pr.state.values { inst with quorum := quorum } ack
      have hkeep : (pre ++ { inst with quorum := quorum } :: post).countP (Instance.holds value) =
          pr.state.prepareInstances.countP (Instance.holds value) :=
        countP_holds_split value hsplit rfl
      rw [← hkeep] at hv
      simp only [ProposerCall.submits, ProposerOutput.finishes, List.append_nil]
      simp only [List.countP_append, List.countP_cons, List.countP_nil] at hcount hv ⊢
      omega
  | preempt ack now pre post inst hsplit hfind hlt =>
      simp only [ProposerCall.submits, ProposerOutput.finishes, List.append_nil]
      rw [countP_holds_split value hsplit]
      exacts [hv, rfl]
  | accept inst rest v values hfront hreached hvalue =>
      simp only [ProposerCall.submits, ProposerOutput.finishes, List.append_nil]
      have hcount := count_taken value hvalue (quorumClear inst.quorum)
      rw [hfront] at hv
      simp only [List.countP_append, List.countP_cons, List.countP_nil] at hcount hv ⊢
      omega
  | ackCounted ack now pre post inst quorum hsplit hiid hballot hvb hadd hopen =>
      simp only [ProposerCall.submits, ProposerOutput.finishes, List.append_nil]
      rw [countP_holds_split value hsplit]
      exacts [hv, rfl]
  | ackClosed ack now pre post inst quorum hsplit hiid hballot hvb hadd hreached =>
      rw [countP_holds_remove value hnodup hsplit { inst with quorum := quorum } rfl rfl] at hv
      simp only [ProposerCall.submits, ProposerOutput.finishes, List.append_nil,
        List.countP_append]
      omega
  | ackPreempted ack now pre post inst hsplit hfind hne =>
      rw [countP_holds_remove value hnodup hsplit inst rfl rfl] at hv
      have hsame : [(preparePreempt pr.state inst now).1].countP (Instance.holds value) =
          [inst].countP (Instance.holds value) := rfl
      simp only [ProposerCall.submits, ProposerOutput.finishes, List.append_nil]
      rw [← List.singleton_append, List.countP_append, hsame]
      omega
  | timeoutPrepare iter pre post inst hsplit =>
      simp only [ProposerCall.submits, ProposerOutput.finishes, List.append_nil]
      rw [countP_holds_split value hsplit]
      exacts [hv, rfl]
  | timeoutAccept iter pre post inst v hsplit hvalue =>
      simp only [ProposerCall.submits, ProposerOutput.finishes, List.append_nil]
      rw [countP_holds_split value hsplit]
      exacts [hv, rfl]

def instanceValues (c : List Instance) : List Value := c.filterMap Instance.value

-- The same, counted as multisets.
theorem Conserved.submitted_le {pr : ProposerProc} (h : Conserved pr) :
    (pr.submitted : Multiset Value) ≤ pr.state.values + instanceValues pr.state.prepareInstances +
      instanceValues pr.state.acceptInstances + instanceValues pr.finished := by
  rw [Multiset.le_iff_count]
  intro value
  have hcount (c : List Instance) :
      (instanceValues c).count value = c.countP (Instance.holds value) := by
    simp only [instanceValues, List.count_filterMap]
    apply List.countP_congr
    intro inst _
    simp [Instance.holds]
  -- `Multiset.count` decides equality by another instance than `List.count`.
  have hcoe (l : List Value) : (l : Multiset Value).count value = l.count value := by
    rw [Multiset.coe_count]
    apply List.countP_congr
    intro v _
    simp
  have hv := h value
  unfold ProposerProc.copies at hv
  simpa only [Multiset.count_add, hcoe, hcount] using hv

end LibPaxos
