import LibPaxos.Quorum.Tracking

namespace LibPaxos

-- A flag as the test of `quorum_add` reads it.
def Quorum.flagged (q : Quorum) (a : Nat) : Bool := q.acceptorIds.getD a 0 ≠ 0

-- The clearing loop reaches the flags of the first acceptors, as many as a majority.
-- Of these every flag that is set is counted.
def Quorum.CountsFirst (q : Quorum) : Prop :=
  ((Finset.range q.quorum).filter fun a => q.flagged a = true).card ≤ q.count

theorem flagged_clear (q : Quorum) {a : Nat} (ha : a < q.quorum) :
    (quorumClear q).flagged a = false := by
  rw [Quorum.flagged, List.getD_eq_getElem?_getD, quorumClear_flag, if_pos ha]
  cases q.acceptorIds[a]? <;> simp

theorem Quorum.countsFirst_clear (q : Quorum) : (quorumClear q).CountsFirst := by
  have hnone : (Finset.range q.quorum).filter (fun a => (quorumClear q).flagged a = true) = ∅ := by
    refine Finset.filter_eq_empty_iff.mpr fun a ha => ?_
    rw [flagged_clear q (Finset.mem_range.mp ha)]
    simp
  rw [Quorum.CountsFirst, quorumClear_quorum, hnone]
  exact Nat.zero_le _

theorem flagged_add {q q' : Quorum} {id : Nat} (h : quorumAdd q id = .ok (q', true)) (a : Nat) :
    q'.flagged a = (decide (a = id) || q.flagged a) := by
  obtain ⟨hzero, rfl⟩ := quorumAdd_true h
  have hlt : id < q.acceptorIds.length := (List.getElem?_eq_some_iff.mp hzero).1
  by_cases ha : a = id
  · subst ha
    simp [Quorum.flagged, hlt]
  · simp [Quorum.flagged, ha, Ne.symm ha]

-- An acceptor is not counted when its flag is set.
theorem flagged_of_not_added {q q' : Quorum} {id : Nat} (h : quorumAdd q id = .ok (q', false)) :
    q.flagged id = true := by
  unfold quorumAdd at h
  split at h
  · cases h
  · rename_i flag hflag
    split_ifs at h with hzero
    · cases h
    · simp [Quorum.flagged, hflag, hzero]

theorem Quorum.CountsFirst.add {q q' : Quorum} (hc : q.CountsFirst) {id : Nat}
    (h : quorumAdd q id = .ok (q', true)) : q'.CountsFirst := by
  have hsub : (Finset.range q'.quorum).filter (fun a => q'.flagged a = true) ⊆
      insert id ((Finset.range q.quorum).filter fun a => q.flagged a = true) := by
    intro a ha
    rw [Finset.mem_filter, flagged_add h] at ha
    obtain ⟨_, rfl⟩ := quorumAdd_true h
    rw [Finset.mem_insert, Finset.mem_filter]
    by_cases he : a = id
    · exact .inl he
    · exact .inr (by simpa [he] using ha)
  calc ((Finset.range q'.quorum).filter fun a => q'.flagged a = true).card
      ≤ ((Finset.range q.quorum).filter fun a => q.flagged a = true).card + 1 :=
        (Finset.card_le_card hsub).trans (Finset.card_insert_le _ _)
    _ ≤ q.count + 1 := Nat.add_le_add_right hc 1
    _ = q'.count := by
        obtain ⟨_, rfl⟩ := quorumAdd_true h
        rfl

-- The answers of the first majority are always enough.
theorem Quorum.CountsFirst.reached {q : Quorum} (hc : q.CountsFirst)
    (h : ∀ a < q.quorum, q.flagged a = true) : quorumReached q = true := by
  have hall : (Finset.range q.quorum).filter (fun a => q.flagged a = true) =
      Finset.range q.quorum :=
    Finset.filter_true_of_mem fun a ha => h a (Finset.mem_range.mp ha)
  rw [Quorum.CountsFirst, hall, Finset.card_range] at hc
  exact decide_eq_true hc

end LibPaxos
