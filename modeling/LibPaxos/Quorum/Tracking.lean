import LibPaxos.Quorum
import LibPaxos.Transition

namespace LibPaxos

inductive QuorumCall where
  | clear
  | add (id : Nat)
  deriving Repr, DecidableEq

-- A quorum with the ids added since the last clear, and the ids ever added.
structure QuorumTrace where
  quorum : Quorum
  added : Finset Nat
  ever : Finset Nat

def QuorumTrace.start (n : Nat) (junk : Nat → Int) : QuorumTrace where
  quorum := quorumInit n junk
  added := ∅
  ever := ∅

def QuorumTrace.call (t : QuorumTrace) : QuorumCall → Option QuorumTrace
  | .clear => some { t with quorum := quorumClear t.quorum, added := ∅ }
  | .add id =>
      match quorumAdd t.quorum id with
      | .error _ => none
      | .ok (q, _) => some ⟨q, insert id t.added, insert id t.ever⟩

def quorumSystem (n : Nat) (junk : Nat → Int) : TransitionSystem QuorumTrace QuorumCall where
  init := QuorumTrace.start n junk
  step := QuorumTrace.call

structure QuorumTrace.Exact (n : Nat) (t : QuorumTrace) : Prop where
  count : t.quorum.count = t.added.card
  reached : quorumReached t.quorum = true ↔ n / 2 + 1 ≤ t.added.card

-- The call returns, the count is exact after it, and a `quorum_add` has told new
-- ids from ids added since the last clear.
structure QuorumCall.Tracked (n : Nat) (t : QuorumTrace) (c : QuorumCall) : Prop where
  after : ∃ t', t.call c = some t' ∧ t'.Exact n
  returns : ∀ id q new, c = .add id → quorumAdd t.quorum id = .ok (q, new) →
    (new = true ↔ id ∉ t.added)

-- An id that the clearing loop does not reach is added for the first time, to
-- memory that held zero.
def QuorumCall.Fresh (n : Nat) (junk : Nat → Int) (t : QuorumTrace) : QuorumCall → Prop
  | .clear => True
  | .add id => id < n / 2 + 1 ∨ id ∈ t.added ∨ (junk id = 0 ∧ id ∉ t.ever)

instance QuorumCall.Fresh.decidable (n : Nat) (junk : Nat → Int) (t : QuorumTrace) :
    (c : QuorumCall) → Decidable (c.Fresh n junk t)
  | .clear => isTrue trivial
  | .add _ => inferInstanceAs (Decidable (_ ∨ _))

theorem quorumClear_flag (q : Quorum) (id : Nat) :
    (quorumClear q).acceptorIds[id]? =
      if id < q.quorum then q.acceptorIds[id]?.map fun _ => 0 else q.acceptorIds[id]? := by
  have hfold (m : Nat) (ids : List Int) :
      ((List.range m).foldl (fun ids i => ids.set i 0) ids)[id]? =
        if id < m then ids[id]?.map fun _ => 0 else ids[id]? := by
    induction m with
    | zero => simp
    | succ m ih =>
        rw [List.range_succ, List.foldl_append, List.foldl_cons, List.foldl_nil,
          List.getElem?_set', ih]
        by_cases hm : m = id
        · subst hm
          rw [if_pos rfl, if_neg (Nat.lt_irrefl _), if_pos (Nat.lt_succ_self _)]
          rfl
        · by_cases hlt : id < m
          · rw [if_neg hm, if_pos hlt, if_pos (by omega)]
          · rw [if_neg hm, if_neg hlt, if_neg (by omega)]
  exact hfold q.quorum q.acceptorIds

-- Which flags are set. Those the clearing loop does not reach stay set, and start
-- as the memory was.
structure QuorumTrace.Flagged (n : Nat) (junk : Nat → Int) (t : QuorumTrace) : Prop where
  sized : t.quorum.Sized n
  sub : t.added ⊆ t.ever
  flag : ∀ id < n, ∃ flag, t.quorum.acceptorIds[id]? = some flag ∧
    (flag ≠ 0 ↔ id ∈ t.added ∨ n / 2 + 1 ≤ id ∧ (junk id ≠ 0 ∨ id ∈ t.ever))

theorem QuorumTrace.Flagged.start (n : Nat) (junk : Nat → Int) :
    (QuorumTrace.start n junk).Flagged n junk := by
  refine ⟨quorumInit_sized n junk, Finset.Subset.refl _, fun id hid => ?_⟩
  have hclear : (quorumInit n junk).acceptorIds[id]? =
      if id < n / 2 + 1 then some 0 else some (junk id) := by
    unfold quorumInit
    rw [quorumClear_flag]
    simp [paxosQuorum, hid]
  refine ⟨if id < n / 2 + 1 then 0 else junk id, ?_, ?_⟩
  · change (quorumInit n junk).acceptorIds[id]? = _
    rw [hclear]
    exact (apply_ite some _ _ _).symm
  · change _ ↔ id ∈ (∅ : Finset Nat) ∨ n / 2 + 1 ≤ id ∧ (junk id ≠ 0 ∨ id ∈ (∅ : Finset Nat))
    by_cases hlow : id < n / 2 + 1
    · simp only [hlow, if_true, Finset.notMem_empty, false_or, or_false]
      omega
    · have hle : n / 2 + 1 ≤ id := by omega
      simp [hlow, hle]

theorem QuorumTrace.Flagged.clear {n : Nat} {junk : Nat → Int} {t : QuorumTrace}
    (h : t.Flagged n junk) :
    QuorumTrace.Flagged n junk { t with quorum := quorumClear t.quorum, added := ∅ } := by
  refine ⟨quorumClear_sized h.sized, Finset.empty_subset _, fun id hid => ?_⟩
  obtain ⟨flag, hflag, hset⟩ := h.flag id hid
  have hclear := quorumClear_flag t.quorum id
  rw [h.sized.1, hflag, paxosQuorum] at hclear
  refine ⟨if id < n / 2 + 1 then 0 else flag, ?_, ?_⟩
  · rw [hclear]
    by_cases hlow : id < n / 2 + 1
    · rw [if_pos hlow, if_pos hlow, Option.map_some]
    · rw [if_neg hlow, if_neg hlow]
  · by_cases hlow : id < n / 2 + 1
    · simp only [hlow, if_true, Finset.notMem_empty, false_or]
      omega
    · have hle : n / 2 + 1 ≤ id := by omega
      have hever : id ∈ t.added → id ∈ t.ever := fun hm => h.sub hm
      simp only [hlow, if_false, hset, hle, true_and, Finset.notMem_empty, false_or]
      tauto

-- A `quorum_add` in range: what it returns is whether the flag was clear.
theorem QuorumTrace.Flagged.add {n : Nat} {junk : Nat → Int} {t : QuorumTrace}
    (h : t.Flagged n junk) {id : Nat} (hid : id < n) :
    ∃ q new, quorumAdd t.quorum id = .ok (q, new) ∧
      q.count = t.quorum.count + (if new then 1 else 0) ∧
      (new = true ↔ ¬(id ∈ t.added ∨ n / 2 + 1 ≤ id ∧ (junk id ≠ 0 ∨ id ∈ t.ever))) ∧
      QuorumTrace.Flagged n junk ⟨q, insert id t.added, insert id t.ever⟩ := by
  obtain ⟨flag, hflag, hset⟩ := h.flag id hid
  have hsub : insert id t.added ⊆ insert id t.ever := Finset.insert_subset_insert id h.sub
  -- After the call the flag of `id` is set and the others are as before.
  have hnext (q : Quorum) (hself : ∃ flag, q.acceptorIds[id]? = some flag ∧ flag ≠ 0)
      (hother : ∀ k, k ≠ id → q.acceptorIds[k]? = t.quorum.acceptorIds[k]?) (k : Nat)
      (hk : k < n) : ∃ flag, q.acceptorIds[k]? = some flag ∧ (flag ≠ 0 ↔ k ∈ insert id t.added ∨
        n / 2 + 1 ≤ k ∧ (junk k ≠ 0 ∨ k ∈ insert id t.ever)) := by
    by_cases hke : k = id
    · subst hke
      obtain ⟨new, hnew, hne⟩ := hself
      exact ⟨new, hnew, by simp [hne]⟩
    · obtain ⟨old, hold, hiff⟩ := h.flag k hk
      refine ⟨old, by rw [hother k hke, hold], ?_⟩
      rw [hiff, Finset.mem_insert, Finset.mem_insert]
      simp only [hke, false_or]
  by_cases hzero : flag = 0
  · have hadd : quorumAdd t.quorum id = .ok ({ t.quorum with
        count := t.quorum.count + 1, acceptorIds := t.quorum.acceptorIds.set id 1 }, true) := by
      simp [quorumAdd, hflag, hzero]
    have hlt : id < t.quorum.acceptorIds.length := (List.getElem?_eq_some_iff.mp hflag).1
    refine ⟨_, true, hadd, rfl, ?_, quorumAdd_sized h.sized hadd, hsub, hnext _ ?_ ?_⟩
    · rw [← hset]
      simp [hzero]
    · exact ⟨1, by simp [hlt], by decide⟩
    · intro k hk
      simp [Ne.symm hk]
  · have hadd : quorumAdd t.quorum id = .ok (t.quorum, false) := by
      simp [quorumAdd, hflag, hzero]
    refine ⟨_, false, hadd, rfl, ?_, h.sized, hsub, hnext _ ⟨flag, hflag, hzero⟩ fun _ _ => rfl⟩
    rw [← hset]
    simp [hzero]

theorem QuorumTrace.Flagged.exact {n : Nat} {junk : Nat → Int} {t : QuorumTrace}
    (h : t.Flagged n junk) (hcount : t.quorum.count = t.added.card) : t.Exact n := by
  refine ⟨hcount, ?_⟩
  rw [quorumReached, h.sized.1, hcount, decide_eq_true_eq, paxosQuorum]

-- A call is tracked exactly when no left-over flag is in its way.
theorem QuorumTrace.Flagged.tracked_iff {n : Nat} {junk : Nat → Int} {t : QuorumTrace}
    (h : t.Flagged n junk) (hcount : t.quorum.count = t.added.card) (c : QuorumCall)
    (hid : ∀ id, c = .add id → id < n) : c.Tracked n t ↔ c.Fresh n junk t := by
  cases c with
  | clear =>
      refine ⟨fun _ => trivial, fun _ => ⟨⟨_, rfl, h.clear.exact rfl⟩, fun id q new hc => ?_⟩⟩
      cases hc
  | add id =>
      obtain ⟨q, new, hadd, hq, hnew, hnext⟩ := h.add (hid id rfl)
      have hcall : t.call (.add id) = some ⟨q, insert id t.added, insert id t.ever⟩ := by
        simp [QuorumTrace.call, hadd]
      constructor
      · intro htracked
        have hret := htracked.returns id q new rfl hadd
        by_cases hm : id ∈ t.added
        · exact .inr (.inl hm)
        · by_contra hstale
          have htrue := hret.mpr hm
          rw [hnew] at htrue
          simp only [QuorumCall.Fresh] at hstale
          have hle : n / 2 + 1 ≤ id := by omega
          tauto
      · intro hfresh
        have hnew' : new = true ↔ id ∉ t.added := by
          rw [hnew]
          simp only [QuorumCall.Fresh] at hfresh
          constructor
          · intro hno hm
            exact hno (.inl hm)
          · rintro hm (hin | ⟨hle, hleft⟩)
            · exact hm hin
            · have hlow : ¬id < n / 2 + 1 := by omega
              tauto
        refine ⟨⟨_, hcall, hnext.exact ?_⟩, fun id' q' new' hc hadd' => ?_⟩
        · change q.count = (insert id t.added).card
          rw [hq, hcount]
          by_cases hm : id ∈ t.added
          · rw [Finset.insert_eq_of_mem hm, if_neg (fun htrue => hnew'.mp htrue hm)]
            rfl
          · rw [Finset.card_insert_of_notMem hm, if_pos (hnew'.mpr hm)]
        · cases hc
          rw [hadd, Except.ok.injEq, Prod.mk.injEq] at hadd'
          exact hadd'.2 ▸ hnew'

-- The trackers of every number of acceptors, from any contents of the memory, over
-- any calls with ids in range.
theorem quorum_tracking_exact (n : Nat) (junk : Nat → Int) (calls : List QuorumCall)
    (hids : ∀ id, .add id ∈ calls → id < n) :
    (QuorumTrace.start n junk).Exact n ∧
      ((quorumSystem n junk).Meets (fun t c => c.Tracked n t) (QuorumTrace.start n junk) calls ↔
        (quorumSystem n junk).Meets (fun t c => c.Fresh n junk t) (QuorumTrace.start n junk)
          calls) := by
  have hstart := QuorumTrace.Flagged.start n junk
  refine ⟨hstart.exact rfl, ?_⟩
  apply TransitionSystem.Meets.iff_of_invariant
    (fun t => t.Flagged n junk ∧ t.quorum.count = t.added.card)
  · intro t ht c hc
    exact ht.1.tracked_iff ht.2 c fun id he => hids id (he ▸ hc)
  · intro t c t' ht hc hfresh hstep
    obtain ⟨t'', he, hexact⟩ :=
      ((ht.1.tracked_iff ht.2 c fun id he => hids id (he ▸ hc)).mpr hfresh).after
    obtain rfl : t'' = t' := Option.some.inj (he.symm.trans hstep)
    refine ⟨?_, hexact.count⟩
    cases c with
    | clear =>
        cases hstep
        exact ht.1.clear
    | add id =>
        obtain ⟨q, new, hadd, _, _, hnext⟩ := ht.1.add (hids id hc)
        simp only [quorumSystem, QuorumTrace.call, hadd, Option.some.injEq] at hstep
        exact hstep ▸ hnext
  · exact ⟨hstart, rfl⟩

-- With three acceptors the loop clears the flags of acceptors 0 and 1.
theorem quorum_tracking_exact_cleared :
    (quorumSystem 3 fun _ => 0).Meets (fun t c => c.Tracked 3 t) (QuorumTrace.start 3 fun _ => 0)
      [.add 0, .add 0, .add 2, .clear, .add 1, .add 0] := by
  apply (quorum_tracking_exact 3 (fun _ => 0) _ (by simp)).2.mpr
  decide

-- Acceptor 2 promises again after the clear, and is not counted.
theorem quorum_tracking_stale_flag :
    ¬(quorumSystem 3 fun _ => 0).Meets (fun t c => c.Tracked 3 t) (QuorumTrace.start 3 fun _ => 0)
      [.add 2, .clear, .add 2] := by
  intro h
  obtain ⟨_, h⟩ := h
  obtain ⟨_, h⟩ := h _ rfl
  obtain ⟨htracked, _⟩ := h _ rfl
  have hret := htracked.returns 2 _ false rfl rfl
  exact absurd (hret.mpr (by decide)) (by decide)

end LibPaxos
