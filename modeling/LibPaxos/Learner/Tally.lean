import LibPaxos.Learner.Delivery
import LibPaxos.Transition

namespace LibPaxos

def newer (ack : AcceptAck) : Option AcceptAck → Bool
  | none => true
  | some prev => prev.ballot < ack.ballot

-- What each acceptor's acks leave when only a strictly higher ballot replaces the
-- one that is kept.
def tally (log : List AcceptAck) : Nat → Option AcceptAck :=
  log.foldl (fun kept ack => if newer ack (kept ack.acceptorId) then
    Function.update kept ack.acceptorId (some ack) else kept) fun _ => none

-- The full test: enough of the kept acks share this ballot.
def QuorumAt (n : Nat) (log : List AcceptAck) (ballot : Nat) : Prop :=
  paxosQuorum n ≤ (List.range n).countP fun a => agrees ballot (tally log a)

def FullQuorum (n : Nat) (log : List AcceptAck) : Prop := ∃ ballot, QuorumAt n log ballot

-- An instance after the acks of `log`. It is closed once the full test has
-- succeeded, and then holds what the first success left.
structure LearnerInstance.Tallied (n : Nat) (log : List AcceptAck) (inst : LearnerInstance) :
    Prop where
  closed : inst.finalValue.isSome ↔ ∃ p, p <+: log ∧ FullQuorum n p
  stored : inst.finalValue = none → inst.acks = (List.range n).map (tally log)
  final : ∀ ack, inst.finalValue = some ack → ∃ p, p <+: log ∧ QuorumAt n p ack.ballot ∧
    (∀ q, q <+: p → q ≠ p → ¬FullQuorum n q) ∧
    inst.acks = (List.range n).map (tally p) ∧ some ack ∈ inst.acks

theorem tally_append (log : List AcceptAck) (ack : AcceptAck) :
    tally (log ++ [ack]) = if newer ack (tally log ack.acceptorId) then
      Function.update (tally log) ack.acceptorId (some ack) else tally log := by
  rw [tally, List.foldl_append]
  rfl

theorem tally_mem {log : List AcceptAck} {a : Nat} {ack : AcceptAck}
    (h : tally log a = some ack) : ack ∈ log := by
  induction log using List.reverseRecOn with
  | nil => cases h
  | append_singleton log last ih =>
      rw [tally_append] at h
      by_cases hn : newer last (tally log last.acceptorId) = true
      · rw [if_pos hn] at h
        by_cases ha : a = last.acceptorId
        · subst ha
          rw [Function.update_self, Option.some.injEq] at h
          simp [h]
        · rw [Function.update_of_ne ha] at h
          exact List.mem_append_left _ (ih h)
      · rw [if_neg hn] at h
        exact List.mem_append_left _ (ih h)

theorem quorumAt_iff {n : Nat} {log : List AcceptAck} {ballot : Nat} :
    QuorumAt n log ballot ↔
      paxosQuorum n ≤ ((List.range n).map (tally log)).countP (agrees ballot) := by
  rw [List.countP_map]
  rfl

theorem not_fullQuorum_nil (n : Nat) : ¬FullQuorum n [] := by
  rintro ⟨ballot, hq⟩
  have hzero : (List.range n).countP (fun a => agrees ballot (tally [] a)) = 0 := by
    simp [tally, agrees]
  unfold QuorumAt paxosQuorum at hq
  omega

-- Storing an ack raises the count of its own ballot only, so only that ballot can
-- reach the quorum.
theorem QuorumAt.of_append {n : Nat} {log : List AcceptAck} {ack : AcceptAck} {ballot : Nat}
    (h : QuorumAt n (log ++ [ack]) ballot) (hne : ballot ≠ ack.ballot) : QuorumAt n log ballot := by
  refine Nat.le_trans h (List.countP_mono_left fun a _ ha => ?_)
  rw [tally_append] at ha
  split_ifs at ha with hn
  · by_cases he : a = ack.acceptorId
    · subst he
      rw [Function.update_self] at ha
      exact absurd (by simpa [agrees, eq_comm] using ha) hne
    · rwa [Function.update_of_ne he] at ha
  · exact ha

-- Without acks marked final the loop of `instance_has_quorum` counts one ballot.
theorem instanceHasQuorum_open {n : Nat} {l : Learner} (hl : l.Sized n) {inst : LearnerInstance}
    {log : List AcceptAck} (hnone : inst.finalValue = none)
    (hacks : inst.acks = (List.range n).map (tally log))
    (hlog : ∀ ack ∈ log, ack.isFinal = false) :
    (instanceHasQuorum l inst = (inst, false) ∧ ¬QuorumAt n log inst.lastUpdateBallot) ∨
      ∃ ack, instanceHasQuorum l inst = ({ inst with finalValue := some ack }, true) ∧
        QuorumAt n log inst.lastUpdateBallot ∧ ack.ballot = inst.lastUpdateBallot ∧
        some ack ∈ inst.acks := by
  have hkept {ack : AcceptAck} (hm : some ack ∈ inst.acks) : ack.isFinal = false := by
    rw [hacks] at hm
    obtain ⟨a, _, ha⟩ := List.mem_map.mp hm
    exact hlog ack (tally_mem ha)
  rw [quorumAt_iff, ← hacks]
  unfold instanceHasQuorum
  rw [if_neg (by simp [hnone])]
  dsimp only
  rcases countAgreeing_eq l.acceptors inst.lastUpdateBallot inst.acks 0 none with
    ⟨ack, _, hm, hf⟩ | ⟨hcount, hvalid⟩
  · rw [hkept hm] at hf
    cases hf
  · rw [Nat.zero_add] at hcount
    by_cases hq : paxosQuorum n ≤ inst.acks.countP (agrees inst.lastUpdateBallot)
    · right
      rcases hvalid with ⟨hzero, _⟩ | ⟨ack, he, hm, hb⟩
      · unfold paxosQuorum at hq
        omega
      · refine ⟨ack, ?_, hq, hb, hm⟩
        rw [if_pos (by rw [hcount, hl.quorum]; exact hq), he]
    · left
      refine ⟨?_, hq⟩
      rw [if_neg (by rw [hcount, hl.quorum]; exact hq)]

theorem map_range_update {α : Type} (f : Nat → α) (a : Nat) (x : α) (n : Nat) :
    ((List.range n).map f).set a x = (List.range n).map (Function.update f a x) := by
  apply List.ext_getElem (by simp)
  intro k hk hk'
  simp only [List.getElem_set, List.getElem_map, List.getElem_range, Function.update_apply]
  by_cases he : a = k
  · simp [he]
  · simp [he, Ne.symm he]

-- A closed instance drops every ack.
theorem LearnerInstance.Tallied.extend {n : Nat} {log : List AcceptAck} {inst : LearnerInstance}
    (h : inst.Tallied n log) (hsome : inst.finalValue.isSome) (ack : AcceptAck) :
    inst.Tallied n (log ++ [ack]) := by
  refine ⟨⟨fun _ => ?_, fun _ => hsome⟩, fun hnone => ?_, fun v hv => ?_⟩
  · obtain ⟨p, hp, hq⟩ := h.closed.mp hsome
    exact ⟨p, hp.trans (List.prefix_append _ _), hq⟩
  · rw [hnone] at hsome
    cases hsome
  · obtain ⟨p, hp, hrest⟩ := h.final v hv
    exact ⟨p, hp.trans (List.prefix_append _ _), hrest⟩

-- The test after an ack was stored or dropped, for an instance open until then.
theorem LearnerInstance.Tallied.test {n : Nat} {l : Learner} (hl : l.Sized n)
    {log : List AcceptAck} {inst : LearnerInstance} {ack : AcceptAck}
    (hlog : ∀ other ∈ log ++ [ack], other.isFinal = false)
    (hopen : ∀ p, p <+: log → ¬FullQuorum n p) (hnone : inst.finalValue = none)
    (hacks : inst.acks = (List.range n).map (tally (log ++ [ack])))
    (hlast : ∀ ballot, QuorumAt n (log ++ [ack]) ballot → ballot = inst.lastUpdateBallot) :
    (instanceHasQuorum l inst).1.Tallied n (log ++ [ack]) := by
  have hshorter {p : List AcceptAck} (hp : p <+: log ++ [ack]) (hne : p ≠ log ++ [ack]) :
      ¬FullQuorum n p := hopen p ((List.prefix_concat_iff.mp hp).resolve_left hne)
  rcases instanceHasQuorum_open hl hnone hacks hlog with
    ⟨he, hnot⟩ | ⟨final, he, hq, hb, hm⟩
  · rw [he]
    refine ⟨⟨fun hs => ?_, fun ⟨p, hp, ballot, hq⟩ => ?_⟩, fun _ => hacks, fun v hv => ?_⟩
    · rw [hnone] at hs
      cases hs
    · by_cases hwhole : p = log ++ [ack]
      · subst hwhole
        exact absurd (hlast ballot hq ▸ hq) hnot
      · exact absurd ⟨ballot, hq⟩ (hshorter hp hwhole)
    · rw [hnone] at hv
      cases hv
  · rw [he]
    refine ⟨⟨fun _ => ⟨_, List.prefix_rfl, _, hq⟩, fun _ => rfl⟩, fun hv => ?_, fun v hv => ?_⟩
    · cases hv
    · obtain rfl := Option.some.inj hv
      exact ⟨_, List.prefix_rfl, hb ▸ hq, fun q hq' hne => hshorter hq' hne, hacks, hm⟩

-- What `learner_update_instance` does to an instance in use that is still open.
theorem updateInstance_open {l : Learner} {inst new : LearnerInstance} {ack : AcceptAck}
    (hpos : inst.iid ≠ 0) (he : instanceHasQuorum l inst = (inst, false))
    (hupd : updateInstance l inst ack = .ok new) :
    ∃ kept, inst.acks[ack.acceptorId]? = some kept ∧
      new = if newer ack kept then instanceAddAccept inst ack else inst := by
  unfold updateInstance at hupd
  simp only [hpos, if_false, he] at hupd
  split_ifs at hupd
  cases hkept : inst.acks[ack.acceptorId]? with
  | none =>
      rw [hkept] at hupd
      cases hupd
  | some kept =>
      rw [hkept] at hupd
      refine ⟨kept, rfl, ?_⟩
      cases kept with
      | none => exact (Except.ok.inj hupd).symm
      | some prev =>
          by_cases hlt : prev.ballot < ack.ballot
          · have hnot : ¬prev.ballot ≥ ack.ballot := by omega
            simp only [hnot, if_false] at hupd
            simp only [newer, hlt, decide_true, if_true]
            exact (Except.ok.inj hupd).symm
          · have hge : prev.ballot ≥ ack.ballot := by omega
            simp only [hge, if_true] at hupd
            simp only [newer, hlt, decide_false, Bool.false_eq_true, if_false]
            exact (Except.ok.inj hupd).symm

theorem updateInstance_closed {l : Learner} {inst new : LearnerInstance} {ack : AcceptAck}
    (hpos : inst.iid ≠ 0) (hclosed : instanceHasQuorum l inst = (inst, true))
    (hupd : updateInstance l inst ack = .ok new) : new = inst := by
  unfold updateInstance at hupd
  simp only [hpos, if_false, hclosed] at hupd
  split_ifs at hupd
  exact (Except.ok.inj hupd).symm

-- One ack for an instance that is in use: the step lemma.
theorem LearnerInstance.Tallied.receive {n : Nat} {l : Learner} (hl : l.Sized n)
    {log : List AcceptAck} {inst new : LearnerInstance} {ack : AcceptAck} (h : inst.Tallied n log)
    (hlog : ∀ other ∈ log ++ [ack], other.isFinal = false) (hpos : inst.iid ≠ 0)
    (hupd : updateInstance l inst ack = .ok new) :
    (instanceHasQuorum l new).1.Tallied n (log ++ [ack]) := by
  cases hfv : inst.finalValue with
  | some v =>
      have hclosed : instanceHasQuorum l inst = (inst, true) := by simp [instanceHasQuorum, hfv]
      rw [updateInstance_closed hpos hclosed hupd, hclosed]
      exact h.extend (by simp [hfv]) ack
  | none =>
      have hacks := h.stored hfv
      have hopen (p : List AcceptAck) (hp : p <+: log) : ¬FullQuorum n p := by
        intro hq
        have := h.closed.mpr ⟨p, hp, hq⟩
        rw [hfv] at this
        cases this
      have hold (other : AcceptAck) (hm : other ∈ log) := hlog other (List.mem_append_left _ hm)
      rcases instanceHasQuorum_open hl hfv hacks hold with ⟨he, _⟩ | ⟨_, _, hq, _⟩
      · obtain ⟨kept, hkept, rfl⟩ := updateInstance_open hpos he hupd
        rw [hacks] at hkept
        obtain ⟨hlt, hkept⟩ := List.getElem?_eq_some_iff.mp hkept
        simp only [List.getElem_map, List.getElem_range] at hkept
        by_cases hnew : newer ack kept = true
        · rw [if_pos hnew]
          apply LearnerInstance.Tallied.test hl hlog hopen
          · exact hfv
          · simp only [instanceAddAccept, hacks, tally_append, hkept, hnew, if_true]
            exact map_range_update (tally log) ack.acceptorId (some ack) n
          · intro ballot hq
            by_contra hne
            exact hopen log List.prefix_rfl ⟨ballot, hq.of_append hne⟩
        · have hsame : tally (log ++ [ack]) = tally log := by
            rw [tally_append, hkept, if_neg hnew]
          rw [if_neg hnew]
          apply LearnerInstance.Tallied.test hl hlog hopen hfv
          · rw [hsame]
            exact hacks
          · intro ballot hq
            unfold QuorumAt at hq
            rw [hsame] at hq
            exact absurd ⟨ballot, hq⟩ (hopen log List.prefix_rfl)
      · exact absurd ⟨_, hq⟩ (hopen log List.prefix_rfl)

-- The first ack for a free instance claims it.
theorem updateInstance_claim (l : Learner) (inst : LearnerInstance) (ack : AcceptAck)
    (hfree : inst.iid = 0) (hpos : ack.iid ≠ 0) :
    updateInstance l inst ack =
      updateInstance l { inst with iid := ack.iid, lastUpdateBallot := ack.ballot } ack := by
  simp only [updateInstance, hfree, hpos, if_true, if_false]

theorem LearnerInstance.Tallied.claimed (n iid ballot : Nat) :
    { learnerInstanceNew n with iid := iid, lastUpdateBallot := ballot }.Tallied n [] := by
  refine ⟨⟨fun h => ?_, fun ⟨p, hp, hq⟩ => ?_⟩, fun _ => ?_, fun ack h => ?_⟩
  · cases h
  · rw [List.prefix_nil.mp hp] at hq
    exact absurd hq (not_fullQuorum_nil n)
  · change List.replicate n none = (List.range n).map fun _ => none
    simp
  · cases h

theorem LearnerInstance.Tallied.length {n : Nat} {log : List AcceptAck} {inst : LearnerInstance}
    (h : inst.Tallied n log) : inst.acks.length = n := by
  cases hfv : inst.finalValue with
  | none => simp [h.stored hfv]
  | some ack =>
      obtain ⟨p, _, _, _, hacks, _⟩ := h.final ack hfv
      simp [hacks]

theorem instanceHasQuorum_acks (l : Learner) (inst : LearnerInstance) :
    (instanceHasQuorum l inst).1.acks = inst.acks := by
  unfold instanceHasQuorum
  dsimp only
  split_ifs <;> rfl

theorem carrayIndex_write {α : Type} (a : Carray α) (i j : Int) (x : α) :
    carrayIndex (carrayWrite a i x) j = carrayIndex a j := rfl

theorem carrayAt_congr {α : Type} {a : Carray α} {i j : Int}
    (h : carrayIndex a i = carrayIndex a j) : carrayAt a i = carrayAt a j := by
  simp only [carrayAt, h]

theorem carrayAt_write {α : Type} {a : Carray α} {i : Int} {x : α}
    (h : carrayAt a i = .ok (some x)) (y : α) (j : Int) :
    carrayAt (carrayWrite a i y) j =
      if carrayIndex a j = carrayIndex a i then .ok (some y) else carrayAt a j := by
  have hempty : carrayEmpty (carrayWrite a i y) = carrayEmpty a := rfl
  unfold carrayAt at h ⊢
  rw [carrayIndex_write, hempty]
  split at h
  · cases h
  · rename_i hne
    split at h
    · cases h
    · rename_i hnonneg
      split at h
      · cases h
      · rename_i slot hslot
        obtain ⟨hlt, _⟩ := List.getElem?_eq_some_iff.mp hslot
        simp only [hne, if_false, Bool.false_eq_true]
        by_cases he : carrayIndex a j = carrayIndex a i
        · rw [if_pos he, he, if_neg hnonneg]
          simp only [carrayWrite, List.getElem?_set_self hlt]
        · rw [if_neg he]
          by_cases hneg : carrayIndex a j < 0
          · simp only [hneg, if_true]
          · have hdiff : (carrayIndex a i).toNat ≠ (carrayIndex a j).toNat := by omega
            simp only [hneg, if_false, carrayWrite, List.getElem?_set_ne hdiff]

-- The acks that `learner_receive_accept` does not drop: those of the window.
def learnerTakes (l : Learner) (ack : AcceptAck) : Bool :=
  let l := learnerArrive l ack
  ¬ack.iid < l.currentIid ∧ ¬ack.iid ≥ uint32 (l.currentIid + carraySize l.instances)

-- What `learner_receive_accept` does to an ack that is taken, step by step.
structure Learner.Takes (l : Learner) (ack : AcceptAck) (l' : Learner)
    (old new : LearnerInstance) : Prop where
  found : carrayAt l.instances (iidToInt ack.iid) = .ok (some old)
  iid : old.iid = ack.iid ∨ old.iid = 0
  updated : updateInstance (learnerArrive l ack) old ack = .ok new
  result : l' = learnerNoteClosed
    (learnerWriteInstance (learnerArrive l ack) ack.iid new) ack.iid new

theorem learnerReceiveAccept_cases {l l' : Learner} {ack : AcceptAck}
    (h : learnerReceiveAccept l ack = .ok l') :
    (learnerTakes l ack = false ∧ l' = learnerArrive l ack) ∨
      (learnerTakes l ack = true ∧ ∃ old new, l.Takes ack l' old new) := by
  unfold learnerReceiveAccept at h
  dsimp only at h
  split_ifs at h with hold hfar
  · exact .inl ⟨by simp only [learnerTakes, hold, not_true_eq_false, false_and, decide_false],
      (Except.ok.inj h).symm⟩
  · exact .inl ⟨by simp only [learnerTakes, hfar, not_true_eq_false, and_false, decide_false],
      (Except.ok.inj h).symm⟩
  · right
    obtain ⟨mid, hupd, h⟩ := except_bind_ok h
    obtain ⟨again, hagain, h⟩ := except_bind_ok h
    obtain ⟨old, hget, hupd⟩ := except_bind_ok hupd
    obtain ⟨new, hnew, hupd⟩ := except_bind_ok hupd
    obtain ⟨hfound, hiid⟩ := learnerGetInstance_ok hget
    rw [learnerArrive_instances] at hfound
    have hmid : learnerWriteInstance (learnerArrive l ack) ack.iid new = mid :=
      Except.ok.inj hupd
    -- The second read finds the instance that was just written.
    have hsame : again = new := by
      have hat := (learnerGetInstance_ok hagain).1
      rw [← hmid] at hat
      simp only [learnerWriteInstance, learnerArrive_instances] at hat
      rw [carrayAt_write hfound, if_pos rfl] at hat
      exact (Option.some.inj (Except.ok.inj hat)).symm
    refine ⟨?_, old, new, hfound, hiid, hnew, ?_⟩
    · simp only [learnerTakes, hold, hfar, not_false_eq_true, and_self, decide_true]
    · rw [hmid, ← hsame]
      exact (Except.ok.inj h).symm

theorem updateInstance_iid {l : Learner} {inst new : LearnerInstance} {ack : AcceptAck}
    (h : updateInstance l inst ack = .ok new) : new.iid = ack.iid := by
  unfold updateInstance at h
  generalize (if inst.iid = 0 then { inst with iid := ack.iid, lastUpdateBallot := ack.ballot }
    else inst) = start at h
  have hkeep := instanceHasQuorum_iid l start
  dsimp only at h
  split_ifs at h with hiid
  cases hq : instanceHasQuorum l start with
  | mk tested closed =>
      rw [hq] at h hkeep
      have hsame : tested.iid = ack.iid := hkeep.trans (not_not.mp hiid)
      cases closed with
      | true => exact Except.ok.inj h ▸ hsame
      | false =>
          dsimp only at h
          split at h
          · cases h
          · exact Except.ok.inj h ▸ hsame
          · split_ifs at h
            · exact Except.ok.inj h ▸ hsame
            · exact Except.ok.inj h ▸ hsame

-- The slots after an ack that is taken: only the one of its iid is written.
theorem Learner.Takes.at {l l' : Learner} {ack : AcceptAck} {old new : LearnerInstance}
    (h : l.Takes ack l' old new) (j : Int) :
    carrayAt l'.instances j =
      if carrayIndex l.instances j = carrayIndex l.instances (iidToInt ack.iid) then
        .ok (some (instanceHasQuorum (learnerArrive l ack) new).1)
      else carrayAt l.instances j := by
  obtain ⟨closed, hnote⟩ := learnerNoteClosed_eq
    (learnerWriteInstance (learnerArrive l ack) ack.iid new) ack.iid new
  have hquorum : instanceHasQuorum (learnerWriteInstance (learnerArrive l ack) ack.iid new) new =
      instanceHasQuorum (learnerArrive l ack) new := rfl
  have hfirst := carrayAt_write h.found new
  have hself : carrayAt (carrayWrite l.instances (iidToInt ack.iid) new) (iidToInt ack.iid) =
      .ok (some new) := by rw [hfirst, if_pos rfl]
  rw [h.result, hnote, hquorum]
  simp only [learnerWriteInstance, learnerArrive_instances]
  rw [carrayAt_write hself, hfirst]
  rw [carrayIndex_write, carrayIndex_write]
  split_ifs <;> rfl

theorem Learner.Takes.sized {l l' : Learner} {ack : AcceptAck} {old new : LearnerInstance} {n : Nat}
    (h : l.Takes ack l' old new) (hl : l.Sized n) : l'.Sized n := by
  obtain ⟨closed, hnote⟩ := learnerNoteClosed_eq
    (learnerWriteInstance (learnerArrive l ack) ack.iid new) ack.iid new
  have harr := hl.arrive ack
  rw [h.result, hnote]
  exact ⟨harr.quorum, harr.acceptors⟩

-- A learner and, for each instance, the acks taken for it since it was last
-- delivered.
structure Hearing where
  learner : Learner
  log : Nat → List AcceptAck

def Hearing.heard (s : Hearing) : LearnerCall → Option AcceptAck → Nat → List AcceptAck
  | .receiveAccept ack, _ =>
      if learnerTakes s.learner ack then
        Function.update s.log ack.iid (s.log ack.iid ++ [ack])
      else s.log
  | .deliverNext, none => s.log
  | .deliverNext, some _ => Function.update s.log s.learner.currentIid []

def hearing (l : Learner) : TransitionSystem Hearing LearnerCall where
  init := ⟨l, fun _ => []⟩
  step s c :=
    match learnerCall s.learner c with
    | .error _ => none
    | .ok (l, out) => some ⟨l, s.heard c out⟩

-- What an acceptor sends to a learner: instances are numbered from 1, and no ack is
-- marked final, since nothing calls `storage_save_final_value`.
def LearnerCall.Open : LearnerCall → Prop
  | .receiveAccept ack => 1 ≤ ack.iid ∧ ack.isFinal = false
  | .deliverNext => True

-- The slot of `iid` is in use for it.
def Learner.Holds (l : Learner) (iid : Nat) (inst : LearnerInstance) : Prop :=
  carrayAt l.instances (iidToInt iid) = .ok (some inst) ∧ inst.iid = iid

structure Hearing.Exact (n : Nat) (s : Hearing) : Prop where
  sized : s.learner.Sized n
  free : ∀ j inst, carrayAt s.learner.instances j = .ok (some inst) → inst.iid = 0 →
    inst = learnerInstanceNew n
  present : ∀ iid, s.log iid ≠ [] → ∃ inst, s.learner.Holds iid inst
  tallied : ∀ iid inst, s.learner.Holds iid inst → iid ≠ 0 → inst.Tallied n (s.log iid)
  unmarked : ∀ iid, ∀ ack ∈ s.log iid, ack.isFinal = false
  zero : s.log 0 = []

-- Two instances in one slot would fail the assertion of `learner_get_instance`.
theorem Learner.Holds.apart {l : Learner} {iid other : Nat} {inst found : LearnerInstance}
    (h : l.Holds iid inst) (hiid : iid ≠ 0)
    (hfound : carrayAt l.instances (iidToInt other) = .ok (some found))
    (hother : found.iid = other ∨ found.iid = 0) (hne : iid ≠ other) :
    carrayIndex l.instances (iidToInt iid) ≠ carrayIndex l.instances (iidToInt other) := by
  intro he
  have hat := h.1
  rw [carrayAt_congr he, hfound] at hat
  obtain rfl := Option.some.inj (Except.ok.inj hat)
  have := h.2
  omega

-- The instance an ack finds, as if it had been claimed already.
theorem Hearing.Exact.taken {n : Nat} {s : Hearing} (h : s.Exact n) {ack : AcceptAck}
    (hpos : 1 ≤ ack.iid) (hopen : ack.isFinal = false) {l' : Learner} {old new : LearnerInstance}
    (ht : s.learner.Takes ack l' old new) :
    (instanceHasQuorum (learnerArrive s.learner ack) new).1.Tallied n (s.log ack.iid ++ [ack]) := by
  have hsized := h.sized.arrive ack
  have hlog : ∀ other ∈ s.log ack.iid ++ [ack], other.isFinal = false := by
    intro other hm
    rcases List.mem_append.mp hm with hm | hm
    · exact h.unmarked ack.iid other hm
    · exact List.mem_singleton.mp hm ▸ hopen
  by_cases hfree : old.iid = 0
  · have hnil : s.log ack.iid = [] := by
      by_contra hne
      obtain ⟨inst, hat, hiid⟩ := h.present ack.iid hne
      rw [ht.found] at hat
      obtain rfl := Option.some.inj (Except.ok.inj hat)
      omega
    have hnew := h.free _ old ht.found hfree
    have hupd := ht.updated
    rw [updateInstance_claim _ old ack hfree (by omega), hnew] at hupd
    rw [hnil] at hlog ⊢
    apply LearnerInstance.Tallied.receive hsized (.claimed n ack.iid ack.ballot) hlog _ hupd
    exact Nat.ne_of_gt hpos
  · have hsame : old.iid = ack.iid := ht.iid.resolve_right hfree
    exact (h.tallied ack.iid old ⟨ht.found, hsame⟩ (by omega)).receive hsized hlog hfree ht.updated

theorem Hearing.Exact.receive {n : Nat} {s : Hearing} (h : s.Exact n) {ack : AcceptAck}
    (hpos : 1 ≤ ack.iid) (hopen : ack.isFinal = false) {l' : Learner}
    (hr : learnerReceiveAccept s.learner ack = .ok l') :
    Hearing.Exact n ⟨l', s.heard (.receiveAccept ack) none⟩ := by
  rcases learnerReceiveAccept_cases hr with ⟨hdrop, rfl⟩ | ⟨htake, old, new, ht⟩
  · have hlog : s.heard (.receiveAccept ack) none = s.log := by simp [Hearing.heard, hdrop]
    rw [hlog]
    exact ⟨h.sized.arrive ack, by simpa using h.free, by simpa [Learner.Holds] using h.present,
      by simpa [Learner.Holds] using h.tallied, h.unmarked, h.zero⟩
  have hlog : s.heard (.receiveAccept ack) none =
      Function.update s.log ack.iid (s.log ack.iid ++ [ack]) := by simp [Hearing.heard, htake]
  rw [hlog]
  have htallied := h.taken hpos hopen ht
  have hiid : (instanceHasQuorum (learnerArrive s.learner ack) new).1.iid = ack.iid := by
    rw [instanceHasQuorum_iid]
    exact updateInstance_iid ht.updated
  refine ⟨ht.sized h.sized, fun j inst hat h0 => ?_, fun iid hne => ?_, fun iid inst hin h0 => ?_,
    fun iid other hm => ?_, ?_⟩
  · rw [ht.at] at hat
    split_ifs at hat with he
    · obtain rfl := Option.some.inj (Except.ok.inj hat)
      omega
    · exact h.free j inst hat h0
  · by_cases heq : iid = ack.iid
    · subst heq
      exact ⟨_, by rw [ht.at, if_pos rfl], hiid⟩
    · dsimp only at hne
      rw [Function.update_of_ne heq] at hne
      have h0 : iid ≠ 0 := by
        rintro rfl
        exact hne h.zero
      obtain ⟨inst, hin⟩ := h.present iid hne
      refine ⟨inst, ?_, hin.2⟩
      rw [ht.at, if_neg (hin.apart h0 ht.found ht.iid heq)]
      exact hin.1
  · have hat := hin.1
    rw [ht.at] at hat
    by_cases heq : iid = ack.iid
    · subst heq
      rw [if_pos rfl] at hat
      obtain rfl := Option.some.inj (Except.ok.inj hat)
      dsimp only
      rw [Function.update_self]
      exact htallied
    · dsimp only
      rw [Function.update_of_ne heq]
      split_ifs at hat
      · obtain rfl := Option.some.inj (Except.ok.inj hat)
        exact absurd (hin.2.symm.trans hiid) heq
      · exact h.tallied iid inst ⟨hat, hin.2⟩ h0
  · dsimp only at hm
    by_cases heq : iid = ack.iid
    · subst heq
      rw [Function.update_self] at hm
      rcases List.mem_append.mp hm with hm | hm
      · exact h.unmarked ack.iid other hm
      · exact List.mem_singleton.mp hm ▸ hopen
    · rw [Function.update_of_ne heq] at hm
      exact h.unmarked iid other hm
  · dsimp only
    rw [Function.update_of_ne (by omega)]
    exact h.zero

-- A delivery that succeeds takes the final value of the current instance and frees
-- its slot.
theorem Hearing.Exact.delivery {n : Nat} {s : Hearing} (h : s.Exact n) {l' : Learner}
    {out : Option AcceptAck} (hr : learnerDeliverNext s.learner = .ok (l', out)) :
    (out = none ∧ l' = s.learner) ∨
      ∃ inst ack, s.learner.Holds s.learner.currentIid inst ∧ s.learner.currentIid ≠ 0 ∧
        out = some ack ∧ (instanceHasQuorum s.learner inst).1.finalValue = some ack ∧
        l' = { learnerWriteInstance s.learner s.learner.currentIid (learnerInstanceNew n) with
          currentIid := uint32 (s.learner.currentIid + 1) } := by
  obtain ⟨inst, hget, hr⟩ := except_bind_ok hr
  obtain ⟨hat, hiid⟩ := learnerGetInstance_ok hget
  cases hq : instanceHasQuorum s.learner inst with
  | mk tested closed =>
      rw [hq] at hr
      cases closed with
      | false =>
          cases hr
          exact .inl ⟨rfl, rfl⟩
      | true =>
          right
          have hne : inst.iid ≠ 0 := by
            intro h0
            rw [h.free _ inst hat h0, instanceHasQuorum_free h.sized] at hq
            cases hq
          have hsame : inst.iid = s.learner.currentIid := hiid.resolve_right hne
          have hlength : tested.acks.length = n := by
            have hkeep := instanceHasQuorum_acks s.learner inst
            rw [hq] at hkeep
            rw [hkeep]
            exact (h.tallied _ inst ⟨hat, hsame⟩ (by omega)).length
          cases hfv : tested.finalValue with
          | none =>
              simp only [hfv] at hr
              cases hr
          | some ack =>
              simp only [hfv] at hr
              rw [h.sized.acceptors, instanceClear_eq hlength] at hr
              cases hr
              exact ⟨inst, ack, ⟨hat, hsame⟩, by omega, rfl, by rw [hq]; exact hfv, rfl⟩

theorem Hearing.Exact.deliver {n : Nat} {s : Hearing} (h : s.Exact n) {l' : Learner}
    {out : Option AcceptAck} (hr : learnerDeliverNext s.learner = .ok (l', out)) :
    Hearing.Exact n ⟨l', s.heard .deliverNext out⟩ := by
  rcases h.delivery hr with ⟨rfl, rfl⟩ | ⟨found, ack, hfound, h0, rfl, _, rfl⟩
  · exact h
  have hat (j : Int) : carrayAt (carrayWrite s.learner.instances
      (iidToInt s.learner.currentIid) (learnerInstanceNew n)) j =
      if carrayIndex s.learner.instances j =
        carrayIndex s.learner.instances (iidToInt s.learner.currentIid) then
        .ok (some (learnerInstanceNew n)) else carrayAt s.learner.instances j :=
    carrayAt_write hfound.1 _ j
  simp only [Hearing.heard]
  refine ⟨⟨h.sized.quorum, h.sized.acceptors⟩, fun j inst hj hi => ?_, fun iid hne => ?_,
    fun iid inst hin hi => ?_, fun iid other hm => ?_, ?_⟩
  · simp only [learnerWriteInstance, hat] at hj
    split_ifs at hj
    · exact (Option.some.inj (Except.ok.inj hj)).symm
    · exact h.free j inst hj hi
  · dsimp only at hne
    have hcur : iid ≠ s.learner.currentIid := by
      rintro rfl
      rw [Function.update_self] at hne
      exact hne rfl
    rw [Function.update_of_ne hcur] at hne
    have hiid : iid ≠ 0 := by
      rintro rfl
      exact hne h.zero
    obtain ⟨inst, hin⟩ := h.present iid hne
    refine ⟨inst, ?_, hin.2⟩
    simp only [learnerWriteInstance, hat]
    rw [if_neg (hin.apart hiid hfound.1 (.inl hfound.2) hcur)]
    exact hin.1
  · have hj := hin.1
    simp only [learnerWriteInstance, hat] at hj
    split_ifs at hj with he
    · obtain rfl := Option.some.inj (Except.ok.inj hj)
      exact absurd hin.2.symm hi
    · have hcur : iid ≠ s.learner.currentIid := by
        rintro rfl
        exact he rfl
      dsimp only
      rw [Function.update_of_ne hcur]
      exact h.tallied iid inst ⟨hj, hin.2⟩ hi
  · dsimp only at hm
    by_cases hcur : iid = s.learner.currentIid
    · subst hcur
      rw [Function.update_self] at hm
      cases hm
    · rw [Function.update_of_ne hcur] at hm
      exact h.unmarked iid other hm
  · dsimp only
    rw [Function.update_of_ne (Ne.symm h0)]
    exact h.zero

theorem Hearing.Exact.init {cfg : PaxosConfig} {n : Nat} {l : Learner}
    (h : learnerNew cfg n = .ok l) : (hearing l).init.Exact n := by
  obtain ⟨hsized, hslots⟩ := learnerNew_slots h
  have hnew {j : Int} {inst : LearnerInstance} (hat : carrayAt l.instances j = .ok (some inst)) :
      inst = learnerInstanceNew n := hslots inst (carrayAt_mem hat)
  refine ⟨hsized, fun j inst hat _ => hnew hat, fun iid hne => absurd rfl hne,
    fun iid inst hin h0 => ?_, fun iid ack hm => ?_, rfl⟩
  · have hiid := hin.2
    rw [hnew hin.1] at hiid
    exact absurd hiid.symm h0
  · cases hm

theorem hearing_step_ok {l₀ : Learner} {s s' : Hearing} {c : LearnerCall}
    (h : (hearing l₀).step s c = some s') :
    ∃ out, learnerCall s.learner c = .ok (s'.learner, out) ∧ s'.log = s.heard c out := by
  simp only [hearing] at h
  cases hcall : learnerCall s.learner c with
  | error fault =>
      rw [hcall] at h
      cases h
  | ok result =>
      rw [hcall] at h
      cases h
      exact ⟨result.2, rfl, rfl⟩

theorem learnerCall_receive_ok {l l' : Learner} {ack : AcceptAck} {out : Option AcceptAck}
    (h : learnerCall l (.receiveAccept ack) = .ok (l', out)) :
    learnerReceiveAccept l ack = .ok l' := by
  simp only [learnerCall, Except.map] at h
  split at h
  · cases h
  · rename_i mid hmid
    cases h
    exact hmid

theorem Hearing.Exact.step {n : Nat} {l₀ : Learner} {s s' : Hearing} {c : LearnerCall}
    (h : s.Exact n) (hc : c.Open) (hs : (hearing l₀).step s c = some s') : s'.Exact n := by
  obtain ⟨out, hcall, hlog⟩ := hearing_step_ok hs
  have he : s' = ⟨s'.learner, s.heard c out⟩ := by rw [← hlog]
  rw [he]
  cases c with
  | receiveAccept ack => exact h.receive hc.1 hc.2 (learnerCall_receive_ok hcall)
  | deliverNext => exact h.deliver hcall

-- A final value stays until the delivery that returns it.
theorem Hearing.Exact.keepsFinal {n : Nat} {l₀ : Learner} {s s' : Hearing} {c : LearnerCall}
    (h : s.Exact n) (hs : (hearing l₀).step s c = some s') {iid : Nat} {inst : LearnerInstance}
    {v : AcceptAck} (hin : s.learner.Holds iid inst) (hiid : iid ≠ 0)
    (hv : inst.finalValue = some v) :
    (∃ inst', s'.learner.Holds iid inst' ∧ inst'.finalValue = some v) ∨
      c = .deliverNext ∧ s.learner.currentIid = iid ∧
        ∃ l', learnerDeliverNext s.learner = .ok (l', some v) := by
  have hclosed (l : Learner) : instanceHasQuorum l inst = (inst, true) := by
    simp [instanceHasQuorum, hv]
  obtain ⟨out, hcall, _⟩ := hearing_step_ok hs
  cases c with
  | receiveAccept ack =>
      left
      rcases learnerReceiveAccept_cases (learnerCall_receive_ok hcall) with
        ⟨_, he⟩ | ⟨_, old, new, ht⟩
      · refine ⟨inst, ?_, hv⟩
        rw [he]
        exact ⟨by rw [learnerArrive_instances]; exact hin.1, hin.2⟩
      · by_cases hack : iid = ack.iid
        · subst hack
          have hold : old = inst :=
            Option.some.inj (Except.ok.inj (ht.found.symm.trans hin.1))
          subst hold
          obtain rfl := updateInstance_closed (hin.2 ▸ hiid) (hclosed _) ht.updated
          refine ⟨new, ⟨?_, hin.2⟩, hv⟩
          rw [ht.at, if_pos rfl, hclosed]
        · refine ⟨inst, ⟨?_, hin.2⟩, hv⟩
          rw [ht.at, if_neg (hin.apart hiid ht.found ht.iid hack)]
          exact hin.1
  | deliverNext =>
      rcases h.delivery hcall with ⟨_, he⟩ | ⟨found, ack, hfound, _, hout, hfinal, he⟩
      · exact .inl ⟨inst, he ▸ hin, hv⟩
      · by_cases hcur : iid = s.learner.currentIid
        · subst hcur
          have hsame : found = inst :=
            Option.some.inj (Except.ok.inj (hfound.1.symm.trans hin.1))
          rw [hsame, hclosed] at hfinal
          obtain rfl := Option.some.inj (hfinal.symm.trans hv)
          exact .inr ⟨rfl, rfl, s'.learner, hout ▸ hcall⟩
        · left
          refine ⟨inst, ⟨?_, hin.2⟩, hv⟩
          rw [he]
          simp only [learnerWriteInstance]
          rw [carrayAt_write hfound.1, if_neg (hin.apart hiid hfound.1 (.inl hfound.2) hcur)]
          exact hin.1

-- The run lemmas: what one call keeps, any sequence of calls keeps.
theorem Hearing.Exact.run {n : Nat} {l₀ : Learner} {s s' : Hearing} (h : s.Exact n)
    (calls : List LearnerCall) (hcalls : ∀ c ∈ calls, c.Open)
    (hrun : (hearing l₀).run s calls = some s') : s'.Exact n := by
  induction calls generalizing s with
  | nil =>
      simp only [TransitionSystem.run, Option.some.injEq] at hrun
      exact hrun ▸ h
  | cons c rest ih =>
      obtain ⟨mid, hs, hrest⟩ := Option.bind_eq_some_iff.mp hrun
      apply ih (h.step (hcalls c List.mem_cons_self) hs) _ hrest
      exact fun c' hm => hcalls c' (List.mem_cons_of_mem c hm)

-- Along these calls the final value of `iid` stays, or the call that delivers `iid`
-- returns it.
def FinalUntilDelivered (l₀ : Learner) (s : Hearing) (iid : Nat) (v : AcceptAck)
    (calls : List LearnerCall) (s' : Hearing) : Prop :=
  (∃ inst, s'.learner.Holds iid inst ∧ inst.finalValue = some v) ∨
    ∃ before after mid, calls = before ++ .deliverNext :: after ∧
      (hearing l₀).run s before = some mid ∧ mid.learner.currentIid = iid ∧
      ∃ l', learnerDeliverNext mid.learner = .ok (l', some v)

theorem Hearing.Exact.runFinal {n : Nat} {l₀ : Learner} {s s' : Hearing} (h : s.Exact n)
    (calls : List LearnerCall) (hcalls : ∀ c ∈ calls, c.Open)
    (hrun : (hearing l₀).run s calls = some s') {iid : Nat} {inst : LearnerInstance}
    {v : AcceptAck} (hin : s.learner.Holds iid inst) (hiid : iid ≠ 0)
    (hv : inst.finalValue = some v) : FinalUntilDelivered l₀ s iid v calls s' := by
  induction calls generalizing s inst with
  | nil =>
      simp only [TransitionSystem.run, Option.some.injEq] at hrun
      exact .inl ⟨inst, hrun ▸ hin, hv⟩
  | cons c rest ih =>
      obtain ⟨mid, hs, hrest⟩ := Option.bind_eq_some_iff.mp hrun
      rcases h.keepsFinal hs hin hiid hv with ⟨inst', hin', hv'⟩ | ⟨rfl, hcur, hdeliver⟩
      · have hmid := h.step (hcalls c List.mem_cons_self) hs
        have hopen (c' : LearnerCall) (hm : c' ∈ rest) := hcalls c' (List.mem_cons_of_mem c hm)
        rcases ih hmid hopen hrest hin' hv' with hkept | ⟨before, after, last, rfl, hb, hlast⟩
        · exact .inl hkept
        · refine .inr ⟨c :: before, after, last, rfl, ?_, hlast⟩
          simp only [TransitionSystem.run, hs, Option.bind_some]
          exact hb
      · exact .inr ⟨[], rest, s, rfl, rfl, hcur, hdeliver⟩

-- The calls that the assertions and the array bounds allow all return.
theorem hearing_run_of_learnerRun {l₀ l l' : Learner} {calls : List LearnerCall}
    {delivered : List AcceptAck} (h : learnerRun l calls = .ok (l', delivered))
    (log : Nat → List AcceptAck) : ∃ s, (hearing l₀).run ⟨l, log⟩ calls = some s := by
  induction calls generalizing l l' delivered log with
  | nil => exact ⟨_, rfl⟩
  | cons c rest ih =>
      obtain ⟨⟨mid, out⟩, hcall, h⟩ := except_bind_ok h
      obtain ⟨⟨last, more⟩, hrest, _⟩ := except_bind_ok h
      obtain ⟨s, hs⟩ := ih hrest (Hearing.heard ⟨l, log⟩ c out)
      refine ⟨s, ?_⟩
      simp only [TransitionSystem.run, hearing, hcall, Option.bind_some]
      exact hs

-- After any calls, every instance the learner holds is closed exactly when the
-- full test has succeeded on the acks taken for it, whatever order they came in.
theorem learner_tally_exact (cfg : PaxosConfig) (n : Nat) (l₀ : Learner)
    (hnew : learnerNew cfg n = .ok l₀) (calls : List LearnerCall)
    (hopen : ∀ c ∈ calls, c.Open) :
    (1 ≤ cfg.learnerInstances → (∀ c ∈ calls, c.Fits cfg.learnerInstances n) →
        ∃ s, (hearing l₀).run (hearing l₀).init calls = some s) ∧
      ∀ s, (hearing l₀).run (hearing l₀).init calls = some s → ∀ iid, 1 ≤ iid →
        (s.log iid ≠ [] → ∃ inst, s.learner.Holds iid inst) ∧
        ∀ inst, s.learner.Holds iid inst → inst.Tallied n (s.log iid) ∧
          ∀ v, inst.finalValue = some v → ∀ later s', (∀ c ∈ later, c.Open) →
            (hearing l₀).run s later = some s' → FinalUntilDelivered l₀ s iid v later s' := by
  refine ⟨fun hw hfits => ?_, fun s hrun iid hiid => ?_⟩
  · obtain ⟨l, hl, _, hcur, hwin⟩ := learnerNew_windowed cfg n hw
    obtain rfl := Except.ok.inj (hl.symm.trans hnew)
    obtain ⟨l', delivered, _, hr, _⟩ := hwin.run (fun _ => hcur) calls hfits
    exact hearing_run_of_learnerRun hr _
  · have hexact := (Hearing.Exact.init hnew).run calls hopen hrun
    have h0 : iid ≠ 0 := by omega
    refine ⟨hexact.present iid, fun inst hin => ⟨hexact.tallied iid inst hin h0, ?_⟩⟩
    exact fun v hv later s' hlater hr => hexact.runFinal later hlater hr hin h0 hv

-- Acks of two ballots for one instance. The older ballot wins after the newer one
-- was seen, and a repeated ack and a late one change nothing.
def mixedAcks : List LearnerCall :=
  [.receiveAccept ⟨0, 1, 20, 20, false, [1]⟩, .receiveAccept ⟨1, 1, 10, 10, false, [2]⟩,
    .receiveAccept ⟨0, 1, 20, 20, false, [1]⟩, .receiveAccept ⟨2, 1, 10, 10, false, [2]⟩,
    .receiveAccept ⟨1, 1, 20, 20, false, [1]⟩]

theorem learner_tally_exact_mixed : ∃ l₀ s inst, learnerNew ⟨2, true, 1⟩ 3 = .ok l₀ ∧
    (hearing l₀).run (hearing l₀).init mixedAcks = some s ∧ s.learner.Holds 1 inst ∧
    inst.finalValue = some ⟨2, 1, 10, 10, false, [2]⟩ ∧ inst.Tallied 3 (s.log 1) := by
  have hopen : ∀ c ∈ mixedAcks, c.Open := by simp [mixedAcks, LearnerCall.Open]
  refine ⟨_, _, _, rfl, rfl, ⟨rfl, rfl⟩, rfl, ?_⟩
  exact (((learner_tally_exact ⟨2, true, 1⟩ 3 _ rfl mixedAcks hopen).2 _ rfl 1
    (Nat.le_refl 1)).2 _ ⟨rfl, rfl⟩).1

end LibPaxos
