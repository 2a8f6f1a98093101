import LibPaxos.Learner
import LibPaxos.Voting

namespace LibPaxos

def agrees (ballot : Nat) : Option AcceptAck → Bool
  | none => false
  | some ack => ack.ballot = ballot

-- The loop stops at an ack marked final, or counts the acks of the ballot and
-- keeps one of them.
theorem countAgreeing_eq (acceptors ballot : Nat) (acks : List (Option AcceptAck)) (count : Nat)
    (valid : Option AcceptAck) :
    (∃ ack, (countAgreeing acceptors ballot acks count valid).2 = some ack ∧ some ack ∈ acks ∧
      ack.isFinal = true) ∨
    (countAgreeing acceptors ballot acks count valid).1 = count + acks.countP (agrees ballot) ∧
      (acks.countP (agrees ballot) = 0 ∧
          (countAgreeing acceptors ballot acks count valid).2 = valid ∨
        ∃ ack, (countAgreeing acceptors ballot acks count valid).2 = some ack ∧
          some ack ∈ acks ∧ ack.ballot = ballot) := by
  induction acks generalizing count valid with
  | nil => simp [countAgreeing]
  | cons entry rest ih =>
      have hskip (hno : agrees ballot entry = false) :
          countAgreeing acceptors ballot (entry :: rest) count valid =
            countAgreeing acceptors ballot rest count valid := by
        cases entry with
        | none => rfl
        | some ack =>
            have hb : ¬ack.ballot = ballot := by simpa [agrees] using hno
            simp [countAgreeing, hb]
      by_cases hagree : agrees ballot entry = true
      · cases entry with
        | none => cases hagree
        | some ack =>
            have hb : ack.ballot = ballot := by simpa [agrees] using hagree
            by_cases hfin : ack.isFinal = true
            · exact .inl ⟨ack, by simp [countAgreeing, hb, hfin], List.mem_cons_self, hfin⟩
            · have hstep : countAgreeing acceptors ballot (some ack :: rest) count valid =
                  countAgreeing acceptors ballot rest (count + 1) (some ack) := by
                simp [countAgreeing, hb, hfin]
              rw [hstep, List.countP_cons_of_pos hagree]
              rcases ih (count + 1) (some ack) with ⟨other, he, hm, hf⟩ | ⟨hc, hv⟩
              · exact .inl ⟨other, he, List.mem_cons_of_mem _ hm, hf⟩
              · refine .inr ⟨by omega, .inr ?_⟩
                rcases hv with ⟨_, hvalid⟩ | ⟨other, he, hm, ho⟩
                · exact ⟨ack, hvalid, List.mem_cons_self, hb⟩
                · exact ⟨other, he, List.mem_cons_of_mem _ hm, ho⟩
      · have hno : agrees ballot entry = false := by simpa using hagree
        rw [hskip hno, List.countP_cons_of_neg hagree]
        rcases ih count valid with ⟨other, he, hm, hf⟩ | ⟨hc, hv⟩
        · exact .inl ⟨other, he, List.mem_cons_of_mem _ hm, hf⟩
        · refine .inr ⟨hc, ?_⟩
          rcases hv with hzero | ⟨other, he, hm, ho⟩
          · exact .inl hzero
          · exact .inr ⟨other, he, List.mem_cons_of_mem _ hm, ho⟩

-- A count over a list is the size of a set of its indices.
theorem exists_indices_of_countP {α : Type} (p : α → Bool) (xs : List α) :
    ∃ group : Finset Nat, group.card = xs.countP p ∧
      ∀ k ∈ group, ∃ x, xs[k]? = some x ∧ p x = true := by
  induction xs using List.reverseRecOn with
  | nil => exact ⟨∅, rfl, by simp⟩
  | append_singleton xs x ih =>
      obtain ⟨group, hcard, hg⟩ := ih
      have hold (k : Nat) (hk : k ∈ group) : k < xs.length ∧
          ∃ y, (xs ++ [x])[k]? = some y ∧ p y = true := by
        obtain ⟨y, hy, hp⟩ := hg k hk
        have hlt := (List.getElem?_eq_some_iff.mp hy).1
        exact ⟨hlt, y, by rw [List.getElem?_append_left hlt, hy], hp⟩
      by_cases hx : p x = true
      · have hnew : xs.length ∉ group := by
          intro hm
          have := (hold xs.length hm).1
          omega
        refine ⟨insert xs.length group, ?_, ?_⟩
        · rw [Finset.card_insert_of_notMem hnew, hcard, List.countP_append,
            List.countP_singleton, if_pos hx]
        · intro k hk
          rcases Finset.mem_insert.mp hk with rfl | hk
          · exact ⟨x, by simp, hx⟩
          · exact (hold k hk).2
      · refine ⟨group, ?_, fun k hk => (hold k hk).2⟩
        rw [hcard, List.countP_append, List.countP_singleton, if_neg hx, Nat.add_zero]

-- The ack is marked final, or a majority of acceptors sent acks of its ballot for
-- its instance.
def Backed (n : Nat) (p : AcceptAck → Prop) (ack : AcceptAck) : Prop :=
  p ack ∧ (ack.isFinal = true ∨ ∃ group, Voting.IsMajority n group ∧
    ∀ a ∈ group, ∃ other, p other ∧ other.acceptorId = a ∧ other.iid = ack.iid ∧
      other.ballot = ack.ballot)

-- An instance made of acks with property `p`.
structure LearnerInstance.Made (n : Nat) (p : AcceptAck → Prop) (inst : LearnerInstance) :
    Prop where
  length : inst.acks.length = n
  free : inst.iid = 0 → inst = learnerInstanceNew n
  acks : ∀ k ack, inst.acks[k]? = some (some ack) →
    ack.acceptorId = k ∧ ack.iid = inst.iid ∧ p ack
  final : ∀ ack, inst.finalValue = some ack → ack.iid = inst.iid ∧ Backed n p ack

theorem LearnerInstance.Made.new (n : Nat) (p : AcceptAck → Prop) :
    (learnerInstanceNew n).Made n p := by
  refine ⟨by simp [learnerInstanceNew], fun _ => rfl, fun k ack h => ?_, fun ack h => ?_⟩
  · simp [learnerInstanceNew, List.getElem?_replicate] at h
  · cases h

theorem instanceClear_eq {n : Nat} {inst : LearnerInstance} (h : inst.acks.length = n) :
    instanceClear n inst = learnerInstanceNew n := by
  have hfold (m : Nat) (acks : List (Option AcceptAck)) (hm : m ≤ acks.length) :
      (List.range m).foldl (fun acks i => acks.set i none) acks =
        List.replicate m none ++ acks.drop m := by
    induction m with
    | zero => rfl
    | succ m ih =>
        rw [List.range_succ, List.foldl_append, ih (by omega)]
        simp only [List.foldl_cons, List.foldl_nil]
        have hdrop : acks.drop m = acks[m] :: acks.drop (m + 1) :=
          List.drop_eq_getElem_cons (by omega)
        rw [List.set_append_right _ _ (by simp), List.replicate_succ', List.append_assoc,
          List.length_replicate, Nat.sub_self, hdrop]
        rfl
  have hnil : inst.acks.drop n = [] := List.drop_eq_nil_of_le (by omega)
  simp [instanceClear, learnerInstanceNew, hfold n inst.acks (by omega), hnil]

-- What both the instance and the learner agree on.
structure Learner.Sized (n : Nat) (l : Learner) : Prop where
  quorum : l.quorum = paxosQuorum n
  acceptors : l.acceptors = n

theorem instanceHasQuorum_free {n : Nat} {l : Learner} (hl : l.Sized n) :
    instanceHasQuorum l (learnerInstanceNew n) = (learnerInstanceNew n, false) := by
  have hcount (m : Nat) (count : Nat) (valid : Option AcceptAck) :
      countAgreeing l.acceptors 0 (List.replicate m none) count valid = (count, valid) := by
    induction m generalizing count valid with
    | zero => rfl
    | succ m ih => simpa [List.replicate_succ, countAgreeing] using ih count valid
  simp [instanceHasQuorum, learnerInstanceNew, hcount, hl.quorum, paxosQuorum]

theorem instanceHasQuorum_iid (l : Learner) (inst : LearnerInstance) :
    (instanceHasQuorum l inst).1.iid = inst.iid := by
  unfold instanceHasQuorum
  dsimp only
  split_ifs <;> rfl

-- A test that finds no quorum changes nothing. One that finds a quorum leaves a
-- final value.
theorem LearnerInstance.Made.hasQuorum {n : Nat} {p : AcceptAck → Prop} {l : Learner}
    {inst : LearnerInstance} (h : inst.Made n p) (hl : l.Sized n) :
    instanceHasQuorum l inst = (inst, false) ∨
      ∃ ack, instanceHasQuorum l inst = ({ inst with finalValue := some ack }, true) ∧
        { inst with finalValue := some ack }.Made n p ∧ inst.iid ≠ 0 := by
  by_cases hfree : inst.iid = 0
  · rw [h.free hfree]
    exact .inl (instanceHasQuorum_free hl)
  cases hfv : inst.finalValue with
  | some ack =>
      right
      have he : { inst with finalValue := some ack } = inst := by rw [← hfv]
      exact ⟨ack, by rw [he]; simp [instanceHasQuorum, hfv], by rw [he]; exact h, hfree⟩
  | none =>
      have hmem (ack : AcceptAck) (hm : some ack ∈ inst.acks) : ack.iid = inst.iid ∧ p ack := by
        obtain ⟨k, hk⟩ := List.mem_iff_getElem?.mp hm
        exact (h.acks k ack hk).2
      have hclosed (ack : AcceptAck) (hb : ack.iid = inst.iid ∧ Backed n p ack) :
          { inst with finalValue := some ack }.Made n p := by
        refine ⟨h.length, fun h0 => absurd h0 hfree, h.acks, fun final he => ?_⟩
        exact Option.some.inj he ▸ hb
      unfold instanceHasQuorum
      rw [if_neg (by simp [hfv])]
      dsimp only
      by_cases hq : (countAgreeing l.acceptors inst.lastUpdateBallot inst.acks 0 none).1 ≥ l.quorum
      · right
        rw [if_pos hq]
        rw [hl.quorum, paxosQuorum] at hq
        rcases countAgreeing_eq l.acceptors inst.lastUpdateBallot inst.acks 0 none with
          ⟨ack, he, hm, hf⟩ | ⟨hc, ⟨hzero, _⟩ | ⟨ack, he, hm, hb⟩⟩
        · obtain ⟨hiid, hp⟩ := hmem ack hm
          exact ⟨ack, by rw [he], hclosed ack ⟨hiid, hp, .inl hf⟩, hfree⟩
        · omega
        · obtain ⟨hiid, hp⟩ := hmem ack hm
          obtain ⟨group, hcard, hg⟩ :=
            exists_indices_of_countP (agrees inst.lastUpdateBallot) inst.acks
          refine ⟨ack, by rw [he], hclosed ack ⟨hiid, hp, .inr ⟨group, ⟨fun a ha => ?_, by omega⟩,
            fun a ha => ?_⟩⟩, hfree⟩
          · obtain ⟨x, hx, _⟩ := hg a ha
            rw [Finset.mem_range, ← h.length]
            exact (List.getElem?_eq_some_iff.mp hx).1
          · obtain ⟨x, hx, hagree⟩ := hg a ha
            cases x with
            | none => cases hagree
            | some other =>
                obtain ⟨hid, hoiid, hop⟩ := h.acks a other hx
                have hob : other.ballot = inst.lastUpdateBallot := by simpa [agrees] using hagree
                exact ⟨other, hop, hid, hoiid.trans hiid.symm, hob.trans hb.symm⟩
      · exact .inl (by rw [if_neg hq])

theorem LearnerInstance.Made.addAccept {n : Nat} {p : AcceptAck → Prop} {inst : LearnerInstance}
    (h : inst.Made n p) {ack : AcceptAck} (hp : p ack) (hiid : ack.iid = inst.iid)
    (hpos : inst.iid ≠ 0) : (instanceAddAccept inst ack).Made n p := by
  refine ⟨by simpa [instanceAddAccept] using h.length, fun h0 => absurd h0 hpos,
    fun k other ho => ?_, h.final⟩
  simp only [instanceAddAccept, List.getElem?_set] at ho
  split_ifs at ho with hk hlt
  · simp only [Option.some.injEq] at ho
    exact ho ▸ ⟨hk, hiid, hp⟩
  · exact h.acks k other ho

-- An ack for a free instance or for its own never fails an assertion.
theorem LearnerInstance.Made.update {n : Nat} {p : AcceptAck → Prop} {l : Learner}
    {inst : LearnerInstance} (h : inst.Made n p) (hl : l.Sized n) {ack : AcceptAck} (hp : p ack)
    (hpos : 1 ≤ ack.iid) (hid : ack.acceptorId < n)
    (hiid : inst.iid = ack.iid ∨ inst.iid = 0) :
    ∃ inst', updateInstance l inst ack = .ok inst' ∧ inst'.iid = ack.iid ∧ inst'.Made n p := by
  have claim : ∃ start : LearnerInstance, start.iid = ack.iid ∧ start.Made n p ∧
      start = if inst.iid = 0 then { inst with iid := ack.iid, lastUpdateBallot := ack.ballot }
        else inst := by
    by_cases h0 : inst.iid = 0
    · refine ⟨_, ?_, ?_, rfl⟩
      · rw [if_pos h0]
      · rw [if_pos h0, h.free h0]
        refine ⟨by simp [learnerInstanceNew], fun hz => ?_, fun k other ho => ?_, fun _ hz => ?_⟩
        · dsimp only at hz
          omega
        · simp [learnerInstanceNew, List.getElem?_replicate] at ho
        · cases hz
    · rw [if_neg h0]
      exact ⟨inst, hiid.resolve_right h0, h, rfl⟩
  obtain ⟨start, hs, hmade, he⟩ := claim
  unfold updateInstance
  dsimp only
  rw [← he, if_neg (not_not.mpr hs)]
  rcases hmade.hasQuorum hl with hq | ⟨final, hq, hmade', _⟩
  · rw [hq]
    have hlt : ack.acceptorId < start.acks.length := by rw [hmade.length]; exact hid
    have hadd := hmade.addAccept hp hs.symm (by omega)
    dsimp only
    rw [List.getElem?_eq_getElem hlt]
    cases start.acks[ack.acceptorId] with
    | none => exact ⟨_, rfl, hs, hadd⟩
    | some prev =>
        dsimp only
        split_ifs with hge
        · exact ⟨_, rfl, hs, hmade⟩
        · exact ⟨_, rfl, hs, hadd⟩
  · rw [hq]
    exact ⟨_, rfl, hs, hmade'⟩

theorem Backed.mono {n : Nat} {p p' : AcceptAck → Prop} (hp : ∀ ack, p ack → p' ack)
    {ack : AcceptAck} (h : Backed n p ack) : Backed n p' ack := by
  obtain ⟨hack, hf | ⟨group, hmaj, hg⟩⟩ := h
  · exact ⟨hp ack hack, .inl hf⟩
  · refine ⟨hp ack hack, .inr ⟨group, hmaj, fun a ha => ?_⟩⟩
    obtain ⟨other, ho, hrest⟩ := hg a ha
    exact ⟨other, hp other ho, hrest⟩

theorem LearnerInstance.Made.mono {n : Nat} {p p' : AcceptAck → Prop} (hp : ∀ ack, p ack → p' ack)
    {inst : LearnerInstance} (h : inst.Made n p) : inst.Made n p' := by
  refine ⟨h.length, h.free, fun k ack hk => ?_, fun ack hack => ?_⟩
  · obtain ⟨hid, hiid, hpa⟩ := h.acks k ack hk
    exact ⟨hid, hiid, hp ack hpa⟩
  · exact ⟨(h.final ack hack).1, (h.final ack hack).2.mono hp⟩

-- Every instance a learner holds is made of acks with property `p`.
structure Learner.Made (n : Nat) (p : AcceptAck → Prop) (l : Learner) : Prop where
  sized : l.Sized n
  slots : ∀ inst, some inst ∈ l.instances.array → inst.Made n p

theorem Learner.Made.mono {n : Nat} {p p' : AcceptAck → Prop} (hp : ∀ ack, p ack → p' ack)
    {l : Learner} (h : l.Made n p) : l.Made n p' :=
  ⟨h.sized, fun inst hm => (h.slots inst hm).mono hp⟩

theorem carrayAt_mem {α : Type} {a : Carray α} {i : Int} {x : α} (h : carrayAt a i = .ok (some x)) :
    some x ∈ a.array := by
  unfold carrayAt at h
  split at h
  · cases h
  · split at h
    · cases h
    · split at h
      · cases h
      · rename_i slot hslot
        cases h
        exact List.mem_of_getElem? hslot

theorem learnerGetInstance_ok {l : Learner} {iid : Nat} {inst : LearnerInstance}
    (h : learnerGetInstance l iid = .ok inst) :
    carrayAt l.instances (iidToInt iid) = .ok (some inst) ∧ (inst.iid = iid ∨ inst.iid = 0) := by
  unfold learnerGetInstance at h
  cases hat : carrayAt l.instances (iidToInt iid) with
  | error fault =>
      rw [hat] at h
      cases h
  | ok slot =>
      rw [hat] at h
      cases slot with
      | none => cases h
      | some found =>
          change (if found.iid = iid ∨ found.iid = 0 then Except.ok found
            else Except.error Fault.assertion) = Except.ok inst at h
          split_ifs at h with hiid
          cases h
          exact ⟨rfl, hiid⟩

theorem Learner.Made.get {n : Nat} {p : AcceptAck → Prop} {l : Learner} (h : l.Made n p) {iid : Nat}
    {inst : LearnerInstance} (hget : learnerGetInstance l iid = .ok inst) : inst.Made n p :=
  h.slots inst (carrayAt_mem (learnerGetInstance_ok hget).1)

-- A write changes one slot.
theorem forall_slots_write {P : LearnerInstance → Prop} {l : Learner}
    (h : ∀ item, some item ∈ l.instances.array → P item) (iid : Nat) {inst : LearnerInstance}
    (hinst : P inst) :
    ∀ item, some item ∈ (learnerWriteInstance l iid inst).instances.array → P item := by
  intro item hm
  rcases List.mem_or_eq_of_mem_set hm with hm | he
  · exact h item hm
  · exact Option.some.inj he ▸ hinst

theorem Learner.Made.write {n : Nat} {p : AcceptAck → Prop} {l : Learner} (h : l.Made n p)
    (iid : Nat) {inst : LearnerInstance} (hinst : inst.Made n p) :
    (learnerWriteInstance l iid inst).Made n p :=
  ⟨⟨h.sized.quorum, h.sized.acceptors⟩, forall_slots_write h.slots iid hinst⟩

@[simp] theorem learnerArrive_instances (l : Learner) (ack : AcceptAck) :
    (learnerArrive l ack).instances = l.instances := by
  unfold learnerArrive
  dsimp only
  split_ifs <;> rfl

@[simp] theorem learnerArrive_lateStart (l : Learner) (ack : AcceptAck) :
    (learnerArrive l ack).lateStart = false := by
  unfold learnerArrive
  dsimp only
  split_ifs <;> simp_all

@[simp] theorem learnerArrive_currentIid (l : Learner) (ack : AcceptAck) :
    (learnerArrive l ack).currentIid = if l.lateStart then ack.iid else l.currentIid := by
  unfold learnerArrive
  dsimp only
  split_ifs <;> rfl

theorem Learner.Sized.arrive {n : Nat} {l : Learner} (h : l.Sized n) (ack : AcceptAck) :
    (learnerArrive l ack).Sized n := by
  unfold learnerArrive
  dsimp only
  split_ifs <;> exact ⟨h.quorum, h.acceptors⟩

theorem Learner.Made.arrive {n : Nat} {p : AcceptAck → Prop} {l : Learner} (h : l.Made n p)
    (ack : AcceptAck) : (learnerArrive l ack).Made n p :=
  ⟨h.sized.arrive ack, by simpa using h.slots⟩

-- The array after the closing test, and that nothing but `highest_iid_closed` is
-- touched beside it.
theorem learnerNoteClosed_eq (l : Learner) (iid : Nat) (inst : LearnerInstance) :
    ∃ closed, learnerNoteClosed l iid inst =
      { learnerWriteInstance l iid (instanceHasQuorum l inst).1 with
        highestIidClosed := closed } := by
  unfold learnerNoteClosed
  dsimp only
  split_ifs
  · exact ⟨_, rfl⟩
  · exact ⟨(learnerWriteInstance l iid (instanceHasQuorum l inst).1).highestIidClosed, rfl⟩

theorem Learner.Made.noteClosed {n : Nat} {p : AcceptAck → Prop} {l : Learner} (h : l.Made n p)
    (iid : Nat) {inst : LearnerInstance} (hinst : inst.Made n p) :
    (learnerNoteClosed l iid inst).Made n p := by
  obtain ⟨closed, he⟩ := learnerNoteClosed_eq l iid inst
  have hq : (instanceHasQuorum l inst).1.Made n p := by
    rcases hinst.hasQuorum h.sized with hq | ⟨ack, hq, hmade, _⟩
    · rw [hq]
      exact hinst
    · rw [hq]
      exact hmade
  have hw := h.write iid hq
  rw [he]
  exact ⟨⟨hw.sized.quorum, hw.sized.acceptors⟩, hw.slots⟩

-- The acks a learner can be given: of one of the acceptors, for some instance.
structure AcceptAck.Plain (n : Nat) (ack : AcceptAck) : Prop where
  iid : 1 ≤ ack.iid
  acceptorId : ack.acceptorId < n

theorem except_bind_ok {ε α β : Type} {x : Except ε α} {f : α → Except ε β} {b : β}
    (h : x.bind f = .ok b) : ∃ a, x = .ok a ∧ f a = .ok b := by
  cases x with
  | error e => cases h
  | ok a => exact ⟨a, rfl, h⟩

theorem Learner.Made.receive {n : Nat} {p : AcceptAck → Prop} {l l' : Learner} (h : l.Made n p)
    {ack : AcceptAck} (hp : p ack) (hack : ack.Plain n)
    (hr : learnerReceiveAccept l ack = .ok l') : l'.Made n p := by
  have harr := h.arrive ack
  unfold learnerReceiveAccept at hr
  dsimp only at hr
  split_ifs at hr
  · exact Except.ok.inj hr ▸ harr
  · exact Except.ok.inj hr ▸ harr
  · obtain ⟨mid, hupd, hr⟩ := except_bind_ok hr
    obtain ⟨inst, hget, hr⟩ := except_bind_ok hr
    obtain ⟨old, hold, hupd⟩ := except_bind_ok hupd
    obtain ⟨new, hnew, hupd⟩ := except_bind_ok hupd
    obtain ⟨new', he, _, hmade⟩ := (harr.get hold).update harr.sized hp hack.iid hack.acceptorId
      (learnerGetInstance_ok hold).2
    rw [hnew, Except.ok.injEq] at he
    have hmid : mid.Made n p := Except.ok.inj hupd ▸ harr.write ack.iid (he ▸ hmade)
    exact Except.ok.inj hr ▸ hmid.noteClosed ack.iid (hmid.get hget)

-- A delivered ack is the final value of its instance.
theorem Learner.Made.deliver {n : Nat} {p : AcceptAck → Prop} {l l' : Learner} (h : l.Made n p)
    {out : Option AcceptAck} (hr : learnerDeliverNext l = .ok (l', out)) :
    l'.Made n p ∧ ∀ ack ∈ out, Backed n p ack := by
  obtain ⟨inst, hget, hr⟩ := except_bind_ok hr
  have hinst := h.get hget
  rcases hinst.hasQuorum h.sized with hq | ⟨ack, hq, hmade, _⟩
  · rw [hq] at hr
    cases hr
    exact ⟨h, by simp⟩
  · rw [hq] at hr
    cases hr
    refine ⟨?_, fun other ho => Option.some.inj ho ▸ (hmade.final ack rfl).2⟩
    rw [h.sized.acceptors, instanceClear_eq hmade.length]
    have hw := h.write l.currentIid (LearnerInstance.Made.new n p)
    exact ⟨⟨hw.sized.quorum, hw.sized.acceptors⟩, hw.slots⟩

theorem Learner.Made.call {n : Nat} {p : AcceptAck → Prop} {l l' : Learner} (h : l.Made n p)
    {c : LearnerCall} (hc : ∀ ack, c = .receiveAccept ack → p ack ∧ ack.Plain n)
    {out : Option AcceptAck} (hr : learnerCall l c = .ok (l', out)) :
    l'.Made n p ∧ ∀ ack ∈ out, Backed n p ack := by
  cases c with
  | receiveAccept ack =>
      obtain ⟨hp, hplain⟩ := hc ack rfl
      simp only [learnerCall, Except.map] at hr
      split at hr
      · cases hr
      · rename_i mid hmid
        cases hr
        exact ⟨h.receive hp hplain hmid, by simp⟩
  | deliverNext => exact h.deliver hr

-- Every slot of a new learner is a new instance.
theorem learnerNew_slots {cfg : PaxosConfig} {n : Nat} {l : Learner}
    (h : learnerNew cfg n = .ok l) :
    l.Sized n ∧ ∀ inst, some inst ∈ l.instances.array → inst = learnerInstanceNew n := by
  obtain ⟨a, hinit, hl⟩ := except_bind_ok h
  cases hl
  refine ⟨⟨rfl, rfl⟩, fun inst hm => ?_⟩
  by_cases hw : 1 ≤ cfg.learnerInstances
  · obtain ⟨filled, hfill, hring⟩ := (Carray.Filling.new cfg.learnerInstances).fill hw
      (List.replicate cfg.learnerInstances (learnerInstanceNew n)) (by simp)
    have ha : filled = a := Except.ok.inj (hfill.symm.trans hinit)
    rw [← ha] at hm
    change some inst ∈ filled.array at hm
    rw [hring.array, List.nil_append, List.map_replicate] at hm
    exact Option.some.inj (List.eq_of_mem_replicate hm)
  · have h0 : cfg.learnerInstances = 0 := by omega
    have ha : (carrayNew 0 : Carray LearnerInstance) = a := by
      rw [h0] at hinit
      exact Except.ok.inj hinit
    rw [← ha] at hm
    cases hm

theorem learnerNew_made {cfg : PaxosConfig} {n : Nat} (p : AcceptAck → Prop) {l : Learner}
    (h : learnerNew cfg n = .ok l) : l.Made n p := by
  obtain ⟨hsized, hslots⟩ := learnerNew_slots h
  exact ⟨hsized, fun inst hm => hslots inst hm ▸ .new n p⟩

end LibPaxos
