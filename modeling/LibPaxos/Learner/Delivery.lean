import LibPaxos.Learner.Theorems

namespace LibPaxos

-- Two iids of one window with the same slot are the same.
theorem eq_of_mod_eq_of_window {w cur a b : Nat} (ha : cur ≤ a ∧ a < cur + w)
    (hb : cur ≤ b ∧ b < cur + w) (hmod : a % w = b % w) : a = b := by
  have hclose (x y : Nat) (hxy : x ≤ y) (hlt : y - x < w) (hm : x % w = y % w) : x = y := by
    have hdvd : w ∣ y - x := (Nat.modEq_iff_dvd' hxy).mp hm
    have := Nat.eq_zero_of_dvd_of_lt hdvd hlt
    omega
  rcases Nat.le_total a b with hab | hba
  · exact hclose a b hab (by omega) hmod
  · exact (hclose b a hba (by omega) hmod.symm).symm

theorem iidToInt_of_lt {iid : Nat} (h : iid < 2 ^ 31) : iidToInt iid = (iid : Int) := by
  unfold iidToInt
  rw [Int.bmod_eq_of_le] <;> omega

-- The slots of a learner whose window is `w` wide. Slot `k` is free or holds the
-- instance of the window that is congruent to `k`.
structure Learner.Windowed (w n : Nat) (slots : List LearnerInstance) (l : Learner) : Prop where
  ring : l.instances.Ring slots
  width : slots.length = w
  sized : l.Sized n
  made : ∀ inst ∈ slots, inst.Made n fun _ => True
  window : ∀ k inst, slots[k]? = some inst → inst.iid ≠ 0 →
    (l.currentIid ≤ inst.iid ∧ inst.iid < l.currentIid + w) ∧ inst.iid % w = k ∧
      inst.iid + w < 2 ^ 31
  late : l.lateStart = true → ∀ inst ∈ slots, inst.iid = 0
  current : 1 ≤ l.currentIid ∧ l.currentIid < 2 ^ 31

theorem learnerNew_windowed (cfg : PaxosConfig) (n : Nat) (hw : 1 ≤ cfg.learnerInstances) :
    ∃ l, learnerNew cfg n = .ok l ∧ l.lateStart = !cfg.learnerCatchUp ∧ l.currentIid = 1 ∧
      l.Windowed cfg.learnerInstances n
        (List.replicate cfg.learnerInstances (learnerInstanceNew n)) := by
  obtain ⟨a, hfill, hring⟩ := (Carray.Filling.new cfg.learnerInstances).fill hw
    (List.replicate cfg.learnerInstances (learnerInstanceNew n)) (by simp)
  refine ⟨⟨paxosQuorum n, n, !cfg.learnerCatchUp, 1, 1, 1, a⟩, ?_, rfl, rfl, ?_⟩
  · simp only [learnerNew, initializeInstances, carraySize, carrayNew] at hfill ⊢
    rw [hfill]
    rfl
  · rw [List.nil_append] at hring
    refine ⟨hring, by simp, ⟨rfl, rfl⟩, fun inst hm => ?_, fun k inst hk h0 => ?_,
      fun _ inst hm => ?_, by simp⟩
    · rw [List.eq_of_mem_replicate hm]
      exact .new n _
    · rw [List.eq_of_mem_replicate (List.mem_of_getElem? hk)] at h0
      exact absurd rfl h0
    · rw [List.eq_of_mem_replicate hm]
      rfl

variable {w n : Nat} {slots : List LearnerInstance} {l : Learner}

theorem Learner.Windowed.pos (h : l.Windowed w n slots) : 0 < w := h.width ▸ h.ring.pos

-- The assertion of `learner_get_instance` holds for every iid of the window.
theorem Learner.Windowed.get (h : l.Windowed w n slots) {iid : Nat}
    (hin : l.currentIid ≤ iid ∧ iid < l.currentIid + w) (hlt : iid < 2 ^ 31) :
    ∃ inst, slots[iid % w]? = some inst ∧ learnerGetInstance l iid = .ok inst ∧
      (inst.iid = iid ∨ inst.iid = 0) := by
  obtain ⟨inst, hslot, hat⟩ := h.ring.at_eq iid
  rw [h.width] at hslot
  have hiid : inst.iid = iid ∨ inst.iid = 0 := by
    by_cases h0 : inst.iid = 0
    · exact .inr h0
    · obtain ⟨hwin, hmod, _⟩ := h.window _ inst hslot h0
      exact .inl (eq_of_mod_eq_of_window hwin hin hmod)
  refine ⟨inst, hslot, ?_, hiid⟩
  unfold learnerGetInstance
  rw [iidToInt_of_lt hlt, hat]
  exact if_pos hiid

-- A write of an instance for its own iid keeps the window.
theorem Learner.Windowed.write (h : l.Windowed w n slots) {iid : Nat}
    (hin : l.currentIid ≤ iid ∧ iid < l.currentIid + w) (hfit : iid + w < 2 ^ 31)
    (hstart : l.lateStart = false) {inst : LearnerInstance} (hiid : inst.iid = iid)
    (hmade : inst.Made n fun _ => True) :
    (learnerWriteInstance l iid inst).Windowed w n (slots.set (iid % w) inst) := by
  have hring := h.ring.write iid inst
  rw [h.width] at hring
  refine ⟨?_, by simp [h.width], ⟨h.sized.quorum, h.sized.acceptors⟩,
    forall_mem_set h.made hmade _, fun k item hk h0 => ?_, fun hlate => ?_, h.current⟩
  · unfold learnerWriteInstance
    rw [iidToInt_of_lt (by omega)]
    exact hring
  · rw [List.getElem?_set] at hk
    split_ifs at hk with he
    · obtain rfl := Option.some.inj hk
      rw [hiid]
      exact ⟨hin, he, hfit⟩
    · exact h.window k item hk h0
  · rw [show (learnerWriteInstance l iid inst).lateStart = l.lateStart from rfl, hstart] at hlate
    cases hlate

theorem Learner.Windowed.arrive (h : l.Windowed w n slots) {ack : AcceptAck} (hpos : 1 ≤ ack.iid)
    (hfit : ack.iid + w < 2 ^ 31) : (learnerArrive l ack).Windowed w n slots := by
  have hw := h.pos
  refine ⟨by simpa using h.ring, h.width, h.sized.arrive ack, h.made, fun k inst hk h0 => ?_,
    by simp, ?_⟩
  · rw [learnerArrive_currentIid]
    split_ifs with hlate
    · exact absurd (h.late hlate inst (List.mem_of_getElem? hk)) h0
    · exact h.window k inst hk h0
  · rw [learnerArrive_currentIid]
    split_ifs
    · omega
    · exact h.current

-- An ack of one of the acceptors, for an iid far from the end of the range of `int`.
structure AcceptAck.Fits (w n : Nat) (ack : AcceptAck) : Prop where
  plain : ack.Plain n
  room : ack.iid + w < 2 ^ 31

-- An ack for an instance of the window: what is found in its slot, what
-- `learner_update_instance` makes of it and what the closing test leaves there.
theorem Learner.Windowed.take (h : l.Windowed w n slots) {ack : AcceptAck} (hack : ack.Fits w n)
    (hin : (learnerArrive l ack).currentIid ≤ ack.iid ∧
      ack.iid < (learnerArrive l ack).currentIid + w) :
    ∃ old new, slots[ack.iid % w]? = some old ∧
      updateInstance (learnerArrive l ack) old ack = .ok new ∧
      new.iid = ack.iid ∧ new.Made n (fun _ => True) ∧
      learnerReceiveAccept l ack = .ok (learnerNoteClosed
        (learnerWriteInstance (learnerArrive l ack) ack.iid new) ack.iid new) ∧
      (learnerNoteClosed (learnerWriteInstance (learnerArrive l ack) ack.iid new)
        ack.iid new).Windowed w n
          (slots.set (ack.iid % w) (instanceHasQuorum (learnerArrive l ack) new).1) := by
  have harr := h.arrive hack.plain.iid hack.room
  have hroom := hack.room
  have hsize : carraySize (learnerArrive l ack).instances = w := by
    rw [learnerArrive_instances, carraySize, h.ring.size, h.width]
  have hold : ¬ack.iid < (learnerArrive l ack).currentIid := by omega
  have hsum : uint32 ((learnerArrive l ack).currentIid + w) =
      (learnerArrive l ack).currentIid + w := uint32_of_lt (by omega)
  have hfar : ¬ack.iid ≥ (learnerArrive l ack).currentIid + w := by omega
  have hlt : ack.iid < 2 ^ 31 := by omega
  obtain ⟨old, hslot, hget, hiid⟩ := harr.get hin hlt
  obtain ⟨new, hupd, hnew, hmade⟩ := (h.made old (List.mem_of_getElem? hslot)).update harr.sized
    trivial hack.plain.iid hack.plain.acceptorId hiid
  have hmid := harr.write hin hack.room (by simp) hnew hmade
  obtain ⟨again, hslot', hget', _⟩ := hmid.get hin hlt
  have hkw : ack.iid % w < slots.length := h.width.symm ▸ Nat.mod_lt _ h.pos
  obtain rfl : new = again := by
    rw [List.getElem?_set_self hkw] at hslot'
    exact Option.some.inj hslot'
  obtain ⟨closed, hnote⟩ := learnerNoteClosed_eq
    (learnerWriteInstance (learnerArrive l ack) ack.iid new) ack.iid new
  have hfinal :
      (instanceHasQuorum (learnerWriteInstance (learnerArrive l ack) ack.iid new) new).1.Made n
        (fun _ => True) ∧
      (instanceHasQuorum (learnerWriteInstance (learnerArrive l ack) ack.iid new) new).1.iid =
        ack.iid := by
    rcases hmade.hasQuorum hmid.sized with hq | ⟨final, hq, hmade', _⟩
    · rw [hq]
      exact ⟨hmade, hnew⟩
    · rw [hq]
      exact ⟨hmade', hnew⟩
  have hlast := hmid.write hin hack.room (by simp [learnerWriteInstance]) hfinal.2 hfinal.1
  rw [List.set_set] at hlast
  refine ⟨old, new, hslot, hupd, hnew, hmade, ?_, ?_⟩
  · simp only [learnerReceiveAccept, hold, if_false, hsize, hsum, hfar, learnerUpdateInstance]
    rw [hget]
    change (updateInstance (learnerArrive l ack) old ack >>= _) >>= _ = _
    rw [hupd]
    change learnerGetInstance _ _ >>= _ = _
    rw [hget']
    rfl
  · rw [hnote]
    exact ⟨hlast.1, hlast.2, ⟨hlast.3.1, hlast.3.2⟩, hlast.4, hlast.5, hlast.6, hlast.7⟩

-- An ack outside the window only moves `highest_iid_seen` and the start.
theorem Learner.Windowed.drop (h : l.Windowed w n slots) {ack : AcceptAck} (hack : ack.Fits w n)
    (hout : ¬((learnerArrive l ack).currentIid ≤ ack.iid ∧
      ack.iid < (learnerArrive l ack).currentIid + w)) :
    learnerReceiveAccept l ack = .ok (learnerArrive l ack) := by
  have hroom := hack.room
  have hsize : carraySize (learnerArrive l ack).instances = w := by
    rw [learnerArrive_instances, carraySize, h.ring.size, h.width]
  by_cases hold : ack.iid < (learnerArrive l ack).currentIid
  · simp only [learnerReceiveAccept, hold, if_true]
  · have hsum : uint32 ((learnerArrive l ack).currentIid + w) =
        (learnerArrive l ack).currentIid + w := uint32_of_lt (by omega)
    have hfar : ack.iid ≥ (learnerArrive l ack).currentIid + w := by omega
    simp only [learnerReceiveAccept, hold, if_false, hsize, hsum, hfar, if_true]

-- An ack is dropped or changes the slot of its own instance only.
theorem Learner.Windowed.receive (h : l.Windowed w n slots) {ack : AcceptAck}
    (hack : ack.Fits w n) :
    ∃ l' slots', learnerReceiveAccept l ack = .ok l' ∧ l'.Windowed w n slots' ∧
      l'.lateStart = false ∧
      l'.currentIid = (if l.lateStart then ack.iid else l.currentIid) ∧
      (slots' = slots ∨ ∃ inst, slots' = slots.set (ack.iid % w) inst ∧ inst.iid = ack.iid ∧
        (l'.currentIid ≤ ack.iid ∧ ack.iid < l'.currentIid + w)) := by
  have hcur := learnerArrive_currentIid l ack
  by_cases hin : (learnerArrive l ack).currentIid ≤ ack.iid ∧
      ack.iid < (learnerArrive l ack).currentIid + w
  · obtain ⟨old, new, _, _, hnew, _, hr, hwin⟩ := h.take hack hin
    obtain ⟨closed, hnote⟩ := learnerNoteClosed_eq
      (learnerWriteInstance (learnerArrive l ack) ack.iid new) ack.iid new
    refine ⟨_, _, hr, hwin, ?_, ?_, .inr ⟨_, rfl, ?_, ?_⟩⟩
    · rw [hnote]
      simp [learnerWriteInstance]
    · rw [hnote]
      exact hcur
    · rw [instanceHasQuorum_iid]
      exact hnew
    · rw [hnote]
      exact hin
  · have harr := h.arrive hack.plain.iid hack.room
    exact ⟨_, slots, h.drop hack hin, harr, by simp, hcur, .inl rfl⟩

-- The instance is closed, with this ack as its final value.
def Learner.ClosedWith (l : Learner) (iid : Nat) (ack : AcceptAck) : Prop :=
  ∃ inst, carrayAt l.instances (iidToInt iid) = .ok (some inst) ∧ inst.iid = iid ∧
    (instanceHasQuorum l inst).2 = true ∧ (instanceHasQuorum l inst).1.finalValue = some ack

theorem Learner.Windowed.closedWith_iff (h : l.Windowed w n slots) {iid : Nat} (hlt : iid < 2 ^ 31)
    (ack : AcceptAck) :
    l.ClosedWith iid ack ↔ ∃ inst, slots[iid % w]? = some inst ∧ inst.iid = iid ∧
      (instanceHasQuorum l inst).2 = true ∧ (instanceHasQuorum l inst).1.finalValue = some ack := by
  obtain ⟨found, hslot, hat⟩ := h.ring.at_eq iid
  rw [h.width] at hslot
  unfold Learner.ClosedWith
  rw [iidToInt_of_lt hlt, hat, hslot]
  simp only [Except.ok.injEq, Option.some.injEq]

-- The state after the delivery of the current instance.
def Learner.advance (l : Learner) (n : Nat) : Learner :=
  { learnerWriteInstance l l.currentIid (learnerInstanceNew n) with
    currentIid := l.currentIid + 1 }

theorem Learner.Windowed.advance (h : l.Windowed w n slots) {inst : LearnerInstance}
    (hslot : slots[l.currentIid % w]? = some inst) (hiid : inst.iid = l.currentIid) :
    (l.advance n).Windowed w n (slots.set (l.currentIid % w) (learnerInstanceNew n)) := by
  have hcur := h.current
  have hne : inst.iid ≠ 0 := by omega
  obtain ⟨_, _, hroom⟩ := h.window _ inst hslot hne
  have hring := h.ring.write l.currentIid (learnerInstanceNew n)
  rw [h.width] at hring
  refine ⟨?_, by simp [h.width], ⟨h.sized.quorum, h.sized.acceptors⟩,
    forall_mem_set h.made (.new n _) _, fun k item hk h0 => ?_, fun hlate => ?_, ?_⟩
  · unfold Learner.advance learnerWriteInstance
    rw [iidToInt_of_lt hcur.2]
    exact hring
  · rw [List.getElem?_set] at hk
    split_ifs at hk with he
    · exact absurd (Option.some.inj hk ▸ rfl) h0
    · -- The slot is not the current one, so its iid is above the current iid.
      obtain ⟨hwin, hmod, hfit⟩ := h.window k item hk h0
      have hgt : item.iid ≠ l.currentIid := by
        intro heq
        rw [heq] at hmod
        exact he hmod
      change (l.currentIid + 1 ≤ item.iid ∧ item.iid < l.currentIid + 1 + w) ∧ _
      omega
  · exact absurd (h.late hlate inst (List.mem_of_getElem? hslot)) hne
  · change 1 ≤ l.currentIid + 1 ∧ l.currentIid + 1 < 2 ^ 31
    have := h.pos
    omega

theorem Learner.Windowed.deliver (h : l.Windowed w n slots) :
    (learnerDeliverNext l = .ok (l, none) ∧ ∀ ack, ¬l.ClosedWith l.currentIid ack) ∨
      ∃ ack, learnerDeliverNext l = .ok (l.advance n, some ack) ∧
        l.ClosedWith l.currentIid ack ∧ ack.iid = l.currentIid ∧
        (l.advance n).Windowed w n (slots.set (l.currentIid % w) (learnerInstanceNew n)) ∧
        ∃ inst, slots[l.currentIid % w]? = some inst ∧ inst.iid = l.currentIid := by
  have hcur := h.current
  obtain ⟨inst, hslot, hget, hiid⟩ := h.get ⟨Nat.le_refl _, Nat.lt_add_of_pos_right h.pos⟩ hcur.2
  have hmade := h.made inst (List.mem_of_getElem? hslot)
  unfold learnerDeliverNext
  rw [hget]
  rcases hmade.hasQuorum h.sized with hq | ⟨ack, hq, hmade', hne⟩
  · left
    refine ⟨?_, fun ack hclosed => ?_⟩
    · simp only [bind, Except.bind, hq]
      rfl
    · obtain ⟨other, hslot', _, hother, _⟩ := (h.closedWith_iff hcur.2 ack).mp hclosed
      rw [hslot, Option.some.injEq] at hslot'
      rw [← hslot', hq] at hother
      cases hother
  · right
    have hsame : inst.iid = l.currentIid := hiid.resolve_right hne
    obtain ⟨_, _, hroom⟩ := h.window _ inst hslot hne
    refine ⟨ack, ?_, ?_, (hmade'.final ack rfl).1.trans hsame, h.advance hslot hsame, inst, hslot,
      hsame⟩
    · have hnext : uint32 (l.currentIid + 1) = l.currentIid + 1 := uint32_of_lt (by omega)
      simp only [bind, Except.bind, hq]
      rw [h.sized.acceptors, instanceClear_eq hmade'.length]
      change Except.ok ({ learnerWriteInstance l l.currentIid (learnerInstanceNew n) with
        currentIid := uint32 (l.currentIid + 1) }, some ack) = _
      rw [hnext]
      rfl
    · exact (h.closedWith_iff hcur.2 ack).mpr ⟨inst, hslot, hsame, by rw [hq], by rw [hq]⟩

-- Delivering one instance neither opens nor closes another one.
theorem Learner.Windowed.advance_closedWith (h : l.Windowed w n slots) {inst : LearnerInstance}
    (hslot : slots[l.currentIid % w]? = some inst) (hiid : inst.iid = l.currentIid) {iid : Nat}
    (hgt : l.currentIid < iid) (hlt : iid < 2 ^ 31) (ack : AcceptAck) :
    (l.advance n).ClosedWith iid ack ↔ l.ClosedWith iid ack := by
  have hadv := h.advance hslot hiid
  have hquorum (item : LearnerInstance) :
      instanceHasQuorum (l.advance n) item = instanceHasQuorum l item := rfl
  rw [hadv.closedWith_iff hlt, h.closedWith_iff hlt]
  by_cases hk : l.currentIid % w = iid % w
  · have hkw : l.currentIid % w < slots.length := h.width.symm ▸ Nat.mod_lt _ h.pos
    rw [← hk, List.getElem?_set_self hkw, hslot]
    constructor
    · rintro ⟨item, he, hi, _⟩
      rw [← Option.some.inj he] at hi
      have : (learnerInstanceNew n).iid = 0 := rfl
      omega
    · rintro ⟨item, he, hi, _⟩
      rw [← Option.some.inj he] at hi
      omega
  · rw [List.getElem?_set_ne hk]
    simp only [hquorum]

-- These acks are the final values of the closed instances from the current one on,
-- up to the first that is not closed.
structure Learner.MaximalRun (l : Learner) (acks : List AcceptAck) : Prop where
  closed : ∀ j ack, acks[j]? = some ack → l.ClosedWith (l.currentIid + j) ack
  iids : acks.map AcceptAck.iid = List.range' l.currentIid acks.length
  stops : ∀ ack, ¬l.ClosedWith (l.currentIid + acks.length) ack

def LearnerInstance.occupied (inst : LearnerInstance) : Bool := inst.iid ≠ 0

-- Each delivery frees a slot, so the loop ends before all slots are free.
theorem Learner.Windowed.deliverNextClosed (h : l.Windowed w n slots) (fuel : Nat)
    (hfuel : slots.countP LearnerInstance.occupied < fuel) :
    ∃ l' acks slots', learnerDeliverNextClosed fuel l = .ok (some (l', acks)) ∧
      l'.Windowed w n slots' ∧ l'.currentIid = l.currentIid + acks.length ∧ l.MaximalRun acks := by
  induction fuel generalizing l slots with
  | zero => omega
  | succ fuel ih =>
      rcases h.deliver with ⟨hnone, hopen⟩ | ⟨ack, hsome, hclosed, hiid, hadv, inst, hslot, hsame⟩
      · refine ⟨l, [], slots, ?_, h, rfl, by simp, rfl, hopen⟩
        simp only [learnerDeliverNextClosed, hnone]
        rfl
      · have hlt : l.currentIid % w < slots.length := (List.getElem?_eq_some_iff.mp hslot).1
        have hget : slots[l.currentIid % w] = inst := (List.getElem?_eq_some_iff.mp hslot).2
        have hocc : inst.occupied = true := by
          have := h.current
          simp only [LearnerInstance.occupied, decide_eq_true_eq]
          omega
        have hpos : 0 < slots.countP LearnerInstance.occupied :=
          List.countP_pos_iff.mpr ⟨inst, List.mem_of_getElem? hslot, hocc⟩
        have hcount : (slots.set (l.currentIid % w) (learnerInstanceNew n)).countP
            LearnerInstance.occupied = slots.countP LearnerInstance.occupied - 1 := by
          rw [List.countP_set hlt, hget, if_pos hocc]
          rfl
        obtain ⟨l', acks, slots', hloop, hw', hcur, hrun⟩ := ih hadv (by omega)
        have hbound := hw'.current.2
        have hnext : (l.advance n).currentIid = l.currentIid + 1 := rfl
        have hshift {iid : Nat} (hgt : l.currentIid < iid) (hle : iid ≤ l'.currentIid)
            (other : AcceptAck) : (l.advance n).ClosedWith iid other ↔ l.ClosedWith iid other :=
          h.advance_closedWith hslot hsame hgt (by omega) other
        refine ⟨l', ack :: acks, slots', ?_, hw', ?_, ?_, ?_, ?_⟩
        · simp only [learnerDeliverNextClosed, hsome]
          change (learnerDeliverNextClosed fuel (l.advance n)).bind _ = _
          rw [hloop]
          rfl
        · rw [List.length_cons]
          omega
        · intro j other hj
          cases j with
          | zero =>
              rw [List.getElem?_cons_zero, Option.some.injEq] at hj
              exact hj ▸ hclosed
          | succ j =>
              rw [List.getElem?_cons_succ] at hj
              have hjlt := (List.getElem?_eq_some_iff.mp hj).1
              have hc := (hshift (by omega) (by omega) other).mp (hrun.closed j other hj)
              rw [show l.currentIid + (j + 1) = (l.advance n).currentIid + j by omega]
              exact hc
        · rw [List.map_cons, List.length_cons, List.range'_succ, hiid, hrun.iids]
          rfl
        · intro other ho
          rw [List.length_cons, show l.currentIid + (acks.length + 1) =
            (l.advance n).currentIid + acks.length by omega] at ho
          exact hrun.stops other ((hshift (by omega) (by omega) other).mpr ho)

def LearnerCall.Fits (w n : Nat) : LearnerCall → Prop
  | .receiveAccept ack => ack.Fits w n
  | .deliverNext => True

instance LearnerCall.Fits.decidable (w n : Nat) : (c : LearnerCall) → Decidable (c.Fits w n)
  | .receiveAccept ack =>
      decidable_of_iff ((1 ≤ ack.iid ∧ ack.acceptorId < n) ∧ ack.iid + w < 2 ^ 31)
        ⟨fun h => ⟨⟨h.1.1, h.1.2⟩, h.2⟩, fun h => ⟨⟨h.plain.iid, h.plain.acceptorId⟩, h.room⟩⟩
  | .deliverNext => isTrue trivial

-- Where the delivery starts when catch-up is off: at the first ack received.
def firstIid : List LearnerCall → Nat
  | [] => 1
  | .receiveAccept ack :: _ => ack.iid
  | .deliverNext :: rest => firstIid rest

-- A slot in use keeps its instance until that is delivered. Only acks for the same
-- iid change it.
def Learner.Keeps (w : Nat) (l : Learner) (c : LearnerCall) (l' : Learner)
    (out : Option AcceptAck) : Prop :=
  ∀ k < w, ∀ inst, carrayAt l.instances k = .ok (some inst) → inst.iid ≠ 0 →
    carrayAt l'.instances k = .ok (some inst) ∨
    (∃ ack inst', c = .receiveAccept ack ∧ ack.iid = inst.iid ∧
      carrayAt l'.instances k = .ok (some inst') ∧ inst'.iid = inst.iid) ∨
    ∃ ack, out = some ack ∧ ack.iid = inst.iid

structure DeliveryContract (w n start : Nat) (l : Learner) (delivered : List AcceptAck) : Prop where
  iids : delivered.map AcceptAck.iid = List.range' start delivered.length
  current : l.currentIid = start + delivered.length
  slot : ∀ k < w, ∃ inst, carrayAt l.instances k = .ok (some inst) ∧ (inst.iid ≠ 0 →
    (l.currentIid ≤ inst.iid ∧ inst.iid < l.currentIid + w) ∧ inst.iid % w = k)
  next : ∀ c : LearnerCall, c.Fits w n → ∃ l' out, learnerCall l c = .ok (l', out) ∧
    l.Keeps w c l' out
  loop : ∀ fuel, w < fuel → ∃ l' acks, learnerDeliverNextClosed fuel l = .ok (some (l', acks)) ∧
    l.MaximalRun acks

theorem Learner.Windowed.at_iff (h : l.Windowed w n slots) {k : Nat} (hk : k < w)
    (inst : LearnerInstance) :
    carrayAt l.instances k = .ok (some inst) ↔ slots[k]? = some inst := by
  obtain ⟨found, hslot, hat⟩ := h.ring.at_eq k
  rw [h.width, Nat.mod_eq_of_lt hk] at hslot
  rw [hat, hslot]
  simp only [Except.ok.injEq]

theorem Learner.Windowed.call (h : l.Windowed w n slots) {c : LearnerCall} (hc : c.Fits w n) :
    ∃ l' out slots', learnerCall l c = .ok (l', out) ∧ l'.Windowed w n slots' ∧
      l.Keeps w c l' out ∧
      ((∃ ack, c = .receiveAccept ack ∧ out = none ∧ l'.lateStart = false ∧
          l'.currentIid = if l.lateStart then ack.iid else l.currentIid) ∨
        (c = .deliverNext ∧ l'.lateStart = l.lateStart ∧
          (out = none ∧ l'.currentIid = l.currentIid ∨
            ∃ ack, out = some ack ∧ ack.iid = l.currentIid ∧ l.lateStart = false ∧
              l'.currentIid = l.currentIid + 1))) := by
  cases c with
  | receiveAccept ack =>
      obtain ⟨l', slots', hr, hw', hlate, hcur, hslots⟩ := h.receive hc
      refine ⟨l', none, slots', by simp [learnerCall, hr, Except.map], hw', ?_,
        .inl ⟨ack, rfl, rfl, hlate, hcur⟩⟩
      intro k hk inst hat h0
      rw [h.at_iff hk] at hat
      rw [hw'.at_iff hk]
      rcases hslots with rfl | ⟨new, rfl, hnew, hin⟩
      · exact .inl hat
      · by_cases he : ack.iid % w = k
        · -- A slot in use belongs to one iid of the window, so the ack is its own.
          have hsame : ack.iid = inst.iid := by
            obtain ⟨hwin, hmod, _⟩ := h.window k inst hat h0
            have hlate' : ¬l.lateStart = true := fun hl =>
              h0 (h.late hl inst (List.mem_of_getElem? hat))
            rw [if_neg hlate'] at hcur
            rw [hcur] at hin
            exact eq_of_mod_eq_of_window hin hwin (he.trans hmod.symm)
          have hlt : ack.iid % w < slots.length := h.width.symm ▸ Nat.mod_lt _ h.pos
          refine .inr (.inl ⟨ack, new, rfl, hsame, ?_, hnew.trans hsame⟩)
          rw [hw'.at_iff hk, ← he, List.getElem?_set_self hlt]
        · exact .inl (by rw [List.getElem?_set_ne he, hat])
  | deliverNext =>
      rcases h.deliver with ⟨hnone, _⟩ | ⟨ack, hsome, _, hiid, hadv, inst, hslot, hsame⟩
      · refine ⟨l, none, slots, hnone, h, fun k _ inst hat _ => .inl hat,
          .inr ⟨rfl, rfl, .inl ⟨rfl, rfl⟩⟩⟩
      · have hne : inst.iid ≠ 0 := by
          have := h.current
          omega
        have hlate : l.lateStart = false := by
          by_contra hl
          exact hne (h.late (by simpa using hl) inst (List.mem_of_getElem? hslot))
        refine ⟨l.advance n, some ack, _, hsome, hadv, ?_,
          .inr ⟨rfl, rfl, .inr ⟨ack, rfl, hiid, hlate, rfl⟩⟩⟩
        intro k hk item hat h0
        rw [h.at_iff hk] at hat
        rw [hadv.at_iff hk]
        by_cases he : l.currentIid % w = k
        · rw [he, hat, Option.some.injEq] at hslot
          exact .inr (.inr ⟨ack, rfl, by rw [hiid, hslot, hsame]⟩)
        · exact .inl (by rw [List.getElem?_set_ne he, hat])

-- The run lemma. A learner that has not started yet starts at the first ack.
theorem Learner.Windowed.run (h : l.Windowed w n slots)
    (hlate : l.lateStart = true → l.currentIid = 1) (calls : List LearnerCall)
    (hfits : ∀ c ∈ calls, c.Fits w n) :
    ∃ l' delivered slots', learnerRun l calls = .ok (l', delivered) ∧ l'.Windowed w n slots' ∧
      delivered.map AcceptAck.iid =
        List.range' (if l.lateStart then firstIid calls else l.currentIid) delivered.length ∧
      l'.currentIid =
        (if l.lateStart then firstIid calls else l.currentIid) + delivered.length := by
  induction calls generalizing l slots with
  | nil =>
      refine ⟨l, [], slots, rfl, h, rfl, ?_⟩
      by_cases hl : l.lateStart = true
      · simp [hl, firstIid, hlate hl]
      · simp [hl]
  | cons c rest ih =>
      obtain ⟨mid, out, slots', hcall, hmid, _, hcase⟩ := h.call (hfits c List.mem_cons_self)
      have hrest (c : LearnerCall) (hm : c ∈ rest) := hfits c (List.mem_cons_of_mem _ hm)
      have hrun (l' : Learner) (delivered : List AcceptAck)
          (hr : learnerRun mid rest = .ok (l', delivered)) :
          learnerRun l (c :: rest) = .ok (l', out.toList ++ delivered) := by
        simp only [learnerRun]
        rw [hcall]
        change (learnerRun mid rest).bind _ = _
        rw [hr]
        rfl
      rcases hcase with ⟨ack, rfl, rfl, hstart, hcur⟩ | ⟨rfl, hsame, hout⟩
      · obtain ⟨l', delivered, last, hr, hw', hiids, hend⟩ := ih hmid (by simp [hstart]) hrest
        rw [hstart, if_neg (by simp), hcur] at hiids hend
        exact ⟨l', delivered, last, hrun l' delivered hr, hw', hiids, hend⟩
      · rcases hout with ⟨rfl, hcur⟩ | ⟨ack, rfl, hiid, hnot, hcur⟩
        · obtain ⟨l', delivered, last, hr, hw', hiids, hend⟩ :=
            ih hmid (by rw [hsame, hcur]; exact hlate) hrest
          rw [hsame, hcur] at hiids hend
          exact ⟨l', delivered, last, hrun l' delivered hr, hw', hiids, hend⟩
        · obtain ⟨l', delivered, last, hr, hw', hiids, hend⟩ :=
            ih hmid (by simp [hsame, hnot]) hrest
          rw [hsame, hnot, if_neg (by simp), hcur] at hiids hend
          refine ⟨l', ack :: delivered, last, hrun l' delivered hr, hw', ?_, ?_⟩
          · rw [hnot, if_neg (by simp), List.map_cons, List.length_cons, List.range'_succ, hiid,
              hiids]
          · rw [hnot, if_neg (by simp), List.length_cons]
            omega

-- Any acks and deliveries, for a new learner with any window.
theorem learner_delivers_in_order (cfg : PaxosConfig) (n : Nat) (hw : 1 ≤ cfg.learnerInstances)
    (calls : List LearnerCall) (hfits : ∀ c ∈ calls, c.Fits cfg.learnerInstances n) :
    ∃ l₀ l delivered, learnerNew cfg n = .ok l₀ ∧ learnerRun l₀ calls = .ok (l, delivered) ∧
      DeliveryContract cfg.learnerInstances n
        (if cfg.learnerCatchUp then 1 else firstIid calls) l delivered := by
  obtain ⟨l₀, hnew, hlate, hcur, hinit⟩ := learnerNew_windowed cfg n hw
  obtain ⟨l, delivered, slots, hrun, h, hiids, hend⟩ := hinit.run (fun _ => hcur) calls hfits
  have hstart : (if l₀.lateStart then firstIid calls else l₀.currentIid) =
      if cfg.learnerCatchUp then 1 else firstIid calls := by
    rw [hlate, hcur]
    cases cfg.learnerCatchUp <;> rfl
  rw [hstart] at hiids hend
  refine ⟨l₀, l, delivered, hnew, hrun, hiids, hend, fun k hk => ?_, fun c hc => ?_,
    fun fuel hfuel => ?_⟩
  · have hlt : k < slots.length := h.width.symm ▸ hk
    have hslot : slots[k]? = some slots[k] := List.getElem?_eq_getElem hlt
    refine ⟨slots[k], (h.at_iff hk _).mpr hslot, fun h0 => ?_⟩
    obtain ⟨hwin, hmod, _⟩ := h.window k _ hslot h0
    exact ⟨hwin, hmod⟩
  · obtain ⟨l', out, _, hcall, _, hkeeps, _⟩ := h.call hc
    exact ⟨l', out, hcall, hkeeps⟩
  · have hle : slots.countP LearnerInstance.occupied ≤ slots.length := List.countP_le_length
    rw [h.width] at hle
    obtain ⟨l', acks, _, hloop, _, _, hmax⟩ := h.deliverNextClosed fuel (by omega)
    exact ⟨l', acks, hloop, hmax⟩

-- A late learner with two slots. The second instance closes before the first, an
-- old ack and one too far ahead are dropped.
def lateCalls : List LearnerCall :=
  [.deliverNext, .receiveAccept ⟨0, 5, 11, 11, false, [1]⟩,
    .receiveAccept ⟨1, 6, 11, 11, false, [2]⟩, .receiveAccept ⟨2, 6, 11, 11, false, [2]⟩,
    .deliverNext, .receiveAccept ⟨2, 3, 11, 11, false, [3]⟩,
    .receiveAccept ⟨2, 7, 11, 11, false, [3]⟩, .receiveAccept ⟨1, 5, 11, 11, false, [1]⟩,
    .deliverNext, .deliverNext]

theorem learner_delivers_in_order_late : ∃ l₀ l delivered,
    learnerNew ⟨2, false, 1⟩ 3 = .ok l₀ ∧ learnerRun l₀ lateCalls = .ok (l, delivered) ∧
      DeliveryContract 2 3 5 l delivered :=
  learner_delivers_in_order ⟨2, false, 1⟩ 3 (by decide) lateCalls (by decide)

example : (learnerNew ⟨2, false, 1⟩ 3).bind (fun l => (learnerRun l lateCalls).map
    fun (_, delivered) => delivered.map AcceptAck.iid) = .ok [5, 6] := by
  decide

end LibPaxos
