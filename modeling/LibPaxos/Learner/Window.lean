import LibPaxos.Learner.Tally

namespace LibPaxos

-- The index that `carray_at` computes for an iid in an array of `w` slots.
def slotOf (w iid : Nat) : Int := Int.tmod (iidToInt iid) w

-- The iids whose index is 0. From 2 ^ 31 on it counts down to 2 ^ 32.
def SlotZero (w iid : Nat) : Prop := if iid < 2 ^ 31 then w ∣ iid else w ∣ 2 ^ 32 - iid

theorem slotOf_low {w iid : Nat} (h : iid < 2 ^ 31) : slotOf w iid = ((iid % w : Nat) : Int) := by
  rw [slotOf, iidToInt_of_lt h, Int.tmod_eq_emod_of_nonneg (by omega)]
  simp

theorem slotOf_high {w iid : Nat} (hge : 2 ^ 31 ≤ iid) (hlt : iid < 2 ^ 32) :
    slotOf w iid = -(((2 ^ 32 - iid) % w : Nat) : Int) := by
  generalize hd : 2 ^ 32 - iid = d
  have hneg : iidToInt iid = -(d : Int) := by
    have hshift : (iid : Int) = -(d : Int) + ((2 ^ 32 : Nat) : Int) := by omega
    unfold iidToInt
    rw [hshift, Int.add_bmod_right, Int.bmod_eq_of_le] <;> omega
  rw [slotOf, hneg, Int.neg_tmod, Int.tmod_eq_emod_of_nonneg (by omega), Int.natCast_emod]

theorem slotOf_nonneg_iff {w iid : Nat} (hlt : iid < 2 ^ 32) :
    0 ≤ slotOf w iid ↔ iid < 2 ^ 31 ∨ w ∣ 2 ^ 32 - iid := by
  by_cases hlow : iid < 2 ^ 31
  · rw [slotOf_low hlow]
    exact iff_of_true (by omega) (.inl hlow)
  · rw [slotOf_high (by omega) hlt, Nat.dvd_iff_mod_eq_zero]
    omega

theorem slotOf_lt {w iid : Nat} (hw : 1 ≤ w) (hlt : iid < 2 ^ 32) : slotOf w iid < w := by
  by_cases hlow : iid < 2 ^ 31
  · have := Nat.mod_lt iid hw
    rw [slotOf_low hlow]
    omega
  · rw [slotOf_high (by omega) hlt]
    omega

theorem slotOf_eq_zero_iff {w iid : Nat} (hlt : iid < 2 ^ 32) :
    slotOf w iid = 0 ↔ SlotZero w iid := by
  unfold SlotZero
  split_ifs with hlow
  · rw [slotOf_low hlow, Nat.dvd_iff_mod_eq_zero]
    omega
  · rw [slotOf_high (by omega) hlt, Nat.dvd_iff_mod_eq_zero]
    omega

-- Two iids of one window on the same side of 2 ^ 31 have different indices.
theorem slotOf_inj {w cur i j : Nat} (hi : cur ≤ i ∧ i < cur + w) (hj : cur ≤ j ∧ j < cur + w)
    (hi32 : i < 2 ^ 32) (hj32 : j < 2 ^ 32) (hside : i < 2 ^ 31 ↔ j < 2 ^ 31)
    (h : slotOf w i = slotOf w j) : i = j := by
  by_cases hlow : i < 2 ^ 31
  · rw [slotOf_low hlow, slotOf_low (hside.mp hlow)] at h
    exact eq_of_mod_eq_of_window hi hj (by omega)
  · have hlow' : ¬j < 2 ^ 31 := fun hj => hlow (hside.mpr hj)
    rw [slotOf_high (by omega) hi32, slotOf_high (by omega) hj32] at h
    -- The distances to 2 ^ 32 lie in one window too.
    have hwin : (2 ^ 32 - i) = 2 ^ 32 - j :=
      @eq_of_mod_eq_of_window w (2 ^ 32 - max i j) _ _ (by omega) (by omega) (by omega)
    omega

-- The index of `iid` is in range, and no other iid of the window has it.
def Indexed (w cur iid : Nat) : Prop :=
  (0 ≤ slotOf w iid ∧ slotOf w iid < w) ∧
    ∀ j < 2 ^ 32, (cur ≤ j ∧ j < cur + w) → j ≠ iid → slotOf w j ≠ slotOf w iid

-- What that means for the number: it is below 2 ^ 31 or `w` divides its distance to
-- 2 ^ 32, and only one iid of the window has index 0.
def Indexable (w cur iid : Nat) : Prop :=
  (iid < 2 ^ 31 ∨ w ∣ 2 ^ 32 - iid) ∧
    (SlotZero w iid → ∀ j < 2 ^ 32, (cur ≤ j ∧ j < cur + w) → SlotZero w j → j = iid)

theorem indexed_iff {w cur iid : Nat} (hw : 1 ≤ w) (hin : cur ≤ iid ∧ iid < cur + w)
    (hlt : iid < 2 ^ 32) : Indexed w cur iid ↔ Indexable w cur iid := by
  unfold Indexed Indexable
  rw [slotOf_nonneg_iff hlt, and_iff_left (slotOf_lt hw hlt)]
  refine and_congr_right fun hnonneg =>
    ⟨fun h hzero j hj hjin hjz => ?_, fun h j hj hjin hne he => ?_⟩
  · by_contra hne
    apply h j hj hjin hne
    rw [(slotOf_eq_zero_iff hj).mpr hjz, (slotOf_eq_zero_iff hlt).mpr hzero]
  · by_cases hside : j < 2 ^ 31 ↔ iid < 2 ^ 31
    · exact hne (slotOf_inj hjin hin hj hlt hside he)
    · -- One index is not negative and the other not positive, so both are 0.
      have hzero : slotOf w iid = 0 := by
        by_cases hlow : iid < 2 ^ 31
        · have hhigh : 2 ^ 31 ≤ j := by omega
          rw [slotOf_high hhigh hj, slotOf_low hlow] at he
          rw [slotOf_low hlow]
          omega
        · have hlow' : j < 2 ^ 31 := by omega
          rw [slotOf_high (by omega) hlt, slotOf_low hlow'] at he
          rw [slotOf_high (by omega) hlt]
          omega
      have hjz : SlotZero w j := (slotOf_eq_zero_iff hj).mp (he.trans hzero)
      exact hne (h ((slotOf_eq_zero_iff hlt).mp hzero) j hj hjin hjz)

-- Acks that close an instance at no ballot.
structure Unclosed (n : Nat) (acks : List (Option AcceptAck)) : Prop where
  final : ∀ ack, some ack ∈ acks → ack.isFinal = false
  count : ∀ ballot, acks.countP (agrees ballot) < paxosQuorum n

theorem countAgreeing_lt_iff {n q : Nat} (hq : q ≤ n + 1) (ballot : Nat)
    (acks : List (Option AcceptAck)) (count : Nat) (valid : Option AcceptAck) :
    (countAgreeing n ballot acks count valid).1 < q ↔
      (∀ ack, some ack ∈ acks → ack.ballot = ballot → ack.isFinal = false) ∧
        count + acks.countP (agrees ballot) < q := by
  induction acks generalizing count valid with
  | nil => simp [countAgreeing]
  | cons entry rest ih =>
      by_cases hagree : agrees ballot entry = true
      · cases entry with
        | none => cases hagree
        | some ack =>
            have hb : ack.ballot = ballot := by simpa [agrees] using hagree
            by_cases hfin : ack.isFinal = true
            · refine iff_of_false ?_ fun h => ?_
              · simp only [countAgreeing, hb, hfin, if_true]
                omega
              · rw [h.1 ack List.mem_cons_self hb] at hfin
                cases hfin
            · have hfalse : ack.isFinal = false := by simpa using hfin
              simp only [countAgreeing, hb, hfalse, if_true, Bool.false_eq_true, if_false]
              rw [ih, List.countP_cons_of_pos hagree, Nat.add_right_comm, Nat.add_assoc]
              refine and_congr_left fun _ => ?_
              simp only [List.mem_cons, Option.some.injEq, forall_eq_or_imp, hfalse, implies_true,
                true_and]
      · have hskip : countAgreeing n ballot (entry :: rest) count valid =
            countAgreeing n ballot rest count valid := by
          cases entry with
          | none => rfl
          | some ack =>
              have hb : ¬ack.ballot = ballot := by simpa [agrees] using hagree
              simp [countAgreeing, hb]
        rw [hskip, ih, List.countP_cons_of_neg hagree]
        refine and_congr_left fun _ => ⟨fun h ack hm hb => ?_, fun h ack hm => ?_⟩
        · rcases List.mem_cons.mp hm with rfl | hm
          · exact absurd (by simpa [agrees] using hb) hagree
          · exact h ack hm hb
        · exact h ack (List.mem_cons_of_mem _ hm)

theorem Unclosed.new (n : Nat) : Unclosed n (List.replicate n none) := by
  refine ⟨fun ack hm => ?_, fun ballot => ?_⟩
  · cases List.eq_of_mem_replicate hm
  · rw [List.countP_eq_zero.mpr fun entry hm => by rw [List.eq_of_mem_replicate hm]; simp [agrees]]
    exact Nat.succ_pos _

-- The test for a quorum, whatever ballot the instance is at.
theorem Unclosed.hasQuorum {n : Nat} {l : Learner} (hl : l.Sized n) {inst : LearnerInstance}
    (h : Unclosed n inst.acks) (hfinal : inst.finalValue = none) :
    instanceHasQuorum l inst = (inst, false) := by
  have hlt : (countAgreeing l.acceptors inst.lastUpdateBallot inst.acks 0 none).1 < l.quorum := by
    rw [hl.quorum, hl.acceptors, countAgreeing_lt_iff (by unfold paxosQuorum; omega), Nat.zero_add]
    exact ⟨fun ack hm _ => h.final ack hm, h.count _⟩
  unfold instanceHasQuorum
  rw [if_neg (by simp [hfinal])]
  exact if_neg (Nat.not_le.mpr hlt)

-- A test that leaves no final value has found no quorum.
theorem count_lt_of_finalValue {n : Nat} {l : Learner} (hl : l.Sized n) {inst : LearnerInstance}
    (h : (instanceHasQuorum l inst).1.finalValue = none) :
    inst.finalValue = none ∧
      (countAgreeing n inst.lastUpdateBallot inst.acks 0 none).1 < paxosQuorum n := by
  unfold instanceHasQuorum at h
  rw [hl.quorum, hl.acceptors] at h
  split_ifs at h with hsome
  · rw [h] at hsome
    cases hsome
  · have hnone : inst.finalValue = none := by simpa using hsome
    refine ⟨hnone, Nat.lt_of_not_le fun hge => ?_⟩
    dsimp only at h
    rw [if_pos hge] at h
    -- A count that reaches the quorum comes with an ack.
    rcases countAgreeing_eq n inst.lastUpdateBallot inst.acks 0 none with
      ⟨ack, he, _⟩ | ⟨hc, ⟨hzero, _⟩ | ⟨ack, he, _⟩⟩
    · rw [he] at h
      cases h
    · unfold paxosQuorum at hge
      omega
    · rw [he] at h
      cases h

-- One more ack, after which the test for its ballot finds no quorum.
theorem Unclosed.set {n : Nat} {l : Learner} (hl : l.Sized n) {inst : LearnerInstance}
    {ack : AcceptAck} (h : Unclosed n inst.acks)
    (hopen : (instanceHasQuorum l (instanceAddAccept inst ack)).1.finalValue = none) :
    Unclosed n (inst.acks.set ack.acceptorId (some ack)) := by
  by_cases hlen : ack.acceptorId < inst.acks.length
  · have hlt : (∀ other, some other ∈ inst.acks.set ack.acceptorId (some ack) →
        other.ballot = ack.ballot → other.isFinal = false) ∧
        (inst.acks.set ack.acceptorId (some ack)).countP (agrees ack.ballot) < paxosQuorum n := by
      have hcount := (count_lt_of_finalValue hl hopen).2
      rw [countAgreeing_lt_iff (by unfold paxosQuorum; omega), Nat.zero_add] at hcount
      exact hcount
    refine ⟨fun other hm => ?_, fun ballot => ?_⟩
    · rcases List.mem_or_eq_of_mem_set hm with hold | he
      · exact h.final other hold
      · obtain rfl := Option.some.inj he
        exact hlt.1 other hm rfl
    · by_cases hb : ack.ballot = ballot
      · exact hb ▸ hlt.2
      · have := h.count ballot
        rw [List.countP_set hlen]
        simp only [agrees, hb, decide_false, Bool.false_eq_true, if_false]
        omega
  · rw [List.set_eq_of_length_le (by omega)]
    exact h

-- Acks as they come off the wire: a 32-bit iid, from one of the acceptors.
structure AcceptAck.Ranged (n : Nat) (ack : AcceptAck) : Prop where
  iid : ack.iid < 2 ^ 32
  acceptorId : ack.acceptorId < n

-- The slots of a learner anywhere in the range of iids. What is not new belongs to the
-- window and lies at its own index.
structure Learner.Slotted (w n : Nat) (slots : List LearnerInstance) (l : Learner) : Prop where
  ring : l.instances.Ring slots
  width : slots.length = w
  sized : l.Sized n
  length : ∀ inst ∈ slots, inst.acks.length = n
  unclosed : ∀ inst ∈ slots, inst.finalValue = none → Unclosed n inst.acks
  place : ∀ (k : Nat) inst, slots[k]? = some inst → inst ≠ learnerInstanceNew n →
    (l.currentIid ≤ inst.iid ∧ inst.iid < l.currentIid + w) ∧ inst.iid < 2 ^ 32 ∧
      slotOf w inst.iid = k
  fits : ∀ inst ∈ slots, inst ≠ learnerInstanceNew n → inst.iid = l.currentIid →
    l.currentIid + w < 2 ^ 32
  late : l.lateStart = true → ∀ inst ∈ slots, inst = learnerInstanceNew n
  range : l.currentIid < 2 ^ 32

section

variable {w n : Nat} {slots : List LearnerInstance} {l : Learner} {ack : AcceptAck}

theorem learnerNew_slotted {cfg : PaxosConfig} (hw : 1 ≤ cfg.learnerInstances)
    (h : learnerNew cfg n = .ok l) :
    l.Slotted cfg.learnerInstances n
      (List.replicate cfg.learnerInstances (learnerInstanceNew n)) := by
  obtain ⟨l', hnew, _, hcur, hwin⟩ := learnerNew_windowed cfg n hw
  obtain rfl : l' = l := Except.ok.inj (hnew.symm.trans h)
  have hall (inst : LearnerInstance)
      (hm : inst ∈ List.replicate cfg.learnerInstances (learnerInstanceNew n)) :
      inst = learnerInstanceNew n := List.eq_of_mem_replicate hm
  refine ⟨hwin.ring, by simp, hwin.sized, fun inst hm => (hwin.made inst hm).length,
    fun inst hm _ => ?_, fun k inst hk hne => ?_, fun inst hm hne => ?_, fun _ => hall, by omega⟩
  · rw [hall inst hm]
    exact .new n
  · exact absurd (hall inst (List.mem_of_getElem? hk)) hne
  · exact absurd (hall inst hm) hne

theorem Learner.Slotted.arrive (h : l.Slotted w n slots) (hack : ack.Ranged n) :
    (learnerArrive l ack).Slotted w n slots := by
  have hcur := learnerArrive_currentIid l ack
  cases hlate : l.lateStart with
  | true =>
      have hall := h.late hlate
      refine ⟨by simpa using h.ring, h.width, h.sized.arrive ack, h.length, h.unclosed,
        fun k inst hk hne => ?_, fun inst hm hne => ?_, by simp, ?_⟩
      · exact absurd (hall inst (List.mem_of_getElem? hk)) hne
      · exact absurd (hall inst hm) hne
      · rw [hcur, hlate]
        exact hack.iid
  | false =>
      rw [hlate] at hcur
      simp only [Bool.false_eq_true, if_false] at hcur
      refine ⟨by simpa using h.ring, h.width, h.sized.arrive ack, h.length, h.unclosed, ?_, ?_,
        by simp, ?_⟩
      · rw [hcur]
        exact h.place
      · rw [hcur]
        exact h.fits
      · rw [hcur]
        exact h.range

theorem learnerGetInstance_iff (hring : l.instances.Ring slots) (hwidth : slots.length = w)
    {iid : Nat} {inst : LearnerInstance} :
    learnerGetInstance l iid = .ok inst ↔
      0 ≤ slotOf w iid ∧ slots[(slotOf w iid).toNat]? = some inst ∧
        (inst.iid = iid ∨ inst.iid = 0) := by
  have hat := hring.at_iff (iidToInt iid) inst
  rw [hwidth] at hat
  constructor
  · intro hget
    obtain ⟨hread, hiid⟩ := learnerGetInstance_ok hget
    obtain ⟨hnonneg, hslot⟩ := hat.mp hread
    exact ⟨hnonneg, hslot, hiid⟩
  · rintro ⟨hnonneg, hslot, hiid⟩
    unfold learnerGetInstance
    rw [hat.mpr ⟨hnonneg, hslot⟩]
    exact if_pos hiid

theorem Learner.Slotted.ring_write (h : l.Slotted w n slots) (iid : Nat) (inst : LearnerInstance) :
    (learnerWriteInstance l iid inst).instances.Ring (slots.set (slotOf w iid).toNat inst) := by
  have hring := h.ring.write_int (iidToInt iid) inst
  rw [h.width] at hring
  exact hring

-- An instance is written to the slot of its iid, which is in the window.
theorem Learner.Slotted.write (h : l.Slotted w n slots) (hstart : l.lateStart = false)
    (hin : l.currentIid ≤ ack.iid ∧ ack.iid < l.currentIid + w) (hfit : l.currentIid + w < 2 ^ 32)
    (hslot : 0 ≤ slotOf w ack.iid) {inst : LearnerInstance} (hiid : inst.iid = ack.iid)
    (hlen : inst.acks.length = n) (hunclosed : inst.finalValue = none → Unclosed n inst.acks) :
    (learnerWriteInstance l ack.iid inst).Slotted w n
      (slots.set (slotOf w ack.iid).toNat inst) := by
  refine ⟨h.ring_write ack.iid inst, by simp [h.width], ⟨h.sized.quorum, h.sized.acceptors⟩,
    forall_mem_set h.length hlen _, forall_mem_set h.unclosed hunclosed _,
    fun k item hk hne => ?_, fun item hm hne he => hfit, fun hlate => ?_, h.range⟩
  · rw [List.getElem?_set] at hk
    split_ifs at hk with he
    · obtain rfl := Option.some.inj hk
      rw [hiid]
      exact ⟨hin, by omega, by omega⟩
    · exact h.place k item hk hne
  · have hfalse : l.lateStart = true := hlate
    rw [hstart] at hfalse
    cases hfalse

-- The acceptor has sent an ack for the instance with the same ballot or a higher one.
def LearnerInstance.Outdates (inst : LearnerInstance) (ack : AcceptAck) : Prop :=
  ∃ prev, inst.acks[ack.acceptorId]? = some (some prev) ∧ prev.ballot ≥ ack.ballot

-- What `learner_update_instance` makes of an instance: an ack for a closed one and an
-- outdated ack change no ack, any other is stored.
theorem updateInstance_spec (hl : l.Sized n) {inst : LearnerInstance}
    (hiid : inst.iid = ack.iid ∨ inst.iid = 0) (hlen : inst.acks.length = n)
    (hunclosed : inst.finalValue = none → Unclosed n inst.acks) (hid : ack.acceptorId < n) :
    ∃ new, updateInstance l inst ack = .ok new ∧ new.iid = ack.iid ∧
      ((new.acks = inst.acks ∧ new.finalValue = inst.finalValue ∧
          (inst.finalValue.isSome ∨ inst.Outdates ack)) ∨
        (inst.finalValue = none ∧ ¬inst.Outdates ack ∧ ∃ start : LearnerInstance,
          start.acks = inst.acks ∧ new = instanceAddAccept start ack)) := by
  unfold updateInstance
  generalize hstart : (if inst.iid = 0 then
    { inst with iid := ack.iid, lastUpdateBallot := ack.ballot } else inst) = start
  have hsame : start.iid = ack.iid ∧ start.acks = inst.acks ∧
      start.finalValue = inst.finalValue := by
    split_ifs at hstart with hfree
    · subst hstart
      exact ⟨rfl, rfl, rfl⟩
    · subst hstart
      exact ⟨hiid.resolve_right hfree, rfl, rfl⟩
  obtain ⟨hsiid, hacks, hfinal⟩ := hsame
  dsimp only
  rw [if_neg (not_not.mpr hsiid)]
  cases hfv : inst.finalValue with
  | some v =>
      have hclosed : instanceHasQuorum l start = (start, true) := by
        simp [instanceHasQuorum, hfinal, hfv]
      rw [hclosed]
      exact ⟨start, rfl, hsiid, .inl ⟨hacks, by rw [hfinal, hfv], .inl rfl⟩⟩
  | none =>
      have hopen : instanceHasQuorum l start = (start, false) :=
        Unclosed.hasQuorum hl (hacks ▸ hunclosed hfv) (hfinal.trans hfv)
      have hslot : inst.acks[ack.acceptorId]? = some inst.acks[ack.acceptorId] :=
        List.getElem?_eq_getElem (by omega)
      rw [hopen]
      dsimp only
      rw [hacks]
      cases hkept : inst.acks[ack.acceptorId] with
      | none =>
          rw [hkept] at hslot
          rw [hslot]
          refine ⟨_, rfl, hsiid, .inr ⟨rfl, ?_, start, hacks, rfl⟩⟩
          rintro ⟨prev, hprev, _⟩
          rw [hslot] at hprev
          cases hprev
      | some prev =>
          rw [hkept] at hslot
          rw [hslot]
          by_cases hge : prev.ballot ≥ ack.ballot
          · refine ⟨start, if_pos hge, hsiid, .inl ⟨hacks, hfinal.trans hfv, .inr ?_⟩⟩
            exact ⟨prev, hslot, hge⟩
          · refine ⟨_, if_neg hge, hsiid, .inr ⟨rfl, ?_, start, hacks, rfl⟩⟩
            rintro ⟨other, hother, hle⟩
            rw [hslot] at hother
            obtain rfl := Option.some.inj (Option.some.inj hother)
            exact hge hle

-- The two tests of `learner_receive_accept`. The sum of the second one must not wrap.
theorem window_tests_iff {w cur iid : Nat} (hw : w < 2 ^ 31) (hcur : cur < 2 ^ 32) :
    (¬iid < cur ∧ ¬iid ≥ uint32 (cur + w)) ↔
      (cur ≤ iid ∧ iid < cur + w) ∧ cur + w < 2 ^ 32 := by
  unfold uint32
  omega

theorem Learner.Slotted.takes_iff (h : l.Slotted w n slots) (hw : w < 2 ^ 31)
    (hack : ack.Ranged n) :
    learnerTakes l ack = true ↔
      ((learnerArrive l ack).currentIid ≤ ack.iid ∧
        ack.iid < (learnerArrive l ack).currentIid + w) ∧
      (learnerArrive l ack).currentIid + w < 2 ^ 32 := by
  have hsize : carraySize (learnerArrive l ack).instances = w := by
    rw [learnerArrive_instances, carraySize, h.ring.size, h.width]
  rw [← window_tests_iff hw (h.arrive hack).range]
  simp only [learnerTakes, hsize, decide_eq_true_eq]

theorem learnerWriteInstance_twice (l : Learner) (iid : Nat) (a b : LearnerInstance) :
    learnerWriteInstance (learnerWriteInstance l iid a) iid b = learnerWriteInstance l iid b := by
  simp [learnerWriteInstance, carrayWrite, carrayIndex, List.set_set]

-- The slots after an ack that is taken.
theorem Learner.Slotted.taken (h : l.Slotted w n slots) (hw : w < 2 ^ 31) (hack : ack.Ranged n)
    (htakes : learnerTakes l ack = true) {l' : Learner} {old new : LearnerInstance}
    (ht : l.Takes ack l' old new) :
    (0 ≤ slotOf w ack.iid ∧ slots[(slotOf w ack.iid).toNat]? = some old) ∧
      ∃ final : LearnerInstance, final.acks = new.acks ∧
        l'.Slotted w n (slots.set (slotOf w ack.iid).toNat final) := by
  obtain ⟨hin, hfit⟩ := (h.takes_iff hw hack).mp htakes
  have harr := h.arrive hack
  have hat := (h.ring.at_iff (iidToInt ack.iid) old).mp ht.found
  rw [h.width] at hat
  obtain ⟨hnonneg, hslot⟩ := hat
  have hmem : old ∈ slots := List.mem_of_getElem? hslot
  refine ⟨⟨hnonneg, hslot⟩, (instanceHasQuorum (learnerArrive l ack) new).1,
    instanceHasQuorum_acks _ _, ?_⟩
  obtain ⟨upd, hupd, hiid, hcase⟩ := updateInstance_spec harr.sized ht.iid (h.length old hmem)
    (h.unclosed old hmem) hack.acceptorId
  obtain rfl : new = upd := Except.ok.inj (ht.updated.symm.trans hupd)
  have hfinal : (instanceHasQuorum (learnerArrive l ack) new).1.iid = ack.iid := by
    rw [instanceHasQuorum_iid, hiid]
  have hlen : (instanceHasQuorum (learnerArrive l ack) new).1.acks.length = n := by
    rw [instanceHasQuorum_acks]
    rcases hcase with ⟨hacks, _⟩ | ⟨_, _, start, hacks, rfl⟩
    · rw [hacks, h.length old hmem]
    · rw [instanceAddAccept, List.length_set, hacks, h.length old hmem]
  have hunclosed : (instanceHasQuorum (learnerArrive l ack) new).1.finalValue = none →
      Unclosed n (instanceHasQuorum (learnerArrive l ack) new).1.acks := by
    intro hnone
    rw [instanceHasQuorum_acks]
    rcases hcase with ⟨hacks, hfv, _⟩ | ⟨hfv, _, start, hacks, rfl⟩
    · have hnew := (count_lt_of_finalValue harr.sized hnone).1
      rw [hacks]
      exact h.unclosed old hmem (hfv ▸ hnew)
    · have hold : Unclosed n start.acks := hacks ▸ h.unclosed old hmem hfv
      exact hold.set harr.sized hnone
  obtain ⟨closed, hnote⟩ := learnerNoteClosed_eq
    (learnerWriteInstance (learnerArrive l ack) ack.iid new) ack.iid new
  have hlast := harr.write (by simp) hin hfit hnonneg hfinal hlen hunclosed
  rw [ht.result, hnote, learnerWriteInstance_twice]
  exact ⟨hlast.1, hlast.2, ⟨hlast.3.1, hlast.3.2⟩, hlast.4, hlast.5, hlast.6, hlast.7, hlast.8,
    hlast.9⟩

theorem Learner.Slotted.receive (h : l.Slotted w n slots) (hw : w < 2 ^ 31) (hack : ack.Ranged n)
    {l' : Learner} (hr : learnerReceiveAccept l ack = .ok l') :
    ∃ slots', l'.Slotted w n slots' := by
  rcases learnerReceiveAccept_cases hr with ⟨_, rfl⟩ | ⟨htakes, old, new, ht⟩
  · exact ⟨slots, h.arrive hack⟩
  · obtain ⟨_, final, _, hlast⟩ := h.taken hw hack htakes ht
    exact ⟨_, hlast⟩

-- Two consecutive iids from 2 ^ 31 on with an index in range need a window of one slot.
theorem Learner.Slotted.fits_next (h : l.Slotted w n slots) (hw : w < 2 ^ 31)
    (hslot : 0 ≤ slotOf w l.currentIid) (hfit : l.currentIid + w < 2 ^ 32) (hlong : 1 < w) :
    l.currentIid + 1 + w < 2 ^ 32 := by
  by_contra hge
  have hlast : l.currentIid + w = 2 ^ 32 - 1 := by omega
  rcases (slotOf_nonneg_iff h.range).mp hslot with hlow | hdvd
  · omega
  · have hnext : 2 ^ 32 - l.currentIid = w + 1 := by omega
    rw [hnext, Nat.dvd_add_right (Nat.dvd_refl w)] at hdvd
    have := Nat.le_of_dvd Nat.one_pos hdvd
    omega

-- The state after the delivery of the current instance.
theorem Learner.Slotted.advance (h : l.Slotted w n slots) (hw : w < 2 ^ 31)
    (hslot : 0 ≤ slotOf w l.currentIid) {inst : LearnerInstance} (hm : inst ∈ slots)
    (hne : inst ≠ learnerInstanceNew n) (hfit : l.currentIid + w < 2 ^ 32) :
    (l.advance n).Slotted w n
      (slots.set (slotOf w l.currentIid).toNat (learnerInstanceNew n)) := by
  have hplace (k : Nat) (item : LearnerInstance)
      (hitem : (slots.set (slotOf w l.currentIid).toNat (learnerInstanceNew n))[k]? = some item)
      (hused : item ≠ learnerInstanceNew n) :
      (l.currentIid + 1 ≤ item.iid ∧ item.iid < l.currentIid + w) ∧ item.iid < 2 ^ 32 ∧
        slotOf w item.iid = k := by
    rw [List.getElem?_set] at hitem
    split_ifs at hitem with he
    · exact absurd (Option.some.inj hitem).symm hused
    · -- The slot is not the current one, so its iid is above the current iid.
      obtain ⟨hwin, hlt, hindex⟩ := h.place k item hitem hused
      have hother : item.iid ≠ l.currentIid := by
        intro heq
        rw [heq] at hindex
        omega
      exact ⟨by omega, hlt, hindex⟩
  have hpos := h.ring.pos
  rw [h.width] at hpos
  refine ⟨h.ring_write l.currentIid _, by simp [h.width], ⟨h.sized.quorum, h.sized.acceptors⟩,
    forall_mem_set h.length (by simp [learnerInstanceNew]) _,
    forall_mem_set h.unclosed (fun _ => .new n) _, fun k item hitem hused => ?_,
    fun item hm hused heq => ?_, fun hlate => absurd (h.late hlate inst hm) hne, ?_⟩
  · obtain ⟨hwin, hrest⟩ := hplace k item hitem hused
    change (l.currentIid + 1 ≤ item.iid ∧ item.iid < l.currentIid + 1 + w) ∧ _
    exact ⟨by omega, hrest⟩
  · obtain ⟨k, hitem⟩ := List.mem_iff_getElem?.mp hm
    obtain ⟨hwin, _⟩ := hplace k item hitem hused
    have hcur : item.iid = l.currentIid + 1 := heq
    exact h.fits_next hw hslot hfit (by omega)
  · change l.currentIid + 1 < 2 ^ 32
    omega

theorem Learner.Slotted.deliver (h : l.Slotted w n slots) (hw : w < 2 ^ 31) {l' : Learner}
    {out : Option AcceptAck} (hd : learnerDeliverNext l = .ok (l', out)) :
    ∃ slots', l'.Slotted w n slots' := by
  unfold learnerDeliverNext at hd
  obtain ⟨inst, hget, hd⟩ := except_bind_ok hd
  obtain ⟨hnonneg, hslot, hiid⟩ := (learnerGetInstance_iff h.ring h.width).mp hget
  have hmem : inst ∈ slots := List.mem_of_getElem? hslot
  cases hfv : inst.finalValue with
  | none =>
      rw [Unclosed.hasQuorum h.sized (h.unclosed inst hmem hfv) hfv] at hd
      obtain ⟨rfl, rfl⟩ := Prod.mk.inj (Except.ok.inj hd)
      exact ⟨slots, h⟩
  | some final =>
      have hclosed : instanceHasQuorum l inst = (inst, true) := by simp [instanceHasQuorum, hfv]
      rw [hclosed] at hd
      dsimp only at hd
      rw [hfv] at hd
      have hne : inst ≠ learnerInstanceNew n := by
        rintro rfl
        cases hfv
      obtain ⟨hin, _, _⟩ := h.place _ inst hslot hne
      have hfit := h.fits inst hmem hne (by omega)
      have hpos := h.ring.pos
      rw [h.width] at hpos
      have hnext : uint32 (l.currentIid + 1) = l.currentIid + 1 := uint32_of_lt (by omega)
      obtain ⟨rfl, rfl⟩ := Prod.mk.inj (Except.ok.inj hd)
      have hadv := h.advance hw hnonneg hmem hne hfit
      unfold Learner.advance at hadv
      rw [← hnext] at hadv
      rw [h.sized.acceptors, instanceClear_eq (h.length inst hmem)]
      exact ⟨_, hadv⟩

-- Acks of a run. What a caller passes is what came off the wire.
def LearnerCall.Ranged (n : Nat) : LearnerCall → Prop
  | .receiveAccept ack => ack.Ranged n
  | .deliverNext => True

theorem Learner.Slotted.call (h : l.Slotted w n slots) (hw : w < 2 ^ 31) {c : LearnerCall}
    (hc : c.Ranged n) {l' : Learner} {out : Option AcceptAck}
    (hcall : learnerCall l c = .ok (l', out)) : ∃ slots', l'.Slotted w n slots' := by
  cases c with
  | receiveAccept ack => exact h.receive hw hc (learnerCall_receive_ok hcall)
  | deliverNext => exact h.deliver hw hcall

theorem Learner.Slotted.run (h : l.Slotted w n slots) (hw : w < 2 ^ 31) {calls : List LearnerCall}
    (hcalls : ∀ c ∈ calls, c.Ranged n) {l' : Learner} {delivered : List AcceptAck}
    (hrun : learnerRun l calls = .ok (l', delivered)) : ∃ slots', l'.Slotted w n slots' := by
  induction calls generalizing l slots delivered with
  | nil =>
      obtain ⟨rfl, rfl⟩ := Prod.mk.inj (Except.ok.inj hrun)
      exact ⟨slots, h⟩
  | cons c rest ih =>
      obtain ⟨⟨mid, out⟩, hcall, hrest⟩ := except_bind_ok hrun
      obtain ⟨⟨last, acks⟩, hrun', he⟩ := except_bind_ok hrest
      obtain ⟨rfl, _⟩ := Prod.mk.inj (Except.ok.inj he)
      obtain ⟨slots', hmid⟩ := h.call hw (hcalls c List.mem_cons_self) hcall
      exact ih hmid (fun c hm => hcalls c (List.mem_cons_of_mem _ hm)) hrun'

-- The ack lies in slot `k`.
def Learner.StoredAt (l : Learner) (k : Nat) (ack : AcceptAck) : Prop :=
  ∃ inst, l.instances.array[k]? = some (some inst) ∧
    inst.acks[ack.acceptorId]? = some (some ack)

-- `learner_receive_accept` puts the ack into a slot.
def Learner.Stores (l : Learner) (ack : AcceptAck) : Prop :=
  ∃ l' k, learnerReceiveAccept l ack = .ok l' ∧ ¬l.StoredAt k ack ∧ l'.StoredAt k ack

def Learner.Closed (l : Learner) (iid : Nat) : Prop :=
  ∃ inst, some inst ∈ l.instances.array ∧ inst.iid = iid ∧ inst.finalValue.isSome

def Learner.Outdates (l : Learner) (ack : AcceptAck) : Prop :=
  ∃ inst, some inst ∈ l.instances.array ∧ inst.iid = ack.iid ∧ inst.Outdates ack

-- The acks that are to be stored. The window starts at the ack of a late start.
def Learner.Wants (w : Nat) (l : Learner) (ack : AcceptAck) : Prop :=
  ((learnerArrive l ack).currentIid ≤ ack.iid ∧
    ack.iid < (learnerArrive l ack).currentIid + w) ∧ ¬l.Closed ack.iid ∧ ¬l.Outdates ack

structure WindowExact (w : Nat) (l : Learner) (ack : AcceptAck) : Prop where
  stores : l.Stores ack ↔ l.Wants w ack
  indexed : l.Stores ack → Indexed w (learnerArrive l ack).currentIid ack.iid
  current : ack.iid = (learnerArrive l ack).currentIid →
    ¬ack.iid ≥ uint32 ((learnerArrive l ack).currentIid + carraySize l.instances)

theorem Learner.Slotted.mem_iff (h : l.Slotted w n slots) (inst : LearnerInstance) :
    some inst ∈ l.instances.array ↔ inst ∈ slots := by
  rw [h.ring.array]
  simp

theorem Learner.Slotted.storedAt_iff (h : l.Slotted w n slots) {k : Nat} :
    l.StoredAt k ack ↔
      ∃ inst, slots[k]? = some inst ∧ inst.acks[ack.acceptorId]? = some (some ack) := by
  unfold Learner.StoredAt
  rw [h.ring.array]
  simp

-- What is known of an iid is in its own slot.
theorem Learner.Slotted.slot_of_mem (h : l.Slotted w n slots) {inst : LearnerInstance}
    (hm : inst ∈ slots) (hne : inst ≠ learnerInstanceNew n) :
    slots[(slotOf w inst.iid).toNat]? = some inst := by
  obtain ⟨k, hk⟩ := List.mem_iff_getElem?.mp hm
  obtain ⟨_, _, hindex⟩ := h.place k inst hk hne
  rw [hindex]
  exact hk

theorem LearnerInstance.Outdates.ne_new {inst : LearnerInstance} (h : inst.Outdates ack) :
    inst ≠ learnerInstanceNew n := by
  rintro rfl
  obtain ⟨prev, hprev, _⟩ := h
  cases List.eq_of_mem_replicate (List.mem_of_getElem? hprev)

theorem ne_new_of_finalValue {inst : LearnerInstance} (h : inst.finalValue.isSome = true) :
    inst ≠ learnerInstanceNew n := by
  rintro rfl
  cases h

-- An ack that passes both tests and finds an instance of its iid is taken.
theorem Learner.Slotted.takes (h : l.Slotted w n slots) (hack : ack.Ranged n)
    (htakes : learnerTakes l ack = true) {old new : LearnerInstance}
    (hget : learnerGetInstance (learnerArrive l ack) ack.iid = .ok old)
    (hupd : updateInstance (learnerArrive l ack) old ack = .ok new) :
    ∃ l', learnerReceiveAccept l ack = .ok l' ∧ l.Takes ack l' old new := by
  have harr := h.arrive hack
  obtain ⟨hnonneg, hslot, hiid⟩ := (learnerGetInstance_iff harr.ring h.width).mp hget
  obtain ⟨hk, _⟩ := List.getElem?_eq_some_iff.mp hslot
  -- The second read finds the instance that was just written.
  have hagain : learnerGetInstance (learnerWriteInstance (learnerArrive l ack) ack.iid new)
      ack.iid = .ok new :=
    (learnerGetInstance_iff (harr.ring_write ack.iid new) (by simp [h.width])).mpr
      ⟨hnonneg, List.getElem?_set_self hk, .inl (updateInstance_iid hupd)⟩
  have hfound := (learnerGetInstance_ok hget).1
  rw [learnerArrive_instances] at hfound
  refine ⟨_, ?_, hfound, hiid, hupd, rfl⟩
  simp only [learnerTakes, decide_eq_true_eq] at htakes
  simp only [learnerReceiveAccept, htakes.1, htakes.2, if_false, learnerUpdateInstance]
  rw [hget]
  change (updateInstance (learnerArrive l ack) old ack >>= _) >>= _ = _
  rw [hupd]
  change learnerGetInstance _ _ >>= _ = _
  rw [hagain]
  rfl

-- An ack is stored if it passes both tests and finds an instance that it can update.
theorem Learner.Slotted.stores_iff (h : l.Slotted w n slots) (hw : w < 2 ^ 31)
    (hack : ack.Ranged n) :
    l.Stores ack ↔ learnerTakes l ack = true ∧
      ∃ old, learnerGetInstance (learnerArrive l ack) ack.iid = .ok old ∧
        old.finalValue = none ∧ ¬old.Outdates ack := by
  have harr := h.arrive hack
  constructor
  · rintro ⟨l', k, hr, hbefore, hafter⟩
    rcases learnerReceiveAccept_cases hr with ⟨_, rfl⟩ | ⟨htakes, old, new, ht⟩
    · exact absurd (h.storedAt_iff.mpr (harr.storedAt_iff.mp hafter)) hbefore
    · obtain ⟨⟨hnonneg, hslot⟩, final, hfinal, hlast⟩ := h.taken hw hack htakes ht
      have hmem : old ∈ slots := List.mem_of_getElem? hslot
      obtain ⟨upd, hupd, _, hcase⟩ := updateInstance_spec harr.sized ht.iid (h.length old hmem)
        (h.unclosed old hmem) hack.acceptorId
      obtain rfl : new = upd := Except.ok.inj (ht.updated.symm.trans hupd)
      rcases hcase with ⟨hacks, _⟩ | ⟨hnone, hnot, _⟩
      · -- No ack changes, so the ack was in its slot before.
        refine absurd (h.storedAt_iff.mpr ?_) hbefore
        obtain ⟨inst, hinst, hstored⟩ := hlast.storedAt_iff.mp hafter
        rw [List.getElem?_set] at hinst
        split_ifs at hinst with he
        · obtain rfl := Option.some.inj hinst
          rw [hfinal, hacks] at hstored
          exact ⟨old, he ▸ hslot, hstored⟩
        · exact ⟨inst, hinst, hstored⟩
      · refine ⟨htakes, old, ?_, hnone, hnot⟩
        exact (learnerGetInstance_iff harr.ring h.width).mpr ⟨hnonneg, hslot, ht.iid⟩
  · rintro ⟨htakes, old, hget, hnone, hnot⟩
    obtain ⟨_, hslot, hiid⟩ := (learnerGetInstance_iff harr.ring h.width).mp hget
    obtain ⟨hk, _⟩ := List.getElem?_eq_some_iff.mp hslot
    have hmem : old ∈ slots := List.mem_of_getElem? hslot
    obtain ⟨new, hupd, _, hcase⟩ := updateInstance_spec harr.sized hiid (h.length old hmem)
      (h.unclosed old hmem) hack.acceptorId
    obtain ⟨l', hr, ht⟩ := h.takes hack htakes hget hupd
    obtain ⟨_, final, hfinal, hlast⟩ := h.taken hw hack htakes ht
    refine ⟨l', (slotOf w ack.iid).toNat, hr, fun hbefore => ?_, ?_⟩
    · obtain ⟨inst, hinst, hstored⟩ := h.storedAt_iff.mp hbefore
      rw [hslot] at hinst
      obtain rfl := Option.some.inj hinst
      exact hnot ⟨ack, hstored, Nat.le_refl _⟩
    · refine hlast.storedAt_iff.mpr ⟨final, List.getElem?_set_self hk, ?_⟩
      rw [hfinal]
      rcases hcase with ⟨_, _, hclosed | hout⟩ | ⟨_, _, start, hacks, rfl⟩
      · rw [hnone] at hclosed
        cases hclosed
      · exact absurd hout hnot
      · have hlen : ack.acceptorId < start.acks.length := by
          rw [hacks, h.length old hmem]
          exact hack.acceptorId
        exact List.getElem?_set_self hlen

-- The instance found for an iid of the window whose index is its own.
theorem Learner.Slotted.get_of_indexed (h : l.Slotted w n slots) {iid : Nat}
    (hindexed : Indexed w l.currentIid iid) : ∃ inst, learnerGetInstance l iid = .ok inst ∧
      (inst = learnerInstanceNew n ∨ inst.iid = iid) := by
  obtain ⟨⟨hnonneg, hlt⟩, halone⟩ := hindexed
  have hk : (slotOf w iid).toNat < slots.length := by
    rw [h.width]
    omega
  obtain ⟨inst, hslot⟩ : ∃ inst, slots[(slotOf w iid).toNat]? = some inst :=
    ⟨_, List.getElem?_eq_getElem hk⟩
  refine ⟨inst, ?_⟩
  rw [learnerGetInstance_iff h.ring h.width]
  by_cases hne : inst = learnerInstanceNew n
  · exact ⟨⟨hnonneg, hslot, .inr (hne ▸ rfl)⟩, .inl hne⟩
  · obtain ⟨hwin, h32, hindex⟩ := h.place _ inst hslot hne
    have hsame : inst.iid = iid := by
      by_contra hother
      apply halone inst.iid h32 hwin hother
      omega
    exact ⟨⟨hnonneg, hslot, .inl hsame⟩, .inr hsame⟩

theorem Learner.Slotted.wants_of_stores (h : l.Slotted w n slots) (hw : w < 2 ^ 31)
    (hack : ack.Ranged n) (hstores : l.Stores ack) : l.Wants w ack := by
  obtain ⟨htakes, old, hget, hnone, hnot⟩ := (h.stores_iff hw hack).mp hstores
  obtain ⟨_, hslot, _⟩ := (learnerGetInstance_iff (h.arrive hack).ring h.width).mp hget
  -- An instance of the iid that is in use is the one that was found.
  have hfound (inst : LearnerInstance) (hm : some inst ∈ l.instances.array)
      (hiid : inst.iid = ack.iid) (hne : inst ≠ learnerInstanceNew n) : inst = old := by
    have hown := h.slot_of_mem ((h.mem_iff inst).mp hm) hne
    rw [hiid, hslot] at hown
    exact (Option.some.inj hown).symm
  refine ⟨((h.takes_iff hw hack).mp htakes).1, ?_, ?_⟩
  · rintro ⟨inst, hm, hiid, hclosed⟩
    rw [hfound inst hm hiid (ne_new_of_finalValue hclosed), hnone] at hclosed
    cases hclosed
  · rintro ⟨inst, hm, hiid, hout⟩
    rw [hfound inst hm hiid hout.ne_new] at hout
    exact hnot hout

theorem Learner.Slotted.stores_of_wants (h : l.Slotted w n slots) (hw : w < 2 ^ 31)
    (hack : ack.Ranged n) (hwants : l.Wants w ack)
    (hfit : (learnerArrive l ack).currentIid + w < 2 ^ 32)
    (hindexed : Indexed w (learnerArrive l ack).currentIid ack.iid) : l.Stores ack := by
  have harr := h.arrive hack
  obtain ⟨hin, hopen, hnew⟩ := hwants
  obtain ⟨inst, hget, hinst⟩ := harr.get_of_indexed hindexed
  obtain ⟨_, hslot, _⟩ := (learnerGetInstance_iff harr.ring h.width).mp hget
  have hmem : some inst ∈ l.instances.array := (h.mem_iff inst).mpr (List.mem_of_getElem? hslot)
  refine (h.stores_iff hw hack).mpr ⟨(h.takes_iff hw hack).mpr ⟨hin, hfit⟩, inst, hget, ?_, ?_⟩
  · by_contra hsome
    have hclosed : inst.finalValue.isSome = true := Option.isSome_iff_ne_none.mpr hsome
    exact hopen ⟨inst, hmem, hinst.resolve_left (ne_new_of_finalValue hclosed), hclosed⟩
  · intro hout
    exact hnew ⟨inst, hmem, hinst.resolve_left hout.ne_new, hout⟩

-- An instance in use at the current iid got there through both tests.
theorem Learner.Slotted.fits_of_used (h : l.Slotted w n slots) (hack : ack.Ranged n)
    (hcur : ack.iid = (learnerArrive l ack).currentIid) (hused : ¬l.Wants w ack) :
    (learnerArrive l ack).currentIid + w < 2 ^ 32 := by
  have hpos : 0 < w := h.width ▸ h.ring.pos
  have hfits (inst : LearnerInstance) (hm : some inst ∈ l.instances.array)
      (hiid : inst.iid = ack.iid) (hne : inst ≠ learnerInstanceNew n) :=
    (h.arrive hack).fits inst ((h.mem_iff inst).mp hm) hne (hiid.trans hcur)
  by_contra hbig
  refine hused ⟨by omega, ?_, ?_⟩
  · rintro ⟨inst, hm, hiid, hclosed⟩
    exact absurd (hfits inst hm hiid (ne_new_of_finalValue hclosed)) hbig
  · rintro ⟨inst, hm, hiid, hout⟩
    exact absurd (hfits inst hm hiid hout.ne_new) hbig

-- The window of one learner state.
theorem Learner.Slotted.windowExact_iff (h : l.Slotted w n slots) (hw : w < 2 ^ 31)
    (hack : ack.Ranged n) :
    WindowExact w l ack ↔ (l.Wants w ack → (learnerArrive l ack).currentIid + w < 2 ^ 32 ∧
      Indexable w (learnerArrive l ack).currentIid ack.iid) := by
  have hpos : 1 ≤ w := h.width ▸ h.ring.pos
  have hsize : carraySize l.instances = w := by rw [carraySize, h.ring.size, h.width]
  constructor
  · intro hexact hwants
    have hstores := hexact.stores.mpr hwants
    obtain ⟨htakes, _⟩ := (h.stores_iff hw hack).mp hstores
    obtain ⟨hin, hfit⟩ := (h.takes_iff hw hack).mp htakes
    exact ⟨hfit, (indexed_iff hpos hin hack.iid).mp (hexact.indexed hstores)⟩
  · intro hcond
    have hindexed (hwants : l.Wants w ack) :
        Indexed w (learnerArrive l ack).currentIid ack.iid :=
      (indexed_iff hpos hwants.1 hack.iid).mpr (hcond hwants).2
    refine ⟨⟨h.wants_of_stores hw hack, fun hwants => ?_⟩, fun hstores => ?_, fun hcur => ?_⟩
    · exact h.stores_of_wants hw hack hwants (hcond hwants).1 (hindexed hwants)
    · exact hindexed (h.wants_of_stores hw hack hstores)
    · have hfit : (learnerArrive l ack).currentIid + w < 2 ^ 32 := by
        by_cases hwants : l.Wants w ack
        · exact (hcond hwants).1
        · exact h.fits_of_used hack hcur hwants
      rw [hsize, uint32_of_lt hfit]
      omega

end

-- Far enough below 2 ^ 31 nothing goes wrong.
theorem indexable_of_low {w cur iid : Nat} (hin : cur ≤ iid ∧ iid < cur + w)
    (hlow : cur + w ≤ 2 ^ 31) : Indexable w cur iid := by
  refine ⟨.inl (by omega), fun hzero j hj hjin hjz => ?_⟩
  apply slotOf_inj hjin hin hj (by omega) (by omega)
  rw [(slotOf_eq_zero_iff hj).mpr hjz, (slotOf_eq_zero_iff (by omega)).mpr hzero]

-- Any run of any learner, and any ack after it.
theorem learner_window_exact_iff (cfg : PaxosConfig) (n : Nat)
    (hw : 1 ≤ cfg.learnerInstances ∧ cfg.learnerInstances < 2 ^ 31) (l₀ : Learner)
    (hnew : learnerNew cfg n = .ok l₀) (calls : List LearnerCall)
    (hcalls : ∀ c ∈ calls, c.Ranged n) (l : Learner) (delivered : List AcceptAck)
    (hrun : learnerRun l₀ calls = .ok (l, delivered)) (ack : AcceptAck) (hack : ack.Ranged n) :
    WindowExact cfg.learnerInstances l ack ↔
      (l.Wants cfg.learnerInstances ack →
        (learnerArrive l ack).currentIid + cfg.learnerInstances < 2 ^ 32 ∧
          Indexable cfg.learnerInstances (learnerArrive l ack).currentIid ack.iid) := by
  obtain ⟨slots, h⟩ := (learnerNew_slotted hw.1 hnew).run hw.2 hcalls hrun
  exact h.windowExact_iff hw.2 hack

-- A late learner with four slots after its first ack.
theorem learner_window_exact_iff_low : ∃ l₀ l delivered, learnerNew ⟨4, false, 1⟩ 3 = .ok l₀ ∧
    learnerRun l₀ [.receiveAccept ⟨0, 6, 11, 11, false, [1]⟩] = .ok (l, delivered) ∧
      WindowExact 4 l ⟨1, 9, 11, 11, false, [2]⟩ := by
  refine ⟨_, _, _, rfl, rfl, ?_⟩
  refine (learner_window_exact_iff ⟨4, false, 1⟩ 3 (by decide) _ rfl
    [.receiveAccept ⟨0, 6, 11, 11, false, [1]⟩] ?_ _ _ rfl ⟨1, 9, 11, 11, false, [2]⟩
    ⟨by decide, by decide⟩).mpr fun _ => ⟨by decide, indexable_of_low (by decide) (by decide)⟩
  intro c hm
  rw [List.mem_singleton.mp hm]
  exact ⟨by decide, by decide⟩

-- The first ack of a late start is for the current instance.
theorem Learner.Slotted.wants_late {w n : Nat} {slots : List LearnerInstance} {l : Learner}
    (h : l.Slotted w n slots) (hlate : l.lateStart = true) (ack : AcceptAck) : l.Wants w ack := by
  have hpos : 0 < w := h.width ▸ h.ring.pos
  have hcur := learnerArrive_currentIid l ack
  rw [hlate, if_pos rfl] at hcur
  refine ⟨by omega, ?_, ?_⟩
  · rintro ⟨inst, hm, _, hclosed⟩
    exact ne_new_of_finalValue hclosed (h.late hlate inst ((h.mem_iff inst).mp hm))
  · rintro ⟨inst, hm, _, hout⟩
    exact hout.ne_new (h.late hlate inst ((h.mem_iff inst).mp hm))

-- A late learner with four slots. A first ack for the last iid counts as too far in the
-- future, one for an iid above 2 ^ 31 is looked up outside the array.
theorem learner_window_not_exact : ∃ l, learnerNew ⟨4, false, 1⟩ 3 = .ok l ∧
    ¬WindowExact 4 l ⟨0, 2 ^ 32 - 1, 11, 11, false, [1]⟩ ∧
    ¬WindowExact 4 l ⟨0, 2 ^ 31 + 1, 11, 11, false, [1]⟩ := by
  obtain ⟨l, hnew, hlate, _, _⟩ := learnerNew_windowed ⟨4, false, 1⟩ 3 (by decide)
  have h := learnerNew_slotted (by decide) hnew
  have hcur (ack : AcceptAck) : (learnerArrive l ack).currentIid = ack.iid := by
    rw [learnerArrive_currentIid, hlate]
    rfl
  refine ⟨l, hnew, fun hexact => ?_, fun hexact => ?_⟩
  · obtain ⟨hfit, _⟩ := (h.windowExact_iff (by decide) ⟨by decide, by decide⟩).mp hexact
      (h.wants_late hlate _)
    rw [hcur] at hfit
    revert hfit
    decide
  · obtain ⟨_, hslot, _⟩ := (h.windowExact_iff (by decide) ⟨by decide, by decide⟩).mp hexact
      (h.wants_late hlate _)
    revert hslot
    decide

end LibPaxos
