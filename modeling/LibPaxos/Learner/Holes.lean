import LibPaxos.Learner.Tally

namespace LibPaxos

-- The second drop of `learner_receive_accept`: too far in the future.
def learnerDropsFar (l : Learner) (ack : AcceptAck) : Bool :=
  let l := learnerArrive l ack
  ¬ack.iid < l.currentIid ∧ ack.iid ≥ uint32 (l.currentIid + carraySize l.instances)

-- The ack is among those kept for its instance.
def learnerStored (l : Learner) (ack : AcceptAck) : Bool :=
  match carrayAt l.instances (iidToInt ack.iid) with
  | .ok (some inst) => inst.iid = ack.iid ∧ inst.acks[ack.acceptorId]? = some (some ack)
  | _ => false

-- A learner with the iids it received acks for, and the iids whose ack was dropped
-- as too far ahead with none stored since.
structure Watching where
  learner : Learner
  received : List Nat
  missed : List Nat

def Watching.after (s : Watching) (l : Learner) : LearnerCall → Watching
  | .receiveAccept ack =>
      { learner := l
        received := s.received ++ [ack.iid]
        missed :=
          if learnerDropsFar s.learner ack then s.missed ++ [ack.iid]
          else if learnerStored l ack then s.missed.filter (· ≠ ack.iid)
          else s.missed }
  | .deliverNext => { s with learner := l }

def watching (l : Learner) : TransitionSystem Watching LearnerCall where
  init := ⟨l, [], []⟩
  step s c :=
    match learnerCall s.learner c with
    | .error _ => none
    | .ok (l, _) => some (s.after l c)

-- An instance above the current one is closed.
def Learner.ClosedAhead (l : Learner) : Prop :=
  ∃ iid ack, l.currentIid < iid ∧ l.ClosedWith iid ack

-- A closed instance above the current one, or a missed one from there on, makes
-- `learner_has_holes` report a range that starts at the current one.
def Watching.NoSilentGap (s : Watching) : Prop :=
  (s.learner.ClosedAhead ∨ ∃ iid ∈ s.missed, s.learner.currentIid ≤ iid) →
    ∃ stop, learnerHasHoles s.learner = some (s.learner.currentIid, stop) ∧
      s.learner.currentIid < stop

-- Nothing is missed from the current instance on, or an ack came for an instance
-- more than a window ahead of it, or one above it is closed.
def Watching.GapShows (w : Nat) (s : Watching) : Prop :=
  (∀ iid ∈ s.missed, iid < s.learner.currentIid) ∨
    (∃ iid ∈ s.received, s.learner.currentIid + w < iid) ∨ s.learner.ClosedAhead

-- What the two counters stand for.
structure Learner.Counted (w n : Nat) (slots : List LearnerInstance) (received : List Nat)
    (l : Learner) : Prop where
  windowed : l.Windowed w n slots
  late : l.lateStart = true → l.currentIid = 1
  seen_le : ∀ iid ∈ received, iid ≤ l.highestIidSeen
  seen : l.highestIidSeen = 1 ∨ l.highestIidSeen ∈ received
  tested : ∀ inst ∈ slots, (instanceHasQuorum l inst).2 = inst.finalValue.isSome
  closed_le : ∀ inst ∈ slots, inst.finalValue.isSome → inst.iid ≤ l.highestIidClosed
  closed : l.currentIid < l.highestIidClosed → ∃ (k : Nat) (inst : LearnerInstance),
    slots[k]? = some inst ∧ inst.iid = l.highestIidClosed ∧ inst.finalValue.isSome = true

variable {w n : Nat} {slots : List LearnerInstance} {received : List Nat} {l : Learner}

theorem learnerArrive_highestIidSeen (l : Learner) (ack : AcceptAck) :
    (learnerArrive l ack).highestIidSeen = max l.highestIidSeen ack.iid := by
  unfold learnerArrive
  dsimp only
  split_ifs <;> simp_all <;> omega

theorem learnerArrive_highestIidClosed (l : Learner) (ack : AcceptAck) :
    (learnerArrive l ack).highestIidClosed = l.highestIidClosed := by
  unfold learnerArrive
  dsimp only
  split_ifs <;> rfl

theorem Learner.Sized.hasQuorum_eq {l l' : Learner} (h : l.Sized n) (h' : l'.Sized n)
    (inst : LearnerInstance) : instanceHasQuorum l inst = instanceHasQuorum l' inst := by
  simp only [instanceHasQuorum, h.quorum, h.acceptors, h'.quorum, h'.acceptors]

theorem Learner.Counted.arrive (h : l.Counted w n slots received) {ack : AcceptAck}
    (hack : ack.Fits w n) :
    (learnerArrive l ack).Counted w n slots (received ++ [ack.iid]) := by
  have hwin := h.windowed.arrive hack.plain.iid hack.room
  have hseen := learnerArrive_highestIidSeen l ack
  have hclosed := learnerArrive_highestIidClosed l ack
  refine ⟨hwin, by simp, fun iid hm => ?_, ?_, fun inst hm => ?_, fun inst hm hs => ?_,
    fun hlt => ?_⟩
  · rw [hseen]
    rcases List.mem_append.mp hm with hm | hm
    · have := h.seen_le iid hm
      omega
    · have := List.mem_singleton.mp hm
      omega
  · rw [hseen]
    rcases Nat.le_total l.highestIidSeen ack.iid with hle | hle
    · right
      rw [Nat.max_eq_right hle]
      exact List.mem_append_right _ (List.mem_singleton_self _)
    · rw [Nat.max_eq_left hle]
      exact h.seen.imp_right (List.mem_append_left _)
  · rw [hwin.sized.hasQuorum_eq h.windowed.sized]
    exact h.tested inst hm
  · rw [hclosed]
    exact h.closed_le inst hm hs
  · rw [hclosed] at hlt ⊢
    apply h.closed
    rw [learnerArrive_currentIid] at hlt
    split_ifs at hlt with hlate
    · -- A learner that has not started has closed nothing.
      have hcur := h.late hlate
      have hpos := hack.plain.iid
      omega
    · exact hlt

theorem learnerNoteClosed_highestIidClosed (l : Learner) (iid : Nat) (inst : LearnerInstance) :
    (learnerNoteClosed l iid inst).highestIidClosed =
      if (instanceHasQuorum l inst).2 = true ∧ inst.iid > l.highestIidClosed then inst.iid
      else l.highestIidClosed := by
  have hiid := instanceHasQuorum_iid l inst
  have hkeep : (learnerWriteInstance l iid (instanceHasQuorum l inst).1).highestIidClosed =
      l.highestIidClosed := rfl
  unfold learnerNoteClosed
  dsimp only
  rw [hiid, hkeep]
  split_ifs <;> rfl

-- After the closing test the slot shows whether there was a quorum.
theorem LearnerInstance.Made.retest {inst : LearnerInstance} (h : inst.Made n fun _ => True)
    (hl : l.Sized n) :
    (instanceHasQuorum l (instanceHasQuorum l inst).1).2 = (instanceHasQuorum l inst).2 ∧
      (instanceHasQuorum l inst).1.finalValue.isSome = (instanceHasQuorum l inst).2 := by
  rcases h.hasQuorum hl with hq | ⟨ack, hq, _⟩
  · have hnone : inst.finalValue = none := by
      by_contra hne
      have hsome : inst.finalValue.isSome = true := Option.isSome_iff_ne_none.mpr hne
      simp [instanceHasQuorum, hsome] at hq
    rw [hq]
    exact ⟨by rw [hq], by simp [hnone]⟩
  · rw [hq]
    exact ⟨by simp [instanceHasQuorum], rfl⟩

-- An ack that is taken, from the state in which it has arrived.
theorem Learner.Counted.take (h : l.Counted w n slots received) {ack : AcceptAck}
    (hack : ack.Fits w n)
    (hin : (learnerArrive l ack).currentIid ≤ ack.iid ∧
      ack.iid < (learnerArrive l ack).currentIid + w) :
    ∃ l' slots', learnerReceiveAccept l ack = .ok l' ∧
      l'.Counted w n slots' (received ++ [ack.iid]) := by
  have harr := h.arrive hack
  obtain ⟨old, new, hslot, hupd, hnew, hmade, hr, hwin⟩ := h.windowed.take hack hin
  have hkw : ack.iid % w < slots.length := (List.getElem?_eq_some_iff.mp hslot).1
  have hsized := harr.windowed.sized
  obtain ⟨hretest, hshown⟩ := hmade.retest hsized
  have hhighest := learnerNoteClosed_highestIidClosed
    (learnerWriteInstance (learnerArrive l ack) ack.iid new) ack.iid new
  have hquorum : instanceHasQuorum (learnerWriteInstance (learnerArrive l ack) ack.iid new) new =
      instanceHasQuorum (learnerArrive l ack) new := rfl
  have hbefore : (learnerWriteInstance (learnerArrive l ack) ack.iid new).highestIidClosed =
      (learnerArrive l ack).highestIidClosed := rfl
  rw [hquorum, hbefore, hnew] at hhighest
  obtain ⟨mark, hnote⟩ := learnerNoteClosed_eq
    (learnerWriteInstance (learnerArrive l ack) ack.iid new) ack.iid new
  have hsame (item : LearnerInstance) := hwin.sized.hasQuorum_eq hsized item
  generalize learnerNoteClosed (learnerWriteInstance (learnerArrive l ack) ack.iid new) ack.iid
    new = l' at *
  have hcur : l'.currentIid = (learnerArrive l ack).currentIid := by rw [hnote]; rfl
  have hseen : l'.highestIidSeen = (learnerArrive l ack).highestIidSeen := by rw [hnote]; rfl
  have hlate : l'.lateStart = (learnerArrive l ack).lateStart := by rw [hnote]; rfl
  refine ⟨l', _, hr, hwin, ?_, ?_, ?_, ?_, ?_, ?_⟩
  · rw [hlate, hcur]
    exact harr.late
  · rw [hseen]
    exact harr.seen_le
  · rw [hseen]
    exact harr.seen
  · intro inst hm
    rw [hsame]
    rcases List.mem_or_eq_of_mem_set hm with hm | rfl
    · exact harr.tested inst hm
    · rw [hretest, hshown]
  · intro inst hm hs
    rcases List.mem_or_eq_of_mem_set hm with hm | rfl
    · have := harr.closed_le inst hm hs
      rw [hhighest]
      split_ifs <;> omega
    · rw [hshown] at hs
      rw [instanceHasQuorum_iid, hnew, hhighest]
      by_cases hgt : ack.iid > (learnerArrive l ack).highestIidClosed
      · rw [if_pos ⟨hs, hgt⟩]
      · rw [if_neg fun hc => hgt hc.2]
        omega
  · intro hlt
    by_cases hmove : (instanceHasQuorum (learnerArrive l ack) new).2 = true ∧
        ack.iid > (learnerArrive l ack).highestIidClosed
    · rw [if_pos hmove] at hhighest
      refine ⟨ack.iid % w, _, List.getElem?_set_self hkw, ?_, ?_⟩
      · rw [instanceHasQuorum_iid, hnew, hhighest]
      · rw [hshown, hmove.1]
    · rw [if_neg hmove] at hhighest
      rw [hcur, hhighest] at hlt
      obtain ⟨k, inst, hk, hiid, hs⟩ := harr.closed hlt
      rw [hhighest]
      by_cases hsl : ack.iid % w = k
      · -- The closed instance is the ack's own, which then drops the ack.
        subst hsl
        obtain rfl := Option.some.inj (hslot.symm.trans hk)
        have hclosed : instanceHasQuorum (learnerArrive l ack) old = (old, true) := by
          simp [instanceHasQuorum, hs]
        have hpos : old.iid ≠ 0 := by omega
        obtain rfl := updateInstance_closed hpos hclosed hupd
        refine ⟨ack.iid % w, new, ?_, hiid, hs⟩
        rw [List.getElem?_set_self hkw, hclosed]
      · exact ⟨k, inst, by rw [List.getElem?_set_ne hsl]; exact hk, hiid, hs⟩

theorem Learner.Counted.receive (h : l.Counted w n slots received) {ack : AcceptAck}
    (hack : ack.Fits w n) :
    ∃ l' slots', learnerReceiveAccept l ack = .ok l' ∧
      l'.Counted w n slots' (received ++ [ack.iid]) := by
  by_cases hin : (learnerArrive l ack).currentIid ≤ ack.iid ∧
      ack.iid < (learnerArrive l ack).currentIid + w
  · exact h.take hack hin
  · exact ⟨_, slots, h.windowed.drop hack hin, h.arrive hack⟩

theorem Learner.Counted.deliver (h : l.Counted w n slots received) :
    ∃ l' out slots', learnerDeliverNext l = .ok (l', out) ∧ l'.Counted w n slots' received := by
  rcases h.windowed.deliver with ⟨hnone, _⟩ | ⟨ack, hsome, _, _, hadv, inst, hslot, hsame⟩
  · exact ⟨l, none, slots, hnone, h⟩
  have hnew : (learnerInstanceNew n).finalValue.isSome = false := rfl
  refine ⟨l.advance n, some ack, _, hsome, hadv, fun hlate => ?_, h.seen_le, h.seen,
    fun item hm => ?_, fun item hm hs => ?_, fun hlt => ?_⟩
  · -- An instance in use means that the learner has started.
    have h0 := h.windowed.late hlate inst (List.mem_of_getElem? hslot)
    have := h.windowed.current
    omega
  · rw [hadv.sized.hasQuorum_eq h.windowed.sized]
    have hfree : (instanceHasQuorum l (learnerInstanceNew n)).2 =
        (learnerInstanceNew n).finalValue.isSome := by
      rw [instanceHasQuorum_free h.windowed.sized, hnew]
    exact forall_mem_set h.tested hfree _ item hm
  · rcases List.mem_or_eq_of_mem_set hm with hm | rfl
    · exact h.closed_le item hm hs
    · rw [hnew] at hs
      cases hs
  · have hlt' : l.currentIid + 1 < l.highestIidClosed := hlt
    obtain ⟨k, item, hk, hiid, hs⟩ := h.closed (by omega)
    refine ⟨k, item, ?_, hiid, hs⟩
    rw [List.getElem?_set_ne]
    · exact hk
    · rintro rfl
      obtain rfl := Option.some.inj (hslot.symm.trans hk)
      omega

-- The two counters that `learner_has_holes` compares see exactly the closed instances
-- ahead.
theorem Learner.Counted.closedAhead_iff (h : l.Counted w n slots received) :
    l.ClosedAhead ↔ l.currentIid < l.highestIidClosed := by
  constructor
  · rintro ⟨iid, ack, hgt, inst, hat, hiid, hq, _⟩
    have hm : inst ∈ slots := by
      have hm := carrayAt_mem hat
      rw [h.windowed.ring.array] at hm
      obtain ⟨item, hm, he⟩ := List.mem_map.mp hm
      exact Option.some.inj he ▸ hm
    rw [h.tested inst hm] at hq
    have := h.closed_le inst hm hq
    omega
  · intro hlt
    obtain ⟨k, inst, hk, hiid, hs⟩ := h.closed hlt
    obtain ⟨_, hmod, hroom⟩ := h.windowed.window k inst hk (by omega)
    obtain ⟨ack, hack⟩ := Option.isSome_iff_exists.mp hs
    have hclosed : instanceHasQuorum l inst = (inst, true) := by simp [instanceHasQuorum, hs]
    refine ⟨inst.iid, ack, by omega, (h.windowed.closedWith_iff (by omega) ack).mpr ?_⟩
    exact ⟨inst, by rw [hmod]; exact hk, rfl, by rw [hclosed], by rw [hclosed]; exact hack⟩

theorem Learner.Counted.seen_iff (h : l.Counted w n slots received) :
    (∃ iid ∈ received, l.currentIid + w < iid) ↔ l.currentIid + w < l.highestIidSeen := by
  have hcur := h.windowed.current
  constructor
  · rintro ⟨iid, hm, hlt⟩
    have := h.seen_le iid hm
    omega
  · intro hlt
    rcases h.seen with hone | hm
    · omega
    · exact ⟨_, hm, hlt⟩

theorem Learner.Counted.hasHoles_iff (h : l.Counted w n slots received) (hw : w < 2 ^ 31) :
    (∃ stop, learnerHasHoles l = some (l.currentIid, stop) ∧ l.currentIid < stop) ↔
      (∃ iid ∈ received, l.currentIid + w < iid) ∨ l.ClosedAhead := by
  have hcur := h.windowed.current
  have hcount : carrayCount l.instances = w := by
    rw [carrayCount, h.windowed.ring.count, h.windowed.width]
  have hsum : uint32 (l.currentIid + w) = l.currentIid + w := uint32_of_lt (by omega)
  rw [h.seen_iff, h.closedAhead_iff]
  unfold learnerHasHoles
  rw [hcount, hsum]
  split_ifs with hseen hclosed
  · simp only [hseen, true_or, iff_true]
    exact ⟨l.highestIidSeen, rfl, by omega⟩
  · simp only [hclosed, or_true, iff_true]
    exact ⟨l.highestIidClosed, rfl, hclosed⟩
  · simp only [false_and, exists_false, false_iff]
    omega

-- The step and the run of the watched learner.
theorem Learner.Counted.call {s : Watching} (h : s.learner.Counted w n slots s.received)
    (l₀ : Learner) {c : LearnerCall} (hc : c.Fits w n) :
    ∃ s' slots', (watching l₀).step s c = some s' ∧ s'.learner.Counted w n slots' s'.received := by
  cases c with
  | receiveAccept ack =>
      obtain ⟨l', slots', hr, h'⟩ := h.receive hc
      refine ⟨s.after l' (.receiveAccept ack), slots', ?_, h'⟩
      simp [watching, learnerCall, hr, Except.map]
  | deliverNext =>
      obtain ⟨l', out, slots', hr, h'⟩ := h.deliver
      refine ⟨s.after l' .deliverNext, slots', ?_, h'⟩
      simp [watching, learnerCall, hr]

theorem Learner.Counted.run {s : Watching} (h : s.learner.Counted w n slots s.received)
    (l₀ : Learner) (calls : List LearnerCall) (hfits : ∀ c ∈ calls, c.Fits w n) :
    ∃ s' slots', (watching l₀).run s calls = some s' ∧
      s'.learner.Counted w n slots' s'.received := by
  induction calls generalizing s slots with
  | nil => exact ⟨s, slots, rfl, h⟩
  | cons c rest ih =>
      obtain ⟨mid, slots', hs, hmid⟩ := h.call l₀ (hfits c List.mem_cons_self)
      obtain ⟨s', last, hr, h'⟩ := ih hmid fun c' hm => hfits c' (List.mem_cons_of_mem c hm)
      refine ⟨s', last, ?_, h'⟩
      simp only [TransitionSystem.run, hs, Option.bind_some]
      exact hr

theorem learnerNew_counted {cfg : PaxosConfig} {l : Learner} (hw : 1 ≤ cfg.learnerInstances)
    (hnew : learnerNew cfg n = .ok l) :
    l.Counted cfg.learnerInstances n
      (List.replicate cfg.learnerInstances (learnerInstanceNew n)) [] := by
  obtain ⟨l', hl, _, hcur, hwin⟩ := learnerNew_windowed cfg n hw
  obtain rfl := Except.ok.inj (hl.symm.trans hnew)
  obtain ⟨a, _, hl⟩ := except_bind_ok hl
  have hfields : l'.highestIidSeen = 1 ∧ l'.highestIidClosed = 1 := by
    cases hl
    exact ⟨rfl, rfl⟩
  have hfree (inst : LearnerInstance)
      (hm : inst ∈ List.replicate cfg.learnerInstances (learnerInstanceNew n)) :
      inst = learnerInstanceNew n := List.eq_of_mem_replicate hm
  refine ⟨hwin, fun _ => hcur, by simp, .inl hfields.1, fun inst hm => ?_, fun inst hm hs => ?_,
    fun hlt => ?_⟩
  · rw [hfree inst hm, instanceHasQuorum_free hwin.sized]
    rfl
  · rw [hfree inst hm] at hs
    cases hs
  · omega

-- After any calls, the gap is reported exactly when the condition holds.
theorem no_silent_gap_iff (cfg : PaxosConfig) (n : Nat) (l₀ : Learner)
    (hnew : learnerNew cfg n = .ok l₀) (hw : 1 ≤ cfg.learnerInstances)
    (hmax : cfg.learnerInstances < 2 ^ 31) (calls : List LearnerCall)
    (hfits : ∀ c ∈ calls, c.Fits cfg.learnerInstances n) :
    ∃ s, (watching l₀).run (watching l₀).init calls = some s ∧
      (s.NoSilentGap ↔ s.GapShows cfg.learnerInstances) := by
  have hinit : (watching l₀).init.learner.Counted cfg.learnerInstances n
      (List.replicate cfg.learnerInstances (learnerInstanceNew n))
      (watching l₀).init.received := learnerNew_counted hw hnew
  obtain ⟨s, slots, hrun, h⟩ := hinit.run l₀ calls hfits
  refine ⟨s, hrun, ?_⟩
  unfold Watching.NoSilentGap Watching.GapShows
  rw [h.hasHoles_iff hmax]
  constructor
  · intro hgap
    by_cases hmissed : ∃ iid ∈ s.missed, s.learner.currentIid ≤ iid
    · exact .inr (hgap (.inr hmissed))
    · left
      intro iid hm
      by_contra hle
      exact hmissed ⟨iid, hm, by omega⟩
  · rintro (hnone | hshows) (hclosed | ⟨iid, hm, hle⟩)
    · exact .inr hclosed
    · have := hnone iid hm
      omega
    · exact hshows
    · exact hshows

-- A learner with two slots misses instance 5 and sees the hole, while the ack for
-- 3 alone would be missed in silence.
theorem no_silent_gap_far : ∃ l₀ s, learnerNew ⟨2, true, 1⟩ 3 = .ok l₀ ∧
    (watching l₀).run (watching l₀).init [.receiveAccept ⟨0, 5, 10, 10, false, [7]⟩] = some s ∧
    s.NoSilentGap := by
  obtain ⟨s, hrun, hiff⟩ := no_silent_gap_iff ⟨2, true, 1⟩ 3 _ rfl (by decide) (by decide)
    [.receiveAccept ⟨0, 5, 10, 10, false, [7]⟩] (by decide)
  refine ⟨_, s, rfl, hrun, hiff.mpr (.inr (.inl ⟨5, ?_, ?_⟩))⟩
  · obtain rfl := Option.some.inj hrun
    decide
  · obtain rfl := Option.some.inj hrun
    decide

-- An ack exactly one window ahead is dropped, and nothing is reported.
theorem gap_at_window_end : ∃ l₀ s, learnerNew ⟨2, true, 1⟩ 3 = .ok l₀ ∧
    (watching l₀).run (watching l₀).init [.receiveAccept ⟨0, 3, 10, 10, false, [7]⟩] = some s ∧
    s.missed = [3] ∧ s.learner.currentIid = 1 ∧ learnerHasHoles s.learner = none ∧
    ¬s.NoSilentGap := by
  refine ⟨_, _, rfl, rfl, rfl, rfl, rfl, fun hgap => ?_⟩
  obtain ⟨stop, hsome, _⟩ := hgap (.inr ⟨3, List.mem_cons_self, by decide⟩)
  cases hsome

end LibPaxos
