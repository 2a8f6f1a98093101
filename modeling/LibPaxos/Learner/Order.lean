import LibPaxos.Learner.Theorems

namespace LibPaxos

-- A learner that has delivered the instances from `start` on, one after the other.
-- At the end of the iids the next one is 0, which no instance has.
structure Learner.InOrder (n start : Nat) (l : Learner) (delivered : List AcceptAck) : Prop where
  made : l.Made n fun _ => True
  iids : delivered.map AcceptAck.iid = List.range' start delivered.length
  current : l.currentIid = start + delivered.length ∧ l.currentIid < 2 ^ 32 ∨ l.currentIid = 0
  late : l.lateStart = true →
    delivered = [] ∧ ∀ inst, some inst ∈ l.instances.array → inst.iid = 0

variable {n start : Nat} {l l' : Learner} {delivered : List AcceptAck}

theorem Learner.InOrder.new {cfg : PaxosConfig} (h : learnerNew cfg n = .ok l) :
    l.InOrder n 1 [] ∧ l.lateStart = !cfg.learnerCatchUp := by
  have hmade := learnerNew_made (fun _ => True) h
  obtain ⟨_, hslots⟩ := learnerNew_slots h
  obtain ⟨a, _, hl⟩ := except_bind_ok h
  cases hl
  refine ⟨⟨hmade, rfl, .inl ⟨rfl, show 1 < 2 ^ 32 by decide⟩,
    fun _ => ⟨rfl, fun inst hm => ?_⟩⟩, rfl⟩
  rw [hslots inst hm]
  rfl

theorem learnerWriteInstance_currentIid (l : Learner) (iid : Nat) (inst : LearnerInstance) :
    (learnerWriteInstance l iid inst).currentIid = l.currentIid := rfl

-- An ack moves a learner on only if it is the first one of a late learner.
theorem learnerReceiveAccept_current {ack : AcceptAck}
    (hr : learnerReceiveAccept l ack = .ok l') :
    l'.lateStart = false ∧ l'.currentIid = if l.lateStart then ack.iid else l.currentIid := by
  have harr : (learnerArrive l ack).lateStart = false ∧
      (learnerArrive l ack).currentIid = if l.lateStart then ack.iid else l.currentIid := by simp
  unfold learnerReceiveAccept at hr
  dsimp only at hr
  split_ifs at hr
  · exact Except.ok.inj hr ▸ harr
  · exact Except.ok.inj hr ▸ harr
  · obtain ⟨mid, hupd, hr⟩ := except_bind_ok hr
    obtain ⟨inst, _, hr⟩ := except_bind_ok hr
    obtain ⟨old, _, hupd⟩ := except_bind_ok hupd
    obtain ⟨new, _, hupd⟩ := except_bind_ok hupd
    cases hupd
    cases hr
    obtain ⟨closed, he⟩ := learnerNoteClosed_eq
      (learnerWriteInstance (learnerArrive l ack) ack.iid new) ack.iid inst
    rw [he]
    exact harr

theorem Learner.InOrder.receive (h : l.InOrder n start delivered) {ack : AcceptAck}
    (hplain : ack.Plain n) (hlt : ack.iid < 2 ^ 32)
    (hr : learnerReceiveAccept l ack = .ok l') :
    l'.InOrder n (if l.lateStart then ack.iid else start) delivered ∧ l'.lateStart = false := by
  obtain ⟨hlate, hcur⟩ := learnerReceiveAccept_current hr
  refine ⟨⟨h.made.receive trivial hplain hr, ?_, ?_, fun hl => ?_⟩, hlate⟩
  · by_cases hl : l.lateStart = true
    · rw [(h.late hl).1]
      rfl
    · rw [if_neg hl]
      exact h.iids
  · by_cases hl : l.lateStart = true
    · rw [if_pos hl] at hcur ⊢
      rw [(h.late hl).1, hcur]
      exact .inl ⟨rfl, hlt⟩
    · rw [if_neg hl] at hcur ⊢
      rw [hcur]
      exact h.current
  · rw [hlate] at hl
    cases hl

-- What is delivered is the instance that is next.
theorem Learner.InOrder.deliver (h : l.InOrder n start delivered) {out : Option AcceptAck}
    (hr : learnerDeliverNext l = .ok (l', out)) :
    l'.InOrder n start (delivered ++ out.toList) ∧ l'.lateStart = l.lateStart := by
  have hmade := (h.made.deliver hr).1
  obtain ⟨inst, hget, hr⟩ := except_bind_ok hr
  have hinst := h.made.get hget
  rcases hinst.hasQuorum h.made.sized with hq | ⟨ack, hq, hfinal, _⟩
  · rw [hq] at hr
    cases hr
    exact ⟨by simpa using h, rfl⟩
  · -- A closed instance is not a free one, so its iid is the one that was asked for.
    have hused : inst.iid ≠ 0 := by
      intro h0
      rw [hinst.free h0, instanceHasQuorum_free h.made.sized] at hq
      cases congrArg Prod.snd hq
    have hsame : inst.iid = l.currentIid := (learnerGetInstance_ok hget).2.resolve_right hused
    have hiid : ack.iid = l.currentIid := (hfinal.final ack rfl).1.trans hsame
    have hcurrent : l.currentIid = start + delivered.length ∧ l.currentIid < 2 ^ 32 :=
      h.current.resolve_right (hsame ▸ hused)
    rw [hq] at hr
    cases hr
    refine ⟨⟨hmade, ?_, ?_, fun hl => ?_⟩, rfl⟩
    · rw [Option.toList_some, List.map_append, h.iids, List.length_append, List.length_singleton,
        List.range'_concat, Nat.one_mul, List.map_singleton, hiid, hcurrent.1]
    · dsimp only
      rw [Option.toList_some, List.length_append, List.length_singleton, uint32]
      by_cases hend : l.currentIid + 1 = 2 ^ 32
      · rw [learnerWriteInstance_currentIid, hend]
        exact .inr rfl
      · refine .inl ?_
        rw [learnerWriteInstance_currentIid]
        omega
    · exact absurd ((h.late hl).2 inst (carrayAt_mem (learnerGetInstance_ok hget).1)) hused

-- A process whose deliveries are in order, from the first instance on if it catches up.
structure LearnerProc.InOrder (cfg : PaxosConfig) (n start : Nat) (lp : LearnerProc) : Prop where
  pos : 1 ≤ start
  first : cfg.learnerCatchUp = true → start = 1
  iids : lp.delivered.map AcceptAck.iid = List.range' start lp.delivered.length
  state : ∀ l, lp.state = .ok l → l.InOrder n start lp.delivered ∧
    (cfg.learnerCatchUp = true → l.lateStart = false)

theorem LearnerProc.InOrder.started (cfg : PaxosConfig) (n : Nat) :
    (LearnerProc.start cfg n).InOrder cfg n 1 := by
  refine ⟨Nat.le_refl 1, fun _ => rfl, rfl, fun l hl => ?_⟩
  obtain ⟨hnew, hlate⟩ := Learner.InOrder.new hl
  exact ⟨hnew, fun hc => by rw [hlate, hc]; rfl⟩

-- A call delivers the next instance, or nothing. The first ack of a late learner moves
-- its start.
theorem LearnerProc.InOrder.call {cfg : PaxosConfig} {lp : LearnerProc}
    (h : lp.InOrder cfg n start) (hl : lp.state = .ok l) {c : LearnerCall}
    (hc : ∀ ack, c = .receiveAccept ack → ack.Plain n ∧ ack.iid < 2 ^ 32) :
    ∃ start', (lp.call l c).InOrder cfg n start' ∧
      ((lp.call l c).delivered = lp.delivered ∧ (lp.delivered = [] ∨ start' = start) ∨
        ∃ ack, (lp.call l c).delivered = lp.delivered ++ [ack] ∧ start' = start) := by
  obtain ⟨horder, hcatch⟩ := h.state l hl
  unfold LearnerProc.call
  cases hr : learnerCall l c with
  | error fault => exact ⟨start, ⟨h.pos, h.first, h.iids, nofun⟩, .inl ⟨rfl, .inr rfl⟩⟩
  | ok result =>
      obtain ⟨l', out⟩ := result
      cases c with
      | receiveAccept ack =>
          obtain ⟨hplain, hlt⟩ := hc ack rfl
          obtain ⟨l'', hreceive, he⟩ : ∃ l'', learnerReceiveAccept l ack = .ok l'' ∧
              (l'', none) = (l', out) := by
            simp only [learnerCall, Except.map] at hr
            split at hr
            · cases hr
            · rename_i l'' hreceive
              exact ⟨l'', hreceive, Except.ok.inj hr⟩
          cases he
          obtain ⟨hnew, hlate⟩ := horder.receive hplain hlt hreceive
          simp only [Option.toList_none, List.append_nil]
          refine ⟨if l.lateStart then ack.iid else start,
            ⟨?_, fun hcfg => ?_, hnew.iids, fun state hs => ?_⟩, .inl ⟨trivial, ?_⟩⟩
          · split_ifs
            · exact hplain.iid
            · exact h.pos
          · rw [hcatch hcfg]
            exact h.first hcfg
          · cases hs
            exact ⟨hnew, fun _ => hlate⟩
          · by_cases hl : l.lateStart = true
            · exact .inl (horder.late hl).1
            · exact .inr (if_neg hl)
      | deliverNext =>
          obtain ⟨hnew, hlate⟩ := horder.deliver hr
          refine ⟨start, ⟨h.pos, h.first, hnew.iids, fun state hs => ?_⟩, ?_⟩
          · cases hs
            exact ⟨hnew, fun hcfg => hlate.trans (hcatch hcfg)⟩
          · cases out with
            | none => exact .inl ⟨List.append_nil _, .inr rfl⟩
            | some ack => exact .inr ⟨ack, rfl, rfl⟩

end LibPaxos
