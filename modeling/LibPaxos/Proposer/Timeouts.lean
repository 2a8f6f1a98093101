import LibPaxos.Drain
import LibPaxos.Proposer.Theorems

namespace LibPaxos

-- The loops of `proposer_check_timeouts`. Each asks the iterator for the next
-- request until it returns NULL.
def proposerTimeoutIterator (now : Timeval) : TimeoutIterator where
  pi := 0
  ai := 0
  timeout := now

def timeoutPrepares (cfg : PaxosConfig) (fuel : Nat) (p : Proposer) (iter : TimeoutIterator) :
    Except Fault (Option ((Proposer × TimeoutIterator) × List PrepareReq)) :=
  drain (fun s => .ok (timeoutIteratorPrepare cfg s.1 s.2)) fuel (p, iter)

def timeoutAccepts (cfg : PaxosConfig) (fuel : Nat) (p : Proposer) (iter : TimeoutIterator) :
    Except Fault (Option ((Proposer × TimeoutIterator) × List AcceptReq)) :=
  drain (fun s => timeoutIteratorAccept cfg s.1 s.2) fuel (p, iter)

-- The requests are those it sends. `none` stands for a loop that has not ended
-- within `fuel` calls.
def proposerCheckTimeouts (cfg : PaxosConfig) (fuel : Nat) (p : Proposer) (now : Timeval) :
    Except Fault (Option (Proposer × List PrepareReq × List AcceptReq)) := do
  match ← timeoutPrepares cfg fuel p (proposerTimeoutIterator now) with
  | none => return none
  | some ((p, iter), prepares) =>
      match ← timeoutAccepts cfg fuel p iter with
      | none => return none
      | some ((p, _), accepts) => return some (p, prepares, accepts)

-- The instances that a sweep at time `t` sends again, and what it makes of them.
def Instance.due (cfg : PaxosConfig) (t : Timeval) (inst : Instance) : Bool :=
  !quorumReached inst.quorum && instanceHasTimedout cfg inst t

def Instance.renew (cfg : PaxosConfig) (t : Timeval) (inst : Instance) : Instance :=
  if inst.due cfg t then { inst with createdAt := t } else inst

section

variable {cfg : PaxosConfig} {t : Timeval}

theorem Instance.renew_of_due {inst : Instance} (h : inst.due cfg t = true) :
    inst.renew cfg t = { inst with createdAt := t } := if_pos h

theorem map_renew_of_not_due {insts : List Instance}
    (h : ∀ inst ∈ insts, inst.due cfg t = false) : insts.map (Instance.renew cfg t) = insts := by
  have hsame (inst : Instance) (hm : inst ∈ insts) : inst.renew cfg t = inst := by
    rw [Instance.renew, h inst hm]
    rfl
  rw [List.map_congr_left hsame, List.map_id']

-- A renewed instance is not due at the same time again.
theorem Instance.renew_not_due (hpos : 0 < cfg.proposerTimeout) (inst : Instance) :
    (inst.renew cfg t).due cfg t = false := by
  unfold Instance.renew
  by_cases h : inst.due cfg t = true
  · have hzero : timevalDiff t t = 0 := by simp [timevalDiff, doubleToInt, longToInt]
    have hfresh : instanceHasTimedout cfg { inst with createdAt := t } t = false := by
      simp only [instanceHasTimedout, hzero, decide_eq_false_iff_not]
      omega
    rw [if_pos h, Instance.due, hfresh, Bool.and_false]
  · rw [if_neg h]
    simpa using h

theorem nextTimedout_cons (inst : Instance) (rest : List Instance) (i : Nat) :
    nextTimedout cfg t (inst :: rest) i =
      if inst.due cfg t then (some i, i + 1) else nextTimedout cfg t rest (i + 1) := by
  rw [nextTimedout, Instance.due]
  cases quorumReached inst.quorum <;> simp

theorem nextTimedout_none {insts : List Instance} (h : ∀ inst ∈ insts, inst.due cfg t = false)
    (i : Nat) : nextTimedout cfg t insts i = (none, i + insts.length) := by
  induction insts generalizing i with
  | nil => rfl
  | cons inst rest ih =>
      obtain ⟨hinst, hrest⟩ := List.forall_mem_cons.mp h
      rw [nextTimedout_cons, hinst, ih hrest, List.length_cons]
      simp only [Bool.false_eq_true, if_false, Prod.mk.injEq, true_and]
      omega

theorem nextTimedout_some {before after : List Instance} {inst : Instance}
    (hbefore : ∀ other ∈ before, other.due cfg t = false) (hinst : inst.due cfg t = true)
    (i : Nat) : nextTimedout cfg t (before ++ inst :: after) i =
      (some (i + before.length), i + before.length + 1) := by
  induction before generalizing i with
  | nil =>
      rw [List.nil_append, nextTimedout_cons, if_pos hinst]
      rfl
  | cons other rest ih =>
      obtain ⟨hother, hrest⟩ := List.forall_mem_cons.mp hbefore
      rw [List.cons_append, nextTimedout_cons, hother, ih hrest, List.length_cons]
      simp only [Bool.false_eq_true, if_false, Prod.mk.injEq, Option.some.injEq]
      omega

-- The instances before the cursor are renewed, those from it on are untouched.
def Swept (cfg : PaxosConfig) (t : Timeval) (insts ahead now : List Instance) (cursor : Nat) :
    Prop :=
  ∃ past, insts = past ++ ahead ∧ now = past.map (Instance.renew cfg t) ++ ahead ∧
    cursor = past.length

theorem Swept.start (cfg : PaxosConfig) (t : Timeval) (insts : List Instance) :
    Swept cfg t insts insts insts 0 := ⟨[], rfl, rfl, rfl⟩

theorem Swept.done {insts now : List Instance} {cursor : Nat}
    (h : Swept cfg t insts [] now cursor) : now = insts.map (Instance.renew cfg t) := by
  obtain ⟨past, rfl, rfl, _⟩ := h
  rw [List.append_nil, List.append_nil]

theorem Swept.drop {insts ahead now : List Instance} {cursor : Nat}
    (h : Swept cfg t insts ahead now cursor) : now.drop cursor = ahead := by
  obtain ⟨past, _, rfl, rfl⟩ := h
  simp

theorem Swept.skip {insts ahead now : List Instance} {cursor : Nat}
    (h : Swept cfg t insts ahead now cursor) (hnone : ∀ inst ∈ ahead, inst.due cfg t = false) :
    Swept cfg t insts [] now (cursor + ahead.length) := by
  obtain ⟨past, rfl, rfl, rfl⟩ := h
  refine ⟨past ++ ahead, by simp, ?_, by simp⟩
  rw [List.map_append, map_renew_of_not_due hnone, List.append_nil]

theorem Swept.find {insts before after now : List Instance} {inst : Instance} {cursor : Nat}
    (h : Swept cfg t insts (before ++ inst :: after) now cursor)
    (hbefore : ∀ other ∈ before, other.due cfg t = false) (hinst : inst.due cfg t = true) :
    now[cursor + before.length]? = some inst ∧
      Swept cfg t insts after (now.set (cursor + before.length) { inst with createdAt := t })
        (cursor + before.length + 1) := by
  obtain ⟨past, rfl, rfl, rfl⟩ := h
  constructor
  · rw [List.getElem?_append_right (by simp)]
    simp
  · refine ⟨past ++ before ++ [inst], by simp, ?_, by simp [Nat.add_assoc]⟩
    rw [List.set_append_right _ _ (by simp), List.length_map, Nat.add_sub_cancel_left,
      List.set_append_right _ _ (Nat.le_refl _), Nat.sub_self, List.set_cons_zero,
      List.map_append, List.map_append, map_renew_of_not_due hbefore, List.map_singleton,
      Instance.renew_of_due hinst]
    simp

theorem timeoutIteratorPrepare_walks (p : Proposer) (t : Timeval) :
    Walks (ε := Fault) (fun s => .ok (timeoutIteratorPrepare cfg s.1 s.2)) (Instance.due cfg t)
      (fun inst req => ⟨inst.iid, inst.ballot⟩ = req)
      (fun ahead s => Swept cfg t p.prepareInstances ahead s.1.prepareInstances s.2.pi ∧
        s.1 = { p with prepareInstances := s.1.prepareInstances } ∧ s.2.ai = 0 ∧
        s.2.timeout = t) := by
  constructor
  · rintro ahead ⟨q, iter⟩ ⟨hswept, hsame, hai, rfl⟩ hnone
    refine ⟨(q, { iter with pi := iter.pi + ahead.length }), ?_, hswept.skip hnone, hsame, hai, rfl⟩
    simp only [timeoutIteratorPrepare, hswept.drop, nextTimedout_none hnone]
    rfl
  · rintro before inst after ⟨q, iter⟩ ⟨hswept, hsame, hai, rfl⟩ hbefore hinst
    obtain ⟨hget, hnext⟩ := hswept.find hbefore hinst
    refine ⟨({ q with
        prepareInstances := q.prepareInstances.set (iter.pi + before.length)
          { inst with createdAt := iter.timeout } },
      { iter with pi := iter.pi + before.length + 1 }), ⟨inst.iid, inst.ballot⟩, ?_, rfl, hnext,
      ?_, hai, rfl⟩
    · dsimp only at hget
      simp only [timeoutIteratorPrepare, hswept.drop, nextTimedout_some hbefore hinst,
        Option.bind_some, hget, Option.map_some]
    · dsimp only at hsame ⊢
      rw [hsame]

-- An instance that is being accepted has a value, or the loop ends the process.
theorem timeoutIteratorAccept_walks (p : Proposer) (t : Timeval)
    (hvalue : ∀ inst ∈ p.acceptInstances, inst.value.isSome = true) :
    Walks (fun s => timeoutIteratorAccept cfg s.1 s.2) (Instance.due cfg t)
      (fun inst req => req.iid = inst.iid ∧ req.ballot = inst.ballot ∧ inst.value = some req.value)
      (fun ahead s => Swept cfg t p.acceptInstances ahead s.1.acceptInstances s.2.ai ∧
        s.1 = { p with acceptInstances := s.1.acceptInstances } ∧ s.2.timeout = t) := by
  constructor
  · rintro ahead ⟨q, iter⟩ ⟨hswept, hsame, rfl⟩ hnone
    refine ⟨(q, { iter with ai := iter.ai + ahead.length }), ?_, hswept.skip hnone, hsame, rfl⟩
    simp only [timeoutIteratorAccept, hswept.drop, nextTimedout_none hnone]
    rfl
  · rintro before inst after ⟨q, iter⟩ ⟨hswept, hsame, rfl⟩ hbefore hinst
    obtain ⟨hget, hnext⟩ := hswept.find hbefore hinst
    have hmem : inst ∈ p.acceptInstances := by
      obtain ⟨past, hsplit, _⟩ := hswept
      simp [hsplit]
    obtain ⟨value, hv⟩ := Option.isSome_iff_exists.mp (hvalue inst hmem)
    refine ⟨({ q with
        acceptInstances := q.acceptInstances.set (iter.ai + before.length)
          { inst with createdAt := iter.timeout } },
      { iter with ai := iter.ai + before.length + 1 }), ⟨inst.iid, inst.ballot, value⟩, ?_,
      ⟨rfl, rfl, hv⟩, hnext, ?_, rfl⟩
    · dsimp only at hget
      simp only [timeoutIteratorAccept, hswept.drop, nextTimedout_some hbefore hinst,
        Option.bind_some, hget, Option.map_some, hv]
    · dsimp only at hsame ⊢
      rw [hsame]

theorem proposerCheckTimeouts_eq (cfg : PaxosConfig) {p : Proposer} (t : Timeval)
    (hvalue : ∀ inst ∈ p.acceptInstances, inst.value.isSome = true) {fuel : Nat}
    (hprepare : p.prepareInstances.length < fuel) (haccept : p.acceptInstances.length < fuel) :
    ∃ prepares accepts,
      proposerCheckTimeouts cfg fuel p t =
        .ok (some ({ p with
          prepareInstances := p.prepareInstances.map (Instance.renew cfg t)
          acceptInstances := p.acceptInstances.map (Instance.renew cfg t) }, prepares, accepts)) ∧
      prepares = (p.prepareInstances.filter (Instance.due cfg t)).map
        (fun inst => ⟨inst.iid, inst.ballot⟩) ∧
      List.Forall₂ (fun inst req =>
          req.iid = inst.iid ∧ req.ballot = inst.ballot ∧ inst.value = some req.value)
        (p.acceptInstances.filter (Instance.due cfg t)) accepts := by
  obtain ⟨⟨q, iter⟩, prepares, hfirst, ⟨hdone, hq, hai, ht⟩, hprepares⟩ :=
    (timeoutIteratorPrepare_walks p t).drained (s := (p, proposerTimeoutIterator t))
      ⟨Swept.start cfg t p.prepareInstances, rfl, rfl, rfl⟩
      (Nat.lt_of_le_of_lt (List.length_filter_le _ _) hprepare)
  dsimp only at hdone hq hai ht
  rw [hdone.done] at hq
  have hsame : q.acceptInstances = p.acceptInstances := by rw [hq]
  obtain ⟨⟨r, iter'⟩, accepts, hsecond, ⟨hdone', hr, _⟩, haccepts⟩ :=
    (timeoutIteratorAccept_walks q t (by rwa [hsame])).drained (s := (q, iter))
      ⟨hai ▸ Swept.start cfg t q.acceptInstances, rfl, ht⟩
      (Nat.lt_of_le_of_lt (List.length_filter_le _ _) (by rwa [hsame]))
  dsimp only at hdone' hr
  rw [hdone'.done] at hr
  rw [hsame] at haccepts
  refine ⟨prepares, accepts, ?_, ?_, haccepts⟩
  · have hloop : timeoutPrepares cfg fuel p (proposerTimeoutIterator t) =
        .ok (some ((q, iter), prepares)) := hfirst
    have hloop' : timeoutAccepts cfg fuel q iter = .ok (some ((r, iter'), accepts)) := hsecond
    rw [proposerCheckTimeouts, hloop]
    change (timeoutAccepts cfg fuel q iter >>= _) = _
    rw [hloop', hr, hq]
    rfl
  · have hmap := List.forall₂_map_left_iff.mpr hprepares
    rw [List.forall₂_eq_eq_eq] at hmap
    exact hmap.symm

end

-- A value is given to an instance before it waits for accept acks.
theorem Move.valued {p p' : Proposer} {c : ProposerCall} {out : ProposerOutput}
    (hm : Move p c p' out) (h : ∀ inst ∈ p.acceptInstances, inst.value.isSome = true) :
    ∀ inst ∈ p'.acceptInstances, inst.value.isSome = true := by
  cases hm with
  | idle | propose | prepare | promise | preempt | timeoutPrepare => exact h
  | accept inst rest value values hfront hreached hvalue =>
      exact List.forall_mem_append.mpr ⟨h, List.forall_mem_singleton.mpr rfl⟩
  | ackCounted ack now before after inst quorum hsplit hiid hballot hvb hadd hopen =>
      exact forall_mem_split hsplit h fun hinst => hinst
  | ackClosed | ackPreempted => exact fun item hi => h item (mem_instanceRemove.mp hi).1
  | timeoutAccept iter before after inst value hsplit hvalue =>
      exact forall_mem_split hsplit h fun hinst => hinst

theorem proposerSystem_valued {cfg : PaxosConfig} {id n : Nat} {pr : ProposerProc}
    (hr : (proposerSystem cfg id n).Reachable (fun _ _ => True) pr) :
    ∀ inst ∈ pr.state.acceptInstances, inst.value.isSome = true := by
  refine (hr.invariant (fun pr => pr.state.Opened ∧
    ∀ inst ∈ pr.state.acceptInstances, inst.value.isSome = true) ⟨.new id n, ?_⟩ ?_).2
  · simp [proposerSystem, ProposerProc.start, proposerNew]
  · rintro pr c pr' _ ⟨hopen, hvalue⟩ _ hs
    simp only [proposerSystem, Option.ite_none_left_eq_some, Option.some.injEq] at hs
    obtain ⟨_, rfl⟩ := hs
    rcases hcall : pr.call cfg c with ⟨next, out⟩
    rcases ProposerProc.call_cases hopen.preparing hcall with ⟨_, _, rfl, _⟩ | ⟨p, hm, rfl⟩
    · exact ⟨hopen, hvalue⟩
    · exact ⟨hopen.move hm, hm.valued hvalue⟩

-- A sweep sends every due instance once and in order, and renews exactly those.
-- With a positive timeout the next sweep at the same time sends nothing.
theorem timeout_sweep (cfg : PaxosConfig) (id n : Nat) (pr : ProposerProc)
    (hr : (proposerSystem cfg id n).Reachable (fun _ _ => True) pr) (t : Timeval) (fuel : Nat)
    (hprepare : pr.state.prepareInstances.length < fuel)
    (haccept : pr.state.acceptInstances.length < fuel) :
    ∃ p prepares accepts,
      proposerCheckTimeouts cfg fuel pr.state t = .ok (some (p, prepares, accepts)) ∧
      p = { pr.state with
        prepareInstances := pr.state.prepareInstances.map (Instance.renew cfg t)
        acceptInstances := pr.state.acceptInstances.map (Instance.renew cfg t) } ∧
      prepares = (pr.state.prepareInstances.filter (Instance.due cfg t)).map
        (fun inst => ⟨inst.iid, inst.ballot⟩) ∧
      List.Forall₂ (fun inst req =>
          req.iid = inst.iid ∧ req.ballot = inst.ballot ∧ inst.value = some req.value)
        (pr.state.acceptInstances.filter (Instance.due cfg t)) accepts ∧
      (0 < cfg.proposerTimeout →
        proposerCheckTimeouts cfg fuel p t = .ok (some (p, [], []))) := by
  have hvalue := proposerSystem_valued hr
  obtain ⟨prepares, accepts, hsweep, hprepares, haccepts⟩ :=
    proposerCheckTimeouts_eq cfg t hvalue hprepare haccept
  refine ⟨_, prepares, accepts, hsweep, rfl, hprepares, haccepts, fun hpos => ?_⟩
  have hdone (insts : List Instance) :
      ∀ inst ∈ insts.map (Instance.renew cfg t), inst.due cfg t = false := by
    intro inst hm
    obtain ⟨old, _, rfl⟩ := List.mem_map.mp hm
    exact old.renew_not_due hpos
  have hnone (insts : List Instance) :
      (insts.map (Instance.renew cfg t)).filter (Instance.due cfg t) = [] := by
    apply List.filter_eq_nil_iff.mpr
    intro inst hm
    rw [hdone insts inst hm]
    exact Bool.false_ne_true
  have hvalue' : ∀ inst ∈ pr.state.acceptInstances.map (Instance.renew cfg t),
      inst.value.isSome = true := by
    intro inst hm
    obtain ⟨old, hold, rfl⟩ := List.mem_map.mp hm
    have := hvalue old hold
    unfold Instance.renew
    split_ifs <;> exact this
  have hprepare' : (pr.state.prepareInstances.map (Instance.renew cfg t)).length < fuel := by
    rwa [List.length_map]
  have haccept' : (pr.state.acceptInstances.map (Instance.renew cfg t)).length < fuel := by
    rwa [List.length_map]
  obtain ⟨prepares', accepts', hsweep', hprepares', haccepts'⟩ :=
    proposerCheckTimeouts_eq cfg (p := { pr.state with
        prepareInstances := pr.state.prepareInstances.map (Instance.renew cfg t)
        acceptInstances := pr.state.acceptInstances.map (Instance.renew cfg t) })
      t hvalue' hprepare' haccept'
  dsimp only at hsweep' hprepares' haccepts'
  rw [hnone, List.map_nil] at hprepares'
  rw [hnone, List.forall₂_nil_left_iff] at haccepts'
  rw [hsweep', hprepares', haccepts', map_renew_of_not_due (hdone _),
    map_renew_of_not_due (hdone _)]

-- Two instances are being prepared and one is being accepted. The one that has its
-- promises is passed over.
def sweptCalls : List ProposerCall :=
  [.propose [7], .prepare (fun _ => 0) ⟨0, 0⟩, .prepare (fun _ => 0) ⟨0, 0⟩,
    .prepare (fun _ => 0) ⟨0, 0⟩, .receivePrepareAck ⟨0, 1, 10, 0, []⟩ ⟨0, 0⟩, .accept,
    .receivePrepareAck ⟨0, 2, 10, 0, []⟩ ⟨0, 0⟩]

theorem timeout_sweep_mixed : ∃ pr,
    (proposerSystem {} 0 1).run (ProposerProc.start 0 1) sweptCalls = some pr ∧
      ∃ p, proposerCheckTimeouts {} 3 pr.state ⟨1, 0⟩ =
          .ok (some (p, [⟨3, 10⟩], [⟨1, 10, [7]⟩])) ∧
        proposerCheckTimeouts {} 3 p ⟨1, 0⟩ = .ok (some (p, [], [])) := by
  obtain ⟨pr, hrun, hprepare, haccept, hresult⟩ : ∃ pr,
      (proposerSystem {} 0 1).run (ProposerProc.start 0 1) sweptCalls = some pr ∧
        pr.state.prepareInstances.length < 3 ∧ pr.state.acceptInstances.length < 3 ∧
        ∃ p, proposerCheckTimeouts {} 3 pr.state ⟨1, 0⟩ =
          .ok (some (p, [⟨3, 10⟩], [⟨1, 10, [7]⟩])) :=
    ⟨_, rfl, by decide, by decide, _, rfl⟩
  have hm :
      (proposerSystem {} 0 1).Meets (fun _ _ => True) (ProposerProc.start 0 1) sweptCalls := by
    decide
  have hr := TransitionSystem.reachable_of_run _ hm hrun
  obtain ⟨p, prepares, accepts, hsweep, _, _, _, hagain⟩ :=
    timeout_sweep {} 0 1 pr hr ⟨1, 0⟩ 3 hprepare haccept
  obtain ⟨p', hresult⟩ := hresult
  obtain rfl : p' = p := by
    rw [hresult, Except.ok.injEq, Option.some.injEq, Prod.mk.injEq] at hsweep
    exact hsweep.1
  exact ⟨pr, hrun, p', hresult, hagain (by decide)⟩

structure Timeval.Normalised (t : Timeval) : Prop where
  nonneg : 0 ≤ t.usec
  lt : t.usec < 1000000

-- In microseconds.
def Timeval.elapsed (t1 t2 : Timeval) : Int :=
  (t2.sec - t1.sec) * 1000000 + (t2.usec - t1.usec)

-- The seconds alone and the whole difference fit an `int` of microseconds.
def Timeval.Fits (t1 t2 : Timeval) : Prop :=
  t2.sec - t1.sec ≤ 2147 ∧ t1.elapsed t2 < 2 ^ 31

theorem timevalDiff_eq {t1 t2 : Timeval} (h1 : t1.Normalised) (h2 : t2.Normalised)
    (hle : 0 ≤ t1.elapsed t2) :
    timevalDiff t1 t2 =
      if t2.sec - t1.sec ≤ 2147 then
        if t1.elapsed t2 < 2 ^ 31 then t1.elapsed t2 else t1.elapsed t2 - 2 ^ 32
      else 0 := by
  obtain ⟨hn1, hl1⟩ := h1
  obtain ⟨hn2, hl2⟩ := h2
  unfold Timeval.elapsed at *
  unfold timevalDiff doubleToInt
  generalize hs : t2.sec - t1.sec = s at *
  generalize hu : t2.usec - t1.usec = u at *
  -- The clock did not go back, so the seconds did not either.
  have hsec : 0 ≤ s := by omega
  by_cases hfit : s ≤ 2147
  · have hrange : -2 ^ 31 ≤ s * 1000000 ∧ s * 1000000 < 2 ^ 31 := by omega
    have hnonneg : ¬s * 1000000 < 0 := by omega
    simp only [if_pos hrange, if_neg hnonneg, if_pos hfit]
    unfold longToInt
    by_cases hsmall : s * 1000000 + u < 2 ^ 31
    · rw [if_pos hsmall, Int.bmod_eq_of_le] <;> omega
    · rw [if_neg hsmall]
      have hshift : s * 1000000 + u = (s * 1000000 + u - 2 ^ 32) + ((2 ^ 32 : Nat) : Int) := by
        norm_num
      rw [hshift, Int.add_bmod_right, Int.bmod_eq_of_le] <;> omega
  · have hrange : ¬(-2 ^ 31 ≤ s * 1000000 ∧ s * 1000000 < 2 ^ 31) := by omega
    simp only [if_neg hrange, if_neg hfit]
    exact if_pos (by norm_num)

-- An instance is timed out from `proposer_timeout` microseconds on, and only as long
-- as the difference fits.
theorem instanceHasTimedout_iff {cfg : PaxosConfig} {inst : Instance} {now : Timeval}
    (hpos : 1 ≤ cfg.proposerTimeout) (h1 : inst.createdAt.Normalised) (h2 : now.Normalised)
    (hle : 0 ≤ inst.createdAt.elapsed now) :
    instanceHasTimedout cfg inst now = true ↔
      cfg.proposerTimeout ≤ inst.createdAt.elapsed now ∧ inst.createdAt.Fits now := by
  have helapsed :
      inst.createdAt.elapsed now < (now.sec - inst.createdAt.sec) * 1000000 + 1000000 := by
    unfold Timeval.elapsed
    have := h1.nonneg
    have := h2.lt
    omega
  rw [instanceHasTimedout, decide_eq_true_iff, timevalDiff_eq h1 h2 hle, Timeval.Fits]
  split_ifs <;> omega

-- That agrees with a timeout of `proposer_timeout` seconds before that many
-- microseconds have passed. After that, it agrees when the seconds have passed and the
-- difference fits, or neither.
theorem timeout_in_seconds_iff (cfg : PaxosConfig) (inst : Instance) (now : Timeval)
    (hpos : 1 ≤ cfg.proposerTimeout) (h1 : inst.createdAt.Normalised) (h2 : now.Normalised)
    (hle : 0 ≤ inst.createdAt.elapsed now) :
    (instanceHasTimedout cfg inst now = true ↔
        cfg.proposerTimeout * 1000000 ≤ inst.createdAt.elapsed now) ↔
      inst.createdAt.elapsed now < cfg.proposerTimeout ∨
      (cfg.proposerTimeout * 1000000 ≤ inst.createdAt.elapsed now ∧ inst.createdAt.Fits now) ∨
      (inst.createdAt.elapsed now < cfg.proposerTimeout * 1000000 ∧
        ¬inst.createdAt.Fits now) := by
  rw [instanceHasTimedout_iff hpos h1 h2 hle]
  by_cases hfits : inst.createdAt.Fits now
  · simp only [hfits, and_true, not_true_eq_false, and_false, or_false]
    omega
  · simp only [hfits, and_false, not_false_eq_true, and_true, false_or, false_iff]
    omega

theorem timeout_in_seconds_iff_minute :
    (instanceHasTimedout { proposerTimeout := 10 } (instanceNew 1 10 3 (fun _ => 0) ⟨5, 999999⟩)
        ⟨65, 0⟩ = true ↔ (10 : Int) * 1000000 ≤ Timeval.elapsed ⟨5, 999999⟩ ⟨65, 0⟩) :=
  (timeout_in_seconds_iff { proposerTimeout := 10 } (instanceNew 1 10 3 (fun _ => 0) ⟨5, 999999⟩)
    ⟨65, 0⟩ (by decide) ⟨by decide, by decide⟩ ⟨by decide, by decide⟩ (by decide)).mpr
      (.inr (.inl ⟨by decide, by decide, by decide⟩))

-- With the default of one second, an instance is timed out after a microsecond, and
-- not timed out after an hour.
theorem timeout_not_in_seconds :
    (instanceHasTimedout {} (instanceNew 1 10 3 (fun _ => 0) ⟨0, 0⟩) ⟨0, 1⟩ = true ∧
      Timeval.elapsed ⟨0, 0⟩ ⟨0, 1⟩ < (1 : Int) * 1000000) ∧
    instanceHasTimedout {} (instanceNew 1 10 3 (fun _ => 0) ⟨0, 0⟩) ⟨3600, 0⟩ = false ∧
      (1 : Int) * 1000000 ≤ Timeval.elapsed ⟨0, 0⟩ ⟨3600, 0⟩ := by
  decide

end LibPaxos
