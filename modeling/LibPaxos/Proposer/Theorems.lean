import LibPaxos.Proposer.Process

namespace LibPaxos

theorem instanceFind_split {c : List Instance} {iid : Nat} {inst : Instance}
    (h : instanceFind c iid = some inst) :
    inst.iid = iid ∧ ∃ pre post, c = pre ++ inst :: post ∧ (∀ item ∈ pre, item.iid ≠ iid) ∧
      ∀ new, instanceWrite c iid new = pre ++ new :: post := by
  induction c with
  | nil => simp [instanceFind] at h
  | cons item rest ih =>
      by_cases hi : item.iid = iid
      · have he : item = inst := by simpa [instanceFind, hi] using h
        subst he
        exact ⟨hi, [], rest, rfl, by simp, fun new => by simp [instanceWrite, hi]⟩
      · have hr : instanceFind rest iid = some inst := by simpa [instanceFind, hi] using h
        obtain ⟨he, pre, post, rfl, hpre, hw⟩ := ih hr
        refine ⟨he, item :: pre, post, rfl, ?_, fun new => by simp [instanceWrite, hi, hw]⟩
        intro other ho
        rcases List.mem_cons.mp ho with rfl | hm
        · exact hi
        · exact hpre other hm

theorem instanceFind_mem {c : List Instance} {iid : Nat} {inst : Instance}
    (h : instanceFind c iid = some inst) : inst ∈ c := List.mem_of_find?_eq_some h

theorem mem_instanceRemove {c : List Instance} {inst item : Instance} :
    item ∈ instanceRemove c inst ↔ item ∈ c ∧ item.iid ≠ inst.iid := by
  simp only [instanceRemove, instanceMatch, List.mem_filter, Bool.not_eq_true',
    decide_eq_false_iff_not, ne_comm, ne_eq]

-- With distinct iids `instance_remove` drops exactly the given element.
theorem instanceRemove_split {pre post : List Instance} {inst : Instance} (new : Instance)
    (hn : ((pre ++ inst :: post).map Instance.iid).Nodup) (hiid : new.iid = inst.iid) :
    instanceRemove (pre ++ inst :: post) new = pre ++ post := by
  rw [List.map_append, List.map_cons, List.nodup_middle, List.nodup_cons] at hn
  have hkeep (l : List Instance) (hl : ∀ item ∈ l, item ∈ pre ++ post) :
      instanceRemove l new = l := by
    apply List.filter_eq_self.mpr
    intro item hm
    have hne : new.iid ≠ item.iid := by
      intro he
      apply hn.1
      rw [← List.map_append]
      exact List.mem_map.mpr ⟨item, hl item hm, by rw [← he, hiid]⟩
    simp [instanceMatch, hne]
  have hsplit : instanceRemove (pre ++ inst :: post) new =
      instanceRemove pre new ++ instanceRemove post new := by
    simp [instanceRemove, instanceMatch, hiid]
  rw [hsplit, hkeep pre (by simp +contextual), hkeep post (by simp +contextual)]

-- A property of every instance, after one of them is replaced.
theorem forall_mem_split {P : Instance → Prop} {c pre post : List Instance} {inst new : Instance}
    (hsplit : c = pre ++ inst :: post) (h : ∀ item ∈ c, P item) (hnew : P inst → P new) :
    ∀ item ∈ pre ++ new :: post, P item := by
  subst hsplit
  intro item hm
  rcases List.mem_append.mp hm with hm | hm
  · exact h item (by simp [hm])
  · rcases List.mem_cons.mp hm with rfl | hm
    · exact hnew (h inst (by simp))
    · exact h item (by simp [hm])

-- A promise leaves the instance's value alone, fills it, or replaces it.
theorem promiseValue_cases (values : List Value) (inst : Instance) (ack : PrepareAck) :
    (promiseValue values inst ack = (values, inst) ∧
      (ack.value = [] ∨ ack.valueBallot ≤ inst.valueBallot)) ∨
    (promiseValue values inst ack =
        (values, { inst with valueBallot := ack.valueBallot, value := some ack.value }) ∧
      ack.value ≠ [] ∧ inst.value = none) ∨
    ∃ old, promiseValue values inst ack =
        (values ++ [old], { inst with valueBallot := ack.valueBallot, value := some ack.value }) ∧
      ack.value ≠ [] ∧ inst.value = some old ∧ inst.valueBallot < ack.valueBallot := by
  unfold promiseValue
  by_cases hs : ack.value = []
  · exact .inl ⟨by simp [hs], .inl hs⟩
  · have hlen : ack.value.length > 0 := List.length_pos_iff.mpr hs
    cases hv : inst.value with
    | none => exact .inr (.inl ⟨by simp [hlen], hs, rfl⟩)
    | some old =>
        by_cases hb : ack.valueBallot > inst.valueBallot
        · exact .inr (.inr ⟨old, by simp [hlen, hb], hs, rfl, hb⟩)
        · exact .inl ⟨by simp [hb], .inr (by omega)⟩

@[simp] theorem promiseValue_iid (values : List Value) (inst : Instance) (ack : PrepareAck) :
    (promiseValue values inst ack).2.iid = inst.iid := by
  rcases promiseValue_cases values inst ack with ⟨h, _⟩ | ⟨h, _⟩ | ⟨_, h, _⟩ <;> rw [h]

@[simp] theorem promiseValue_closed (values : List Value) (inst : Instance) (ack : PrepareAck) :
    (promiseValue values inst ack).2.closed = inst.closed := by
  rcases promiseValue_cases values inst ack with ⟨h, _⟩ | ⟨h, _⟩ | ⟨_, h, _⟩ <;> rw [h]

@[simp] theorem promiseValue_ballot (values : List Value) (inst : Instance) (ack : PrepareAck) :
    (promiseValue values inst ack).2.ballot = inst.ballot := by
  rcases promiseValue_cases values inst ack with ⟨h, _⟩ | ⟨h, _⟩ | ⟨_, h, _⟩ <;> rw [h]

@[simp] theorem promiseValue_quorum (values : List Value) (inst : Instance) (ack : PrepareAck) :
    (promiseValue values inst ack).2.quorum = inst.quorum := by
  rcases promiseValue_cases values inst ack with ⟨h, _⟩ | ⟨h, _⟩ | ⟨_, h, _⟩ <;> rw [h]

-- Everything a call that returns can do to a proposer none of whose instances is
-- closed. Each constructor names the branch of the source it stands for.
inductive Move (p : Proposer) : ProposerCall → Proposer → ProposerOutput → Prop
  | idle {c : ProposerCall} (hv : c.submits = []) (hc : ∀ junk now, c ≠ .prepare junk now) :
      Move p c p .none
  | propose (value : Value) :
      Move p (.propose value) { p with values := p.values ++ [value] } .none
  | prepare (junk : Nat → Int) (now : Timeval) :
      Move p (.prepare junk now)
        { p with
          nextPrepareIid := uint32 (p.nextPrepareIid + 1)
          prepareInstances := p.prepareInstances ++
            [instanceNew (uint32 (p.nextPrepareIid + 1)) (proposerNextBallot p 0) p.acceptors
              junk now] }
        (.prepareReq ⟨uint32 (p.nextPrepareIid + 1), proposerNextBallot p 0⟩)
  | promise (ack : PrepareAck) (now : Timeval) (pre post : List Instance) (inst : Instance)
      (quorum : Quorum) (hsplit : p.prepareInstances = pre ++ inst :: post)
      (hfind : instanceFind p.prepareInstances ack.iid = some inst)
      (hiid : inst.iid = ack.iid) (hballot : ack.ballot = inst.ballot)
      (hadd : quorumAdd inst.quorum ack.acceptorId = .ok (quorum, true)) :
      Move p (.receivePrepareAck ack now)
        { p with
          values := (promiseValue p.values { inst with quorum := quorum } ack).1
          prepareInstances :=
            pre ++ (promiseValue p.values { inst with quorum := quorum } ack).2 :: post }
        .none
  | preempt (ack : PrepareAck) (now : Timeval) (pre post : List Instance) (inst : Instance)
      (hsplit : p.prepareInstances = pre ++ inst :: post)
      (hfind : instanceFind p.prepareInstances ack.iid = some inst)
      (hlt : inst.ballot < ack.ballot) :
      Move p (.receivePrepareAck ack now)
        { p with prepareInstances := pre ++ (preparePreempt p inst now).1 :: post }
        (.prepareReq (preparePreempt p inst now).2)
  | accept (inst : Instance) (rest : List Instance) (value : Value) (values : List Value)
      (hfront : p.prepareInstances = inst :: rest) (hreached : quorumReached inst.quorum = true)
      (hvalue : (inst.value = some value ∧ values = p.values) ∨
        (inst.value = none ∧ p.values = value :: values)) :
      Move p .accept
        { p with
          values := values
          prepareInstances := rest
          acceptInstances := p.acceptInstances ++
            [{ inst with value := some value, quorum := quorumClear inst.quorum }] }
        (.acceptReq ⟨inst.iid, inst.ballot, value⟩)
  | ackCounted (ack : AcceptAck) (now : Timeval) (pre post : List Instance) (inst : Instance)
      (quorum : Quorum) (hsplit : p.acceptInstances = pre ++ inst :: post)
      (hiid : inst.iid = ack.iid) (hballot : ack.ballot = inst.ballot)
      (hvb : ack.valueBallot = inst.ballot)
      (hadd : quorumAdd inst.quorum ack.acceptorId = .ok (quorum, true))
      (hopen : quorumReached quorum = false) :
      Move p (.receiveAcceptAck ack now)
        { p with acceptInstances := pre ++ { inst with quorum := quorum } :: post } .none
  | ackClosed (ack : AcceptAck) (now : Timeval) (pre post : List Instance) (inst : Instance)
      (quorum : Quorum) (hsplit : p.acceptInstances = pre ++ inst :: post)
      (hiid : inst.iid = ack.iid) (hballot : ack.ballot = inst.ballot)
      (hvb : ack.valueBallot = inst.ballot)
      (hadd : quorumAdd inst.quorum ack.acceptorId = .ok (quorum, true))
      (hreached : quorumReached quorum = true) :
      Move p (.receiveAcceptAck ack now)
        { p with
          acceptInstances := instanceRemove p.acceptInstances { inst with quorum := quorum } }
        (.closed { inst with quorum := quorum })
  | ackPreempted (ack : AcceptAck) (now : Timeval) (pre post : List Instance) (inst : Instance)
      (hsplit : p.acceptInstances = pre ++ inst :: post)
      (hfind : instanceFind p.acceptInstances ack.iid = some inst)
      (hne : ack.ballot ≠ inst.ballot) :
      Move p (.receiveAcceptAck ack now)
        { p with
          acceptInstances := instanceRemove p.acceptInstances inst
          prepareInstances := (preparePreempt p inst now).1 :: p.prepareInstances }
        (.prepareReq (preparePreempt p inst now).2)
  | timeoutPrepare (iter : TimeoutIterator) (pre post : List Instance) (inst : Instance)
      (hsplit : p.prepareInstances = pre ++ inst :: post) :
      Move p (.timeoutPrepare iter)
        { p with prepareInstances := pre ++ { inst with createdAt := iter.timeout } :: post }
        (.prepareReq ⟨inst.iid, inst.ballot⟩)
  | timeoutAccept (iter : TimeoutIterator) (pre post : List Instance) (inst : Instance)
      (value : Value) (hsplit : p.acceptInstances = pre ++ inst :: post)
      (hvalue : inst.value = some value) :
      Move p (.timeoutAccept iter)
        { p with acceptInstances := pre ++ { inst with createdAt := iter.timeout } :: post }
        (.acceptReq ⟨inst.iid, inst.ballot, value⟩)

theorem proposerReceivePrepareAck_move {p p' : Proposer} {ack : PrepareAck} {now : Timeval}
    {out : Option PrepareReq} (h : proposerReceivePrepareAck p ack now = .ok (p', out)) :
    Move p (.receivePrepareAck ack now) p' (.ofPrepare out) := by
  unfold proposerReceivePrepareAck at h
  split at h
  · cases h
    exact .idle rfl (by simp)
  · rename_i inst hfind
    obtain ⟨hiid, pre, post, hsplit, _, hwrite⟩ := instanceFind_split hfind
    split at h
    · cases h
      exact .idle rfl (by simp)
    · rename_i hlt
      split at h
      · rename_i heq
        split at h
        · cases h
        · cases h
          exact .idle rfl (by simp)
        · rename_i quorum hadd
          simp only [hwrite, Except.ok.injEq, Prod.mk.injEq] at h
          obtain ⟨rfl, rfl⟩ := h
          exact .promise ack now pre post inst quorum hsplit hfind hiid heq hadd
      · rename_i hne
        simp only [hwrite, Except.ok.injEq, Prod.mk.injEq] at h
        obtain ⟨rfl, rfl⟩ := h
        exact .preempt ack now pre post inst hsplit hfind (by omega)

theorem proposerReceiveAcceptAck_move {p p' : Proposer} {ack : AcceptAck} {now : Timeval}
    {result : AcceptAckResult} (h : proposerReceiveAcceptAck p ack now = .ok (p', result)) :
    Move p (.receiveAcceptAck ack now) p' (.ofResult result) := by
  unfold proposerReceiveAcceptAck at h
  split at h
  · cases h
    exact .idle rfl (by simp)
  · rename_i inst hfind
    obtain ⟨hiid, pre, post, hsplit, _, hwrite⟩ := instanceFind_split hfind
    split at h
    · rename_i heq
      split at h
      · cases h
      · rename_i hvb
        split at h
        · cases h
        · cases h
          exact .idle rfl (by simp)
        · rename_i quorum hadd
          by_cases hr : quorumReached quorum = true
          · simp only [hr, if_true, Except.ok.injEq, Prod.mk.injEq] at h
            obtain ⟨rfl, rfl⟩ := h
            exact .ackClosed ack now pre post inst quorum hsplit hiid heq (not_not.mp hvb) hadd hr
          · simp only [hr, Bool.false_eq_true, if_false, hwrite, Except.ok.injEq,
              Prod.mk.injEq] at h
            obtain ⟨rfl, rfl⟩ := h
            exact .ackCounted ack now pre post inst quorum hsplit hiid heq (not_not.mp hvb) hadd
              (by simpa using hr)
    · rename_i hne
      simp only [Except.ok.injEq, Prod.mk.injEq] at h
      obtain ⟨rfl, rfl⟩ := h
      exact .ackPreempted ack now pre post inst hsplit hfind hne

theorem proposerAccept_move {p : Proposer}
    (hopen : ∀ inst ∈ p.prepareInstances, inst.closed = false) :
    Move p .accept (proposerAccept p).1 (.ofAccept (proposerAccept p).2) := by
  obtain ⟨id, acceptors, values, nextIid, prepareInstances, acceptInstances⟩ := p
  cases prepareInstances with
  | nil => exact .idle rfl (by simp)
  | cons inst rest =>
      have hdrop : (inst :: rest).dropWhile (fun item => item.closed) = inst :: rest := by
        simp [hopen inst List.mem_cons_self]
      by_cases hr : quorumReached inst.quorum = true
      · cases hv : inst.value with
        | some value =>
            simp only [proposerAccept, hdrop, hr, hv, Bool.true_eq_false, if_false]
            exact Move.accept (p := ⟨id, acceptors, values, nextIid, inst :: rest, acceptInstances⟩)
              inst rest value values rfl hr (.inl ⟨hv, rfl⟩)
        | none =>
            cases values with
            | nil =>
                simp only [proposerAccept, hdrop, hr, hv, Bool.true_eq_false, if_false,
                  List.head?_nil]
                exact .idle rfl (by simp)
            | cons value values =>
                simp only [proposerAccept, hdrop, hr, hv, Bool.true_eq_false, if_false,
                  List.head?_cons, List.tail_cons]
                exact Move.accept
                  (p := ⟨id, acceptors, value :: values, nextIid, inst :: rest, acceptInstances⟩)
                  inst rest value values rfl hr (.inr ⟨hv, rfl⟩)
      · have hr' : quorumReached inst.quorum = false := by simpa using hr
        simp only [proposerAccept, hdrop, hr', if_true]
        exact .idle rfl (by simp)

private theorem set_split {insts : List Instance} {i : Nat} {inst : Instance}
    (h : insts[i]? = some inst) (new : Instance) :
    ∃ pre post, insts = pre ++ inst :: post ∧ insts.set i new = pre ++ new :: post := by
  obtain ⟨hlt, rfl⟩ := List.getElem?_eq_some_iff.mp h
  refine ⟨insts.take i, insts.drop (i + 1), ?_,
    List.set_eq_take_append_cons_drop.trans (if_pos hlt)⟩
  rw [List.cons_getElem_drop_succ, List.take_append_drop]

theorem timeoutIteratorPrepare_move (cfg : PaxosConfig) (p : Proposer) (iter : TimeoutIterator) :
    Move p (.timeoutPrepare iter) (timeoutIteratorPrepare cfg p iter).1.1
      (.ofPrepare (timeoutIteratorPrepare cfg p iter).2) := by
  unfold timeoutIteratorPrepare
  obtain ⟨found, pi⟩ := nextTimedout cfg iter.timeout (p.prepareInstances.drop iter.pi) iter.pi
  dsimp only
  split
  · exact .idle rfl (by simp)
  · rename_i i inst hf
    obtain ⟨j, _, hj⟩ := Option.bind_eq_some_iff.mp hf
    obtain ⟨_, hget, he⟩ := Option.map_eq_some_iff.mp hj
    cases he
    obtain ⟨pre, post, hsplit, hset⟩ := set_split hget { inst with createdAt := iter.timeout }
    rw [hset]
    exact .timeoutPrepare iter pre post inst hsplit

theorem timeoutIteratorAccept_move {cfg : PaxosConfig} {p p' : Proposer}
    {iter iter' : TimeoutIterator} {req : Option AcceptReq}
    (h : timeoutIteratorAccept cfg p iter = .ok ((p', iter'), req)) :
    Move p (.timeoutAccept iter) p' (.ofAccept req) := by
  unfold timeoutIteratorAccept at h
  obtain ⟨found, ai⟩ := nextTimedout cfg iter.timeout (p.acceptInstances.drop iter.ai) iter.ai
  dsimp only at h
  split at h
  · cases h
    exact .idle rfl (by simp)
  · rename_i i inst hf
    obtain ⟨j, _, hj⟩ := Option.bind_eq_some_iff.mp hf
    obtain ⟨_, hget, he⟩ := Option.map_eq_some_iff.mp hj
    cases he
    obtain ⟨pre, post, hsplit, hset⟩ := set_split hget { inst with createdAt := iter.timeout }
    split at h
    · cases h
    · rename_i value hv
      simp only [hset, Except.ok.injEq, Prod.mk.injEq] at h
      obtain ⟨⟨rfl, _⟩, rfl⟩ := h
      exact .timeoutAccept iter pre post inst value hsplit hv

theorem proposerCall_move {cfg : PaxosConfig} {p p' : Proposer} {c : ProposerCall}
    {out : ProposerOutput} (hopen : ∀ inst ∈ p.prepareInstances, inst.closed = false)
    (h : proposerCall cfg p c = .ok (p', out)) : Move p c p' out := by
  cases c with
  | propose value =>
      cases h
      exact .propose value
  | prepare junk now =>
      cases h
      exact .prepare junk now
  | receivePrepareAck ack now =>
      simp only [proposerCall, Except.map] at h
      split at h
      · cases h
      · rename_i r hr
        cases h
        exact proposerReceivePrepareAck_move hr
  | accept =>
      cases h
      exact proposerAccept_move hopen
  | receiveAcceptAck ack now =>
      simp only [proposerCall, Except.map] at h
      split at h
      · cases h
      · rename_i r hr
        cases h
        exact proposerReceiveAcceptAck_move hr
  | timeoutPrepare iter =>
      cases h
      exact timeoutIteratorPrepare_move cfg p iter
  | timeoutAccept iter =>
      simp only [proposerCall, Except.map] at h
      split at h
      · cases h
      · rename_i r hr
        cases h
        exact timeoutIteratorAccept_move hr

-- A call halts the process or moves it.
theorem ProposerProc.call_cases {cfg : PaxosConfig} {pr pr' : ProposerProc} {c : ProposerCall}
    {out : ProposerOutput} (hopen : ∀ inst ∈ pr.state.prepareInstances, inst.closed = false)
    (hcall : pr.call cfg c = (pr', out)) :
    (∃ fault, proposerCall cfg pr.state c = .error fault ∧ pr' = { pr with halted := true } ∧
      out = .none) ∨
    ∃ p, Move pr.state c p out ∧ pr' = pr.after c p out := by
  unfold ProposerProc.call at hcall
  cases he : proposerCall cfg pr.state c with
  | error fault =>
      rw [he] at hcall
      cases hcall
      exact .inl ⟨fault, rfl, rfl, rfl⟩
  | ok r =>
      rw [he] at hcall
      cases hcall
      exact .inr ⟨r.1, proposerCall_move hopen he, rfl⟩

-- A property of the mark and the quorum of an instance is kept by every move, if new
-- instances have it and the three ways to change a quorum keep it.
theorem Move.forall_mem {P : Instance → Prop} {p p' : Proposer} {c : ProposerCall}
    {out : ProposerOutput} (hm : Move p c p' out)
    (hnew : ∀ iid ballot junk now, P (instanceNew iid ballot p.acceptors junk now))
    (hsame : ∀ a b : Instance, P a → a.closed = b.closed → a.quorum = b.quorum → P b)
    (hclear : ∀ a : Instance, P a → P { a with quorum := quorumClear a.quorum })
    (hadd : ∀ (a : Instance) (id : Nat) (quorum : Quorum),
      quorumAdd a.quorum id = .ok (quorum, true) → P a → P { a with quorum := quorum })
    (hprep : ∀ inst ∈ p.prepareInstances, P inst) (hacc : ∀ inst ∈ p.acceptInstances, P inst) :
    (∀ inst ∈ p'.prepareInstances, P inst) ∧ ∀ inst ∈ p'.acceptInstances, P inst := by
  have hpreempt (inst : Instance) (now : Timeval) (h : P inst) :
      P (preparePreempt p inst now).1 := hsame _ _ (hclear inst h) rfl rfl
  cases hm with
  | idle | propose => exact ⟨hprep, hacc⟩
  | prepare junk now =>
      exact ⟨List.forall_mem_append.mpr ⟨hprep, List.forall_mem_singleton.mpr (hnew _ _ junk now)⟩,
        hacc⟩
  | promise ack now pre post inst quorum hsplit hfind hiid hballot hquorum =>
      refine ⟨forall_mem_split hsplit hprep fun hinst => ?_, hacc⟩
      exact hsame _ _ (hadd inst ack.acceptorId quorum hquorum hinst) (by simp) (by simp)
  | preempt ack now pre post inst hsplit hfind hlt =>
      exact ⟨forall_mem_split hsplit hprep (hpreempt inst now), hacc⟩
  | accept inst rest value values hfront hreached hvalue =>
      rw [hfront] at hprep
      have hinst := hclear inst (hprep inst List.mem_cons_self)
      refine ⟨fun item hi => hprep item (List.mem_cons_of_mem _ hi), ?_⟩
      exact List.forall_mem_append.mpr
        ⟨hacc, List.forall_mem_singleton.mpr (hsame _ _ hinst rfl rfl)⟩
  | ackCounted ack now pre post inst quorum hsplit hiid hballot hvb hquorum hopen =>
      exact ⟨hprep, forall_mem_split hsplit hacc (hadd inst ack.acceptorId quorum hquorum)⟩
  | ackClosed ack now pre post inst quorum hsplit hiid hballot hvb hquorum hreached =>
      exact ⟨hprep, fun item hi => hacc item (mem_instanceRemove.mp hi).1⟩
  | ackPreempted ack now pre post inst hsplit hfind hne =>
      have hinst := hpreempt inst now (hacc inst (instanceFind_mem hfind))
      exact ⟨List.forall_mem_cons.mpr ⟨hinst, hprep⟩,
        fun item hi => hacc item (mem_instanceRemove.mp hi).1⟩
  | timeoutPrepare iter pre post inst hsplit =>
      exact ⟨forall_mem_split hsplit hprep fun hinst => hsame _ _ hinst rfl rfl, hacc⟩
  | timeoutAccept iter pre post inst value hsplit hvalue =>
      exact ⟨hprep, forall_mem_split hsplit hacc fun hinst => hsame _ _ hinst rfl rfl⟩

-- No instance has the closed mark. Nothing sets it.
structure Proposer.Opened (p : Proposer) : Prop where
  preparing : ∀ inst ∈ p.prepareInstances, inst.closed = false
  accepting : ∀ inst ∈ p.acceptInstances, inst.closed = false

theorem Proposer.Opened.new (id n : Nat) : (proposerNew id n).Opened := by
  constructor <;> simp [proposerNew]

theorem Proposer.Opened.move {p p' : Proposer} {c : ProposerCall} {out : ProposerOutput}
    (h : p.Opened) (hm : Move p c p' out) : p'.Opened := by
  have hkept := hm.forall_mem (P := fun inst => inst.closed = false) (fun _ _ _ _ => rfl)
    (fun a b ha hclosed _ => hclosed ▸ ha) (fun _ ha => ha) (fun _ _ _ _ ha => ha) h.preparing
    h.accepting
  exact ⟨hkept.1, hkept.2⟩

-- Every value that a proposer holds, queued or in an instance, has the property.
structure Proposer.Holds (P : Value → Prop) (p : Proposer) : Prop where
  queue : ∀ value ∈ p.values, P value
  preparing : ∀ inst ∈ p.prepareInstances, ∀ value, inst.value = some value → P value
  accepting : ∀ inst ∈ p.acceptInstances, ∀ value, inst.value = some value → P value

theorem Proposer.Holds.new (P : Value → Prop) (id n : Nat) : (proposerNew id n).Holds P := by
  constructor <;> simp [proposerNew]

theorem Proposer.Holds.mono {P P' : Value → Prop} {p : Proposer} (h : p.Holds P)
    (hP : ∀ value, P value → P' value) : p.Holds P' :=
  ⟨fun v hv => hP v (h.queue v hv), fun inst hm v hv => hP v (h.preparing inst hm v hv),
    fun inst hm v hv => hP v (h.accepting inst hm v hv)⟩

-- Values come in by `proposer_propose` and by promises that carry one.
theorem Proposer.Holds.move {P : Value → Prop} {p p' : Proposer} (h : p.Holds P) {c : ProposerCall}
    {out : ProposerOutput} (hm : Move p c p' out) (hnew : ∀ value, c = .propose value → P value)
    (hack : ∀ ack now, c = .receivePrepareAck ack now → ack.value ≠ [] → P ack.value) :
    p'.Holds P ∧ ∀ r, out = .acceptReq r → P r.value := by
  cases hm with
  | idle _ _ => exact ⟨h, nofun⟩
  | propose value =>
      refine ⟨⟨fun v hv => ?_, h.2, h.3⟩, nofun⟩
      rcases List.mem_append.mp hv with hv | hv
      · exact h.queue v hv
      · exact List.mem_singleton.mp hv ▸ hnew value rfl
  | prepare junk now =>
      refine ⟨⟨h.1, fun inst hi v hv => ?_, h.3⟩, nofun⟩
      rcases List.mem_append.mp hi with hi | hi
      · exact h.preparing inst hi v hv
      · rw [List.mem_singleton.mp hi] at hv
        cases hv
  | promise ack now pre post inst quorum hsplit hfind hiid hballot hadd =>
      have hinst : inst ∈ p.prepareInstances := by simp [hsplit]
      have hself := h.preparing inst hinst
      refine ⟨⟨fun v hv => ?_, forall_mem_split hsplit h.2 fun _ v hv => ?_, h.3⟩, nofun⟩
      · rcases promiseValue_cases p.values { inst with quorum := quorum } ack with
          ⟨he, _⟩ | ⟨he, _⟩ | ⟨old, he, _, hold, _⟩
        · exact h.queue v (by simpa [he] using hv)
        · exact h.queue v (by simpa [he] using hv)
        · have hv' : v ∈ p.values ++ [old] := by simpa [he] using hv
          rcases List.mem_append.mp hv' with hv' | hv'
          · exact h.queue v hv'
          · exact List.mem_singleton.mp hv' ▸ hself old hold
      · rcases promiseValue_cases p.values { inst with quorum := quorum } ack with
          ⟨he, _⟩ | ⟨he, hne, _⟩ | ⟨old, he, hne, _⟩
        · exact hself v (by simpa [he] using hv)
        · have hsame : ack.value = v := by simpa [he] using hv
          exact hsame ▸ hack ack now rfl hne
        · have hsame : ack.value = v := by simpa [he] using hv
          exact hsame ▸ hack ack now rfl hne
  | preempt ack now pre post inst hsplit hfind hlt =>
      exact ⟨⟨h.1, forall_mem_split hsplit h.2 fun hi => hi, h.3⟩, nofun⟩
  | accept inst rest value values hfront hreached hvalue =>
      have hown : P value := by
        rcases hvalue with ⟨hsome, _⟩ | ⟨_, hq⟩
        · exact h.preparing inst (by simp [hfront]) value hsome
        · exact h.queue value (by simp [hq])
      refine ⟨⟨fun v hv => ?_, fun item hi => h.2 item (by simp [hfront, hi]),
        fun item hi v hv => ?_⟩, fun r hr => ProposerOutput.acceptReq.inj hr ▸ hown⟩
      · rcases hvalue with ⟨_, rfl⟩ | ⟨_, hq⟩
        · exact h.queue v hv
        · exact h.queue v (by simp [hq, hv])
      · rcases List.mem_append.mp hi with hi | hi
        · exact h.accepting item hi v hv
        · rw [List.mem_singleton.mp hi] at hv
          exact Option.some.inj hv ▸ hown
  | ackCounted ack now pre post inst quorum hsplit hiid hballot hvb hadd hopen =>
      exact ⟨⟨h.1, h.2, forall_mem_split hsplit h.3 fun hi => hi⟩, nofun⟩
  | ackClosed ack now pre post inst quorum hsplit hiid hballot hvb hadd hreached =>
      exact ⟨⟨h.1, h.2, fun item hi => h.3 item (mem_instanceRemove.mp hi).1⟩, nofun⟩
  | ackPreempted ack now pre post inst hsplit hfind hne =>
      refine ⟨⟨h.1, fun item hi => ?_, fun item hi => h.3 item (mem_instanceRemove.mp hi).1⟩, nofun⟩
      rcases List.mem_cons.mp hi with rfl | hi
      · exact h.accepting inst (instanceFind_mem hfind)
      · exact h.preparing item hi
  | timeoutPrepare iter pre post inst hsplit =>
      exact ⟨⟨h.1, forall_mem_split hsplit h.2 fun hi => hi, h.3⟩, nofun⟩
  | timeoutAccept iter pre post inst value hsplit hvalue =>
      have hown := h.accepting inst (by simp [hsplit]) value hvalue
      exact ⟨⟨h.1, h.2, forall_mem_split hsplit h.3 fun hi => hi⟩,
        fun r hr => ProposerOutput.acceptReq.inj hr ▸ hown⟩

-- A prepare request names an instance that is being prepared now.
theorem Move.prepareReq {p p' : Proposer} {c : ProposerCall} {req : PrepareReq}
    (hm : Move p c p' (.prepareReq req)) :
    ∃ inst ∈ p'.prepareInstances, inst.iid = req.iid ∧ inst.ballot = req.ballot := by
  cases hm with
  | prepare junk now => exact ⟨_, List.mem_append_right _ (List.mem_singleton.mpr rfl), rfl, rfl⟩
  | preempt ack now pre post inst hsplit hfind hlt =>
      exact ⟨(preparePreempt p inst now).1, by simp, rfl, rfl⟩
  | ackPreempted ack now pre post inst hsplit hfind hne =>
      exact ⟨(preparePreempt p inst now).1, by simp, rfl, rfl⟩
  | timeoutPrepare iter pre post inst hsplit =>
      exact ⟨{ inst with createdAt := iter.timeout }, by simp, rfl, rfl⟩

end LibPaxos
