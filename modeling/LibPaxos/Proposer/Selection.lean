import LibPaxos.Proposer.Theorems
import LibPaxos.Storage.Bdb
import LibPaxos.System
import LibPaxos.Voting

namespace LibPaxos

-- The history of one instance: the promises that `quorum_add` counted for it in
-- all its rounds, those of the current ballot, and the value it took from the
-- queue.
structure Trail where
  counted : List PrepareAck
  round : List PrepareAck
  taken : Option Value
  deriving Repr, DecidableEq

def Trail.new : Trail := ⟨[], [], none⟩

def Trail.count (ack : PrepareAck) (t : Trail) : Trail :=
  { t with counted := t.counted ++ [ack], round := t.round ++ [ack] }

def Trail.preempt (t : Trail) : Trail := { t with round := [] }

-- The histories stand in lists beside those of the instances. A write and a
-- removal there follow the iids of the instances.
def trailWrite : List Instance → Nat → (Trail → Trail) → List Trail → List Trail
  | inst :: insts, iid, f, t :: ts =>
      if inst.iid = iid then f t :: ts else t :: trailWrite insts iid f ts
  | _, _, _, ts => ts

def trailRemove : List Instance → Nat → List Trail → List Trail
  | inst :: insts, iid, t :: ts =>
      if inst.iid = iid then trailRemove insts iid ts else t :: trailRemove insts iid ts
  | _, _, ts => ts

def trailFind : List Instance → Nat → List Trail → Option Trail
  | inst :: insts, iid, t :: ts => if inst.iid = iid then some t else trailFind insts iid ts
  | _, _, _ => none

structure Traced where
  proposer : Proposer
  preparing : List Trail
  accepting : List Trail

-- The promise is for the ballot of a pending instance, and `quorum_add` returns 1.
def promiseCounts (p : Proposer) (ack : PrepareAck) : Bool :=
  match instanceFind p.prepareInstances ack.iid with
  | none => false
  | some inst =>
      ack.ballot = inst.ballot ∧ (quorumAdd inst.quorum ack.acceptorId).toOption.any (·.2)

-- What a call that returned adds to the histories.
def Traced.after (t : Traced) (p : Proposer) : ProposerCall → ProposerOutput → Traced
  | .prepare _ _, _ => { t with proposer := p, preparing := t.preparing ++ [.new] }
  | .receivePrepareAck ack _, .prepareReq _ =>
      { t with
        proposer := p
        preparing := trailWrite t.proposer.prepareInstances ack.iid Trail.preempt t.preparing }
  | .receivePrepareAck ack _, _ =>
      { t with
        proposer := p
        preparing :=
          if promiseCounts t.proposer ack then
            trailWrite t.proposer.prepareInstances ack.iid (Trail.count ack) t.preparing
          else t.preparing }
  | .accept, .acceptReq req =>
      -- The front instance moves on. Without a value it takes one from the queue.
      let taken := t.proposer.prepareInstances.head?.any fun inst => inst.value = none
      { proposer := p
        preparing := t.preparing.tail
        accepting := t.accepting ++ t.preparing.head?.toList.map fun trail =>
          if taken then { trail with taken := some req.value } else trail }
  | .receiveAcceptAck ack _, .closed _ =>
      { t with
        proposer := p
        accepting := trailRemove t.proposer.acceptInstances ack.iid t.accepting }
  | .receiveAcceptAck ack _, .prepareReq _ =>
      { proposer := p
        preparing :=
          (trailFind t.proposer.acceptInstances ack.iid t.accepting).toList.map Trail.preempt ++
            t.preparing
        accepting := trailRemove t.proposer.acceptInstances ack.iid t.accepting }
  | _, _ => { t with proposer := p }

def tracedProposer (cfg : PaxosConfig) (id n : Nat) : TransitionSystem Traced ProposerCall where
  init := ⟨proposerNew id n, [], []⟩
  step t c :=
    match proposerCall cfg t.proposer c with
    | .error _ => none
    | .ok (p, out) => some (t.after p c out)

-- The rule for the value of a request, in terms of the instance's history.
structure Selected (n : Nat) (req : AcceptReq) (trail : Trail) : Prop where
  majority : ∃ group, Voting.IsMajority n group ∧ ∀ a ∈ group, ∃ ack ∈ trail.round,
    ack.acceptorId = a ∧ ack.iid = req.iid ∧ ack.ballot = req.ballot
  reported : (∃ ack ∈ trail.counted, 0 < ack.valueBallot) → ∃ ack ∈ trail.counted,
    ack.value = req.value ∧ 0 < ack.valueBallot ∧
      ∀ other ∈ trail.counted, other.valueBallot ≤ ack.valueBallot
  queued : (∀ ack ∈ trail.counted, ack.valueBallot = 0) → trail.taken = some req.value

-- Whenever `proposer_accept` returns a request, the instance it moved to the accept
-- list was given its value by the rule.
def Traced.SelectsByRule (cfg : PaxosConfig) (id n : Nat) (t : Traced) : Prop :=
  ∀ p req t', proposerAccept t.proposer = (p, some req) →
    (tracedProposer cfg id n).step t .accept = some t' →
    ∃ trail, t'.accepting.getLast? = some trail ∧ Selected n req trail

-- What a promise says is read rightly from the length of its value: it reports an
-- accepted ballot exactly when the value is not empty, or the instance has a value of no
-- lower ballot and the promise changes nothing.
def PrepareAck.ReadsRight (inst : Instance) (ack : PrepareAck) : Prop :=
  (0 < ack.valueBallot ↔ ack.value ≠ []) ∨
    inst.value ≠ none ∧ ack.valueBallot ≤ inst.valueBallot

instance PrepareAck.ReadsRight.decidable (inst : Instance) (ack : PrepareAck) :
    Decidable (ack.ReadsRight inst) :=
  inferInstanceAs (Decidable ((_ ↔ _) ∨ _ ≠ _ ∧ _))

-- So are the promises that are counted.
def ReportsValues (t : Traced) : ProposerCall → Prop
  | .receivePrepareAck ack _ => promiseCounts t.proposer ack = true →
      ∀ inst ∈ instanceFind t.proposer.prepareInstances ack.iid, ack.ReadsRight inst
  | _ => True

instance ReportsValues.decidable (t : Traced) : (c : ProposerCall) → Decidable (ReportsValues t c)
  | .receivePrepareAck ack _ => inferInstanceAs (Decidable
      (promiseCounts t.proposer ack = true →
        ∀ inst ∈ instanceFind t.proposer.prepareInstances ack.iid, ack.ReadsRight inst))
  | .propose _ => isTrue trivial
  | .prepare _ _ => isTrue trivial
  | .accept => isTrue trivial
  | .receiveAcceptAck _ _ => isTrue trivial
  | .timeoutPrepare _ => isTrue trivial
  | .timeoutAccept _ => isTrue trivial

-- The value of an instance explained by its history.
structure Trail.Explains (inst : Instance) (t : Trail) : Prop where
  queued : (∀ ack ∈ t.counted, ack.valueBallot = 0) → inst.valueBallot = 0 ∧ inst.value = t.taken
  reported : (∃ ack ∈ t.counted, 0 < ack.valueBallot) → ∃ ack ∈ t.counted,
    inst.value = some ack.value ∧ inst.valueBallot = ack.valueBallot ∧ 0 < ack.valueBallot ∧
      ∀ other ∈ t.counted, other.valueBallot ≤ ack.valueBallot

-- What relates a pending instance to its history in either list.
structure Preparing (n : Nat) (inst : Instance) (t : Trail) : Prop where
  sized : inst.quorum.Sized n
  counted : inst.quorum.CountedBy fun a => ∃ ack ∈ t.round, ack.acceptorId = a
  round : ∀ ack ∈ t.round, ack.iid = inst.iid ∧ ack.ballot = inst.ballot
  explained : t.Explains inst

structure Accepting (n : Nat) (inst : Instance) (t : Trail) : Prop where
  sized : inst.quorum.Sized n
  explained : t.Explains inst

section Lists

variable {R : Instance → Trail → Prop} {insts : List Instance} {ts : List Trail}

theorem forall₂_write (h : List.Forall₂ R insts ts) {iid : Nat} {inst new : Instance}
    (hfind : instanceFind insts iid = some inst) {f : Trail → Trail}
    (hnew : ∀ t, R inst t → R new (f t)) :
    List.Forall₂ R (instanceWrite insts iid new) (trailWrite insts iid f ts) := by
  induction h with
  | nil => cases hfind
  | @cons item t items rest hr hrest ih =>
      by_cases hiid : item.iid = iid
      · have he : item = inst := by simpa [instanceFind, hiid] using hfind
        subst he
        simp only [instanceWrite, trailWrite, hiid, if_true]
        exact .cons (hnew t hr) hrest
      · have hlater : instanceFind items iid = some inst := by
          simpa [instanceFind, hiid] using hfind
        simp only [instanceWrite, trailWrite, hiid, if_false]
        exact .cons hr (ih hlater)

theorem trailWrite_id (insts : List Instance) (iid : Nat) (ts : List Trail) :
    trailWrite insts iid (fun t => t) ts = ts := by
  induction insts generalizing ts with
  | nil => rfl
  | cons inst insts ih =>
      cases ts with
      | nil => rfl
      | cons t ts => simp [trailWrite, ih]

theorem forall₂_remove (h : List.Forall₂ R insts ts) (inst : Instance) :
    List.Forall₂ R (instanceRemove insts inst) (trailRemove insts inst.iid ts) := by
  induction h with
  | nil => exact .nil
  | @cons item t items rest hr hrest ih =>
      by_cases hiid : item.iid = inst.iid
      · have hdrop : instanceRemove (item :: items) inst = instanceRemove items inst := by
          simp [instanceRemove, instanceMatch, hiid]
        simp only [trailRemove, hiid, if_true, hdrop]
        exact ih
      · have hkeep : instanceRemove (item :: items) inst = item :: instanceRemove items inst := by
          simp [instanceRemove, instanceMatch, Ne.symm hiid]
        simp only [trailRemove, hiid, if_false, hkeep]
        exact .cons hr ih

theorem forall₂_find (h : List.Forall₂ R insts ts) {iid : Nat} {inst : Instance}
    (hfind : instanceFind insts iid = some inst) :
    ∃ t, trailFind insts iid ts = some t ∧ R inst t := by
  induction h with
  | nil => cases hfind
  | @cons item t items rest hr hrest ih =>
      by_cases hiid : item.iid = iid
      · have he : item = inst := by simpa [instanceFind, hiid] using hfind
        subst he
        exact ⟨t, by simp only [trailFind, hiid, if_true], hr⟩
      · have hlater : instanceFind items iid = some inst := by
          simpa [instanceFind, hiid] using hfind
        obtain ⟨found, hf, hrf⟩ := ih hlater
        exact ⟨found, by simp only [trailFind, hiid, if_false]; exact hf, hrf⟩

-- A change to one instance that its history does not notice.
theorem forall₂_replace {pre post : List Instance} {inst new : Instance}
    (h : List.Forall₂ R (pre ++ inst :: post) ts) (hnew : ∀ t, R inst t → R new t) :
    List.Forall₂ R (pre ++ new :: post) ts := by
  induction pre generalizing ts with
  | nil =>
      cases h with
      | cons hr hrest => exact .cons (hnew _ hr) hrest
  | cons item pre ih =>
      cases h with
      | cons hr hrest => exact .cons hr (ih hrest)

end Lists

-- The value is a running maximum: a counted promise with a value replaces it
-- exactly when its ballot is above all those reported before.
theorem Trail.Explains.count {inst : Instance} {t : Trail} (h : t.Explains inst)
    (values : List Value) (quorum : Quorum) {ack : PrepareAck} (hack : ack.ReadsRight inst) :
    (t.count ack).Explains (promiseValue values { inst with quorum := quorum } ack).2 := by
  have hmem (other : PrepareAck) : other ∈ (t.count ack).counted ↔ other ∈ t.counted ∨
      other = ack := by simp [Trail.count]
  have hbelow (b : Nat) (hle : ∀ other ∈ t.counted, other.valueBallot ≤ b)
      (hb : b < ack.valueBallot) : ∀ other ∈ (t.count ack).counted,
        other.valueBallot ≤ ack.valueBallot := by
    intro other ho
    rcases (hmem other).mp ho with ho | rfl
    · have := hle other ho
      omega
    · exact Nat.le_refl _
  have hnew (b : Nat) (hle : ∀ other ∈ t.counted, other.valueBallot ≤ b)
      (hb : b < ack.valueBallot) : (t.count ack).Explains
        { inst with
          quorum := quorum
          valueBallot := ack.valueBallot
          value := some ack.value } := by
    refine ⟨fun hzero => ?_, fun _ => ⟨ack, (hmem ack).mpr (.inr rfl), rfl, rfl, by omega,
      hbelow b hle hb⟩⟩
    have := hzero ack ((hmem ack).mpr (.inr rfl))
    omega
  by_cases hany : ∃ other ∈ t.counted, 0 < other.valueBallot
  · obtain ⟨top, htop, hvalue, hvb, hpos, hle⟩ := h.reported hany
    rcases promiseValue_cases values { inst with quorum := quorum } ack with
      ⟨he, hkeep⟩ | ⟨_, _, hnone⟩ | ⟨old, he, _, _, hlt⟩
    · have hack' : ack.valueBallot ≤ top.valueBallot := by
        rcases hkeep with hnil | hlow
        · rcases hack with hack | ⟨_, hlow⟩
          · have : ¬0 < ack.valueBallot := fun hp => hack.mp hp hnil
            omega
          · exact hvb ▸ hlow
        · exact hvb ▸ hlow
      rw [he]
      refine ⟨fun hzero => ?_, fun _ => ⟨top, (hmem top).mpr (.inl htop), hvalue, hvb, hpos, ?_⟩⟩
      · have := hzero top ((hmem top).mpr (.inl htop))
        omega
      · intro other ho
        rcases (hmem other).mp ho with ho | rfl
        · exact hle other ho
        · exact hack'
    · rw [show inst.value = none from hnone] at hvalue
      cases hvalue
    · rw [he]
      exact hnew top.valueBallot hle (hvb ▸ hlt)
  · have hzero (other : PrepareAck) (ho : other ∈ t.counted) : other.valueBallot = 0 := by
      by_contra hne
      exact hany ⟨other, ho, by omega⟩
    obtain ⟨hvb, hvalue⟩ := h.queued hzero
    rcases promiseValue_cases values { inst with quorum := quorum } ack with
      ⟨he, hkeep⟩ | ⟨he, hne, hnone⟩ | ⟨old, he, _, _, hlt⟩
    · have hack' : ack.valueBallot = 0 := by
        rcases hkeep with hnil | hlow
        · rcases hack with hack | ⟨_, hlow⟩
          · have : ¬0 < ack.valueBallot := fun hp => hack.mp hp hnil
            omega
          · omega
        · have : ack.valueBallot ≤ inst.valueBallot := hlow
          omega
      rw [he]
      refine ⟨fun _ => ⟨hvb, hvalue⟩, fun ⟨other, ho, hpos⟩ => ?_⟩
      rcases (hmem other).mp ho with ho | rfl
      · have := hzero other ho
        omega
      · omega
    · have hpos : 0 < ack.valueBallot :=
        (hack.resolve_right fun h => h.1 hnone).mpr hne
      rw [he]
      exact hnew 0 (fun other ho => (hzero other ho).le) hpos
    · rw [he]
      exact hnew 0 (fun other ho => (hzero other ho).le) (hvb ▸ hlt)

theorem Preparing.new (n iid ballot : Nat) (junk : Nat → Int) (now : Timeval) :
    Preparing n (instanceNew iid ballot n junk now) .new := by
  refine ⟨quorumInit_sized n junk, Quorum.countedBy_clear _ _, List.forall_mem_nil _,
    fun _ => ⟨rfl, rfl⟩, fun ⟨ack, hm, _⟩ => ?_⟩
  cases hm

theorem Preparing.count {n : Nat} {inst : Instance} {t : Trail} (h : Preparing n inst t)
    (values : List Value) {quorum : Quorum} {ack : PrepareAck} (hiid : inst.iid = ack.iid)
    (hballot : ack.ballot = inst.ballot)
    (hadd : quorumAdd inst.quorum ack.acceptorId = .ok (quorum, true))
    (hack : ack.ReadsRight inst) :
    Preparing n (promiseValue values { inst with quorum := quorum } ack).2 (t.count ack) := by
  refine ⟨?_, ?_, ?_, h.explained.count values quorum hack⟩
  · rw [promiseValue_quorum]
    exact quorumAdd_sized h.sized hadd
  · rw [promiseValue_quorum]
    have hmono : inst.quorum.CountedBy fun a => ∃ other ∈ (t.count ack).round,
        other.acceptorId = a :=
      h.counted.mono fun a ⟨other, ho, ha⟩ => ⟨other, List.mem_append_left _ ho, ha⟩
    exact hmono.add ⟨ack, List.mem_append_right _ (List.mem_singleton_self _), rfl⟩ hadd
  · intro other ho
    rw [promiseValue_iid, promiseValue_ballot]
    rcases List.mem_append.mp ho with ho | ho
    · exact h.round other ho
    · rw [List.mem_singleton.mp ho]
      exact ⟨hiid.symm, hballot⟩

-- A new ballot starts a new round and keeps the value.
theorem Accepting.preempt {n : Nat} {inst : Instance} {t : Trail} (h : Accepting n inst t)
    (p : Proposer) (now : Timeval) : Preparing n (preparePreempt p inst now).1 t.preempt :=
  ⟨quorumClear_sized h.sized, Quorum.countedBy_clear _ _, List.forall_mem_nil _,
    h.explained.queued, h.explained.reported⟩

theorem Preparing.accepting {n : Nat} {inst : Instance} {t : Trail} (h : Preparing n inst t) :
    Accepting n inst t := ⟨h.sized, h.explained⟩

-- The instance that `proposer_accept` moves: with its own value, or with one from
-- the queue.
theorem Preparing.accept {n : Nat} {inst : Instance} {t : Trail} (h : Preparing n inst t)
    {value : Value} (hvalue : inst.value = some value ∨ inst.value = none) :
    Accepting n { inst with value := some value, quorum := quorumClear inst.quorum }
      (if inst.value = none then { t with taken := some value } else t) := by
  refine ⟨quorumClear_sized h.sized, ?_⟩
  rcases hvalue with hsome | hnone
  · rw [if_neg (by rw [hsome]; simp), ← hsome]
    exact ⟨h.explained.queued, h.explained.reported⟩
  · rw [if_pos hnone]
    refine ⟨fun hzero => ⟨(h.explained.queued hzero).1, rfl⟩, fun hany => ?_⟩
    obtain ⟨top, _, hv, _⟩ := h.explained.reported hany
    rw [hnone] at hv
    cases hv

-- A reached quorum and the explained value give the rule.
theorem Preparing.selected {n : Nat} {inst : Instance} {t : Trail} (h : Preparing n inst t)
    (hreached : quorumReached inst.quorum = true) {value : Value}
    (hvalue : inst.value = some value ∨ inst.value = none) :
    Selected n ⟨inst.iid, inst.ballot, value⟩
      (if inst.value = none then { t with taken := some value } else t) := by
  have hkeep : (if inst.value = none then { t with taken := some value } else t).round = t.round ∧
      (if inst.value = none then { t with taken := some value } else t).counted = t.counted := by
    split_ifs <;> exact ⟨rfl, rfl⟩
  have hafter := (h.accept hvalue).explained
  refine ⟨?_, fun hany => ?_, fun hzero => ?_⟩
  · obtain ⟨group, hmaj, hg⟩ := h.counted.majority h.sized hreached
    refine ⟨group, hmaj, fun a ha => ?_⟩
    obtain ⟨ack, hm, hid⟩ := hg a ha
    rw [hkeep.1]
    exact ⟨ack, hm, hid, h.round ack hm⟩
  · obtain ⟨top, hm, hv, _, hpos, hle⟩ := hafter.reported hany
    exact ⟨top, hm, (Option.some.inj hv).symm, hpos, hle⟩
  · exact (hafter.queued hzero).2.symm

-- What `proposer_receive_prepare_ack` does, with the write by iid kept as it is.
theorem proposerReceivePrepareAck_cases {p p' : Proposer} {ack : PrepareAck} {now : Timeval}
    {out : Option PrepareReq} (h : proposerReceivePrepareAck p ack now = .ok (p', out)) :
    (promiseCounts p ack = false ∧ out = none ∧ p' = p) ∨
    (∃ inst quorum, instanceFind p.prepareInstances ack.iid = some inst ∧
      ack.ballot = inst.ballot ∧ quorumAdd inst.quorum ack.acceptorId = .ok (quorum, true) ∧
      promiseCounts p ack = true ∧ out = none ∧
      p' = { p with
        values := (promiseValue p.values { inst with quorum := quorum } ack).1
        prepareInstances := instanceWrite p.prepareInstances ack.iid
          (promiseValue p.values { inst with quorum := quorum } ack).2 }) ∨
    ∃ inst, instanceFind p.prepareInstances ack.iid = some inst ∧
      out = some (preparePreempt p inst now).2 ∧
      p' = { p with
        prepareInstances := instanceWrite p.prepareInstances ack.iid
          (preparePreempt p inst now).1 } := by
  unfold proposerReceivePrepareAck at h
  unfold promiseCounts
  cases hfind : instanceFind p.prepareInstances ack.iid with
  | none =>
      rw [hfind] at h
      cases h
      exact .inl ⟨rfl, rfl, rfl⟩
  | some inst =>
      simp only [hfind] at h
      by_cases hlt : ack.ballot < inst.ballot
      · rw [if_pos hlt] at h
        cases h
        have hne : ¬ack.ballot = inst.ballot := by omega
        exact .inl ⟨by simp [hne], rfl, rfl⟩
      · rw [if_neg hlt] at h
        by_cases heq : ack.ballot = inst.ballot
        · rw [if_pos heq] at h
          cases hadd : quorumAdd inst.quorum ack.acceptorId with
          | error fault =>
              rw [hadd] at h
              cases h
          | ok result =>
              obtain ⟨quorum, added⟩ := result
              rw [hadd] at h
              cases added with
              | false =>
                  cases h
                  exact .inl ⟨by simp [hadd, Except.toOption], rfl, rfl⟩
              | true =>
                  cases h
                  exact .inr (.inl ⟨inst, quorum, rfl, heq, hadd,
                    by simp [heq, hadd, Except.toOption], rfl, rfl⟩)
        · rw [if_neg heq] at h
          cases h
          exact .inr (.inr ⟨inst, rfl, rfl, rfl⟩)

theorem proposerReceiveAcceptAck_cases {p p' : Proposer} {ack : AcceptAck} {now : Timeval}
    {result : AcceptAckResult} (h : proposerReceiveAcceptAck p ack now = .ok (p', result)) :
    (result = .ignored ∧ p' = p) ∨
    (∃ inst quorum added, instanceFind p.acceptInstances ack.iid = some inst ∧
      quorumAdd inst.quorum ack.acceptorId = .ok (quorum, added) ∧
      (result = .counted ∧
        p' = { p with
          acceptInstances :=
            instanceWrite p.acceptInstances ack.iid { inst with quorum := quorum } } ∨
      ∃ done, result = .closed done ∧ done.iid = inst.iid ∧
        p' = { p with acceptInstances := instanceRemove p.acceptInstances done })) ∨
    ∃ inst, instanceFind p.acceptInstances ack.iid = some inst ∧
      result = .preempted (preparePreempt p inst now).2 ∧
      p' = { p with
        acceptInstances := instanceRemove p.acceptInstances inst
        prepareInstances := (preparePreempt p inst now).1 :: p.prepareInstances } := by
  unfold proposerReceiveAcceptAck at h
  cases hfind : instanceFind p.acceptInstances ack.iid with
  | none =>
      rw [hfind] at h
      cases h
      exact .inl ⟨rfl, rfl⟩
  | some inst =>
      simp only [hfind] at h
      by_cases heq : ack.ballot = inst.ballot
      · rw [if_pos heq] at h
        split_ifs at h
        cases hadd : quorumAdd inst.quorum ack.acceptorId with
        | error fault =>
            rw [hadd] at h
            cases h
        | ok r =>
            obtain ⟨quorum, added⟩ := r
            rw [hadd] at h
            cases added with
            | false =>
                cases h
                exact .inl ⟨rfl, rfl⟩
            | true =>
                refine .inr (.inl ⟨inst, quorum, true, rfl, hadd, ?_⟩)
                dsimp only at h
                split_ifs at h
                · cases h
                  exact .inr ⟨_, rfl, rfl, rfl⟩
                · cases h
                  exact .inl ⟨rfl, rfl⟩
      · rw [if_neg heq] at h
        cases h
        exact .inr (.inr ⟨inst, rfl, rfl, rfl⟩)

-- Every instance stands beside its own history.
structure Traced.Sound (n : Nat) (t : Traced) : Prop where
  acceptors : t.proposer.acceptors = n
  opened : t.proposer.Opened
  preparing : List.Forall₂ (Preparing n) t.proposer.prepareInstances t.preparing
  accepting : List.Forall₂ (Accepting n) t.proposer.acceptInstances t.accepting

theorem Traced.Sound.init (cfg : PaxosConfig) (id n : Nat) :
    (tracedProposer cfg id n).init.Sound n :=
  ⟨rfl, .new id n, .nil, .nil⟩

theorem Traced.Sound.receivePrepareAck {n : Nat} {t : Traced} (h : t.Sound n) {ack : PrepareAck}
    {now : Timeval} {p : Proposer} {out : Option PrepareReq}
    (hr : proposerReceivePrepareAck t.proposer ack now = .ok (p, out)) (hopened : p.Opened)
    (hack : ReportsValues t (.receivePrepareAck ack now)) :
    (t.after p (.receivePrepareAck ack now) (.ofPrepare out)).Sound n := by
  rcases proposerReceivePrepareAck_cases hr with
    ⟨hno, rfl, rfl⟩ | ⟨inst, quorum, hfind, hballot, hadd, hyes, rfl, rfl⟩ | ⟨inst, hfind, rfl, rfl⟩
  · simp only [Traced.after, ProposerOutput.ofPrepare, hno, Bool.false_eq_true, if_false]
    exact h
  · simp only [Traced.after, ProposerOutput.ofPrepare, hyes, if_true]
    refine ⟨h.acceptors, hopened, forall₂_write h.preparing hfind fun trail ht => ?_, h.accepting⟩
    exact ht.count t.proposer.values (instanceFind_split hfind).1 hballot hadd
      (hack hyes inst hfind)
  · refine ⟨h.acceptors, hopened, forall₂_write h.preparing hfind fun trail ht => ?_, h.accepting⟩
    exact ht.accepting.preempt t.proposer now

theorem Traced.Sound.receiveAcceptAck {n : Nat} {t : Traced} (h : t.Sound n) {ack : AcceptAck}
    {now : Timeval} {p : Proposer} {result : AcceptAckResult}
    (hr : proposerReceiveAcceptAck t.proposer ack now = .ok (p, result)) (hopened : p.Opened) :
    (t.after p (.receiveAcceptAck ack now) (.ofResult result)).Sound n := by
  rcases proposerReceiveAcceptAck_cases hr with
    ⟨rfl, rfl⟩ | ⟨inst, quorum, added, hfind, hadd, ⟨rfl, rfl⟩ | ⟨done, rfl, hiid, rfl⟩⟩ |
      ⟨inst, hfind, rfl, rfl⟩
  · exact h
  · refine ⟨h.acceptors, hopened, h.preparing, ?_⟩
    have hwrite : List.Forall₂ (Accepting n)
        (instanceWrite t.proposer.acceptInstances ack.iid { inst with quorum := quorum })
        (trailWrite t.proposer.acceptInstances ack.iid (fun trail => trail) t.accepting) :=
      forall₂_write h.accepting hfind fun trail ht =>
        ⟨quorumAdd_sized ht.sized hadd, ht.explained.queued, ht.explained.reported⟩
    rw [trailWrite_id] at hwrite
    exact hwrite
  · have hdone : done.iid = ack.iid := hiid.trans (instanceFind_split hfind).1
    refine ⟨h.acceptors, hopened, h.preparing, ?_⟩
    have hremove := forall₂_remove h.accepting done
    rw [hdone] at hremove
    exact hremove
  · obtain ⟨trail, htrail, ht⟩ := forall₂_find h.accepting hfind
    have hremove := forall₂_remove h.accepting inst
    rw [(instanceFind_split hfind).1] at hremove
    simp only [Traced.after, ProposerOutput.ofResult, htrail, Option.toList_some, List.map_cons,
      List.map_nil, List.singleton_append]
    exact ⟨h.acceptors, hopened, .cons (ht.preempt t.proposer now) h.preparing, hremove⟩

-- `proposer_accept` that returns a request: the front instance with its history.
theorem Traced.Sound.accept {n : Nat} {t : Traced} (h : t.Sound n) {p : Proposer} {req : AcceptReq}
    (hr : proposerAccept t.proposer = (p, some req)) (hopened : p.Opened) :
    (t.after p .accept (.acceptReq req)).Sound n ∧
      ∃ trail, (t.after p .accept (.acceptReq req)).accepting.getLast? = some trail ∧
        Selected n req trail := by
  have hmove := proposerAccept_move h.opened.preparing
  rw [hr] at hmove
  cases hmove with
  | accept inst rest value values hfront hreached hvalue =>
      have hvalue' : inst.value = some value ∨ inst.value = none :=
        hvalue.imp And.left And.left
      have hpair := h.preparing
      rw [hfront] at hpair
      cases htrails : t.preparing with
      | nil =>
          rw [htrails] at hpair
          cases hpair
      | cons trail trails =>
          rw [htrails] at hpair
          cases hpair with
          | cons ht hrest =>
              have hafter : t.after
                  { t.proposer with
                    values := values
                    prepareInstances := rest
                    acceptInstances := t.proposer.acceptInstances ++
                      [{ inst with value := some value, quorum := quorumClear inst.quorum }] }
                  .accept (.acceptReq ⟨inst.iid, inst.ballot, value⟩) =
                  ⟨{ t.proposer with
                    values := values
                    prepareInstances := rest
                    acceptInstances := t.proposer.acceptInstances ++
                      [{ inst with value := some value, quorum := quorumClear inst.quorum }] },
                    trails, t.accepting ++ [if inst.value = none then
                      { trail with taken := some value } else trail]⟩ := by
                simp [Traced.after, hfront, htrails]
              rw [hafter]
              refine ⟨⟨h.acceptors, hopened, hrest, ?_⟩, _, List.getLast?_concat,
                ht.selected hreached hvalue'⟩
              exact List.rel_append h.accepting (.cons (ht.accept hvalue') .nil)

theorem proposerAccept_none {p p' : Proposer} (h : p.Opened)
    (hr : proposerAccept p = (p', none)) : p' = p := by
  have hmove := proposerAccept_move h.preparing
  rw [hr] at hmove
  cases hmove
  rfl

theorem Traced.Sound.step {cfg : PaxosConfig} {id n : Nat} {t t' : Traced} {c : ProposerCall}
    (h : t.Sound n) (hc : ReportsValues t c)
    (hs : (tracedProposer cfg id n).step t c = some t') : t'.Sound n := by
  simp only [tracedProposer] at hs
  cases hcall : proposerCall cfg t.proposer c with
  | error fault =>
      rw [hcall] at hs
      cases hs
  | ok r =>
      obtain ⟨p, out⟩ := r
      rw [hcall] at hs
      obtain rfl := Option.some.inj hs
      have hmove := proposerCall_move h.opened.preparing hcall
      have hopened := h.opened.move hmove
      cases c with
      | propose value =>
          cases hcall
          exact ⟨h.acceptors, hopened, h.preparing, h.accepting⟩
      | prepare junk now =>
          cases hcall
          refine ⟨h.acceptors, hopened, List.rel_append h.preparing (.cons ?_ .nil), h.accepting⟩
          rw [h.acceptors]
          exact .new n _ _ junk now
      | receivePrepareAck ack now =>
          simp only [proposerCall, Except.map] at hcall
          split at hcall
          · cases hcall
          · rename_i result hr
            cases hcall
            exact h.receivePrepareAck hr hopened hc
      | accept =>
          cases hr : proposerAccept t.proposer with
          | mk next req =>
              simp only [proposerCall, hr] at hcall
              cases hcall
              cases req with
              | none =>
                  rw [proposerAccept_none h.opened hr]
                  exact h
              | some req => exact (h.accept hr hopened).1
      | receiveAcceptAck ack now =>
          simp only [proposerCall, Except.map] at hcall
          split at hcall
          · cases hcall
          · rename_i result hr
            cases hcall
            exact h.receiveAcceptAck hr hopened
      | timeoutPrepare iter =>
          cases hmove with
          | idle _ _ => exact h
          | timeoutPrepare _ pre post inst hsplit =>
              refine ⟨h.acceptors, hopened, ?_, h.accepting⟩
              apply forall₂_replace (hsplit ▸ h.preparing)
              exact fun trail ht => ⟨ht.sized, ht.counted, ht.round, ht.explained.queued,
                ht.explained.reported⟩
      | timeoutAccept iter =>
          cases hmove with
          | idle _ _ => exact h
          | timeoutAccept _ pre post inst value hsplit hvalue =>
              refine ⟨h.acceptors, hopened, h.preparing, ?_⟩
              apply forall₂_replace (hsplit ▸ h.accepting)
              exact fun trail ht => ⟨ht.sized, ht.explained.queued, ht.explained.reported⟩

-- The selection rule holds in every state of every run whose counted promises are
-- all read rightly.
theorem value_selection_rule (cfg : PaxosConfig) (id n : Nat) (t : Traced)
    (hr : (tracedProposer cfg id n).Reachable ReportsValues t) : t.SelectsByRule cfg id n := by
  have hsound : t.Sound n := hr.invariant (Traced.Sound n) (.init cfg id n)
    fun s c s' _ hs hc hstep => hs.step hc hstep
  intro p req t' haccept hstep
  have hopened : p.Opened := by
    have hmove := proposerAccept_move hsound.opened.preparing
    rw [haccept] at hmove
    exact hsound.opened.move hmove
  have hafter : t' = t.after p .accept (.acceptReq req) := by
    simp only [tracedProposer, proposerCall, haccept, ProposerOutput.ofAccept,
      Option.some.injEq] at hstep
    exact hstep.symm
  rw [hafter]
  exact (hsound.accept haccept hopened).2

-- Two rounds: a promise of ballot 11, a refusal that preempts it, and promises of
-- ballot 21 that report values of the ballots 10 and 12.
def twoRounds : List ProposerCall :=
  [.propose [8], .prepare (fun _ => 0) ⟨0, 0⟩, .receivePrepareAck ⟨0, 1, 11, 10, [7]⟩ ⟨0, 0⟩,
    .receivePrepareAck ⟨1, 1, 12, 12, [9]⟩ ⟨0, 0⟩, .receivePrepareAck ⟨2, 1, 21, 10, [7]⟩ ⟨0, 0⟩,
    .receivePrepareAck ⟨1, 1, 21, 12, [9]⟩ ⟨0, 0⟩]

theorem value_selection_rule_preempted : ∃ t, (tracedProposer {} 1 3).Reachable ReportsValues t ∧
    (proposerAccept t.proposer).2 = some ⟨1, 21, [9]⟩ ∧ t.SelectsByRule {} 1 3 := by
  obtain ⟨t, hrun, hreq⟩ : ∃ t, (tracedProposer {} 1 3).run (tracedProposer {} 1 3).init twoRounds =
      some t ∧ (proposerAccept t.proposer).2 = some ⟨1, 21, [9]⟩ := ⟨_, rfl, rfl⟩
  have hr := TransitionSystem.reachable_of_run ReportsValues (by decide) hrun
  exact ⟨t, hr, hreq, value_selection_rule {} 1 3 t hr⟩

-- The value of proposer `p` is empty, and it is accepted. Proposer `q` hears of it in
-- a promise of its own ballot.
def emptyAccepted {ι : Type} (p q : ι) : List (Event ι Empty) :=
  [.call p (.propose []), .call p (.prepare (fun _ => 0) ⟨0, 0⟩),
    .handle 0 (.prepareReq p ⟨1, 10⟩), .call p (.receivePrepareAck ⟨0, 1, 10, 0, []⟩ ⟨0, 0⟩),
    .call p .accept, .handle 0 (.acceptReq p ⟨1, 10, []⟩),
    .call q (.propose [8]), .call q (.prepare (fun _ => 0) ⟨0, 0⟩),
    .handle 0 (.prepareReq q ⟨1, 11⟩), .call q (.receivePrepareAck ⟨0, 1, 11, 10, []⟩ ⟨0, 0⟩)]

-- What proposer `q` is called with in that run.
def emptyReported : List ProposerCall :=
  [.propose [8], .prepare (fun _ => 0) ⟨0, 0⟩, .receivePrepareAck ⟨0, 1, 11, 10, []⟩ ⟨0, 0⟩]

-- The request then carries the proposer's own value.
theorem empty_value_ignored : ∃ (s : System (Fin 2) Empty BdbStorage) (t : Traced),
    (paxos BdbStorage (.numbered Empty 2 1)).Reachable (fun s e => e.noRestart ∧ e.noWrap s) s ∧
      (tracedProposer {} 1 1).run (tracedProposer {} 1 1).init emptyReported = some t ∧
      (s.proposers 1).state = t.proposer ∧
      (proposerAccept t.proposer).2 = some ⟨1, 11, [8]⟩ ∧ ¬t.SelectsByRule {} 1 1 := by
  obtain ⟨s, t, hrun, htraced, hstate, hreq, hnot⟩ :
      ∃ (s : System (Fin 2) Empty BdbStorage) (t : Traced),
      (paxos BdbStorage (.numbered Empty 2 1)).run (System.start (.numbered Empty 2 1))
        (emptyAccepted 0 1) = some s ∧
      (tracedProposer {} 1 1).run (tracedProposer {} 1 1).init emptyReported = some t ∧
      (s.proposers 1).state = t.proposer ∧
      (proposerAccept t.proposer).2 = some ⟨1, 11, [8]⟩ ∧ ¬t.SelectsByRule {} 1 1 := by
    refine ⟨_, _, rfl, rfl, rfl, rfl, fun hrule => ?_⟩
    obtain ⟨trail, hlast, hsel⟩ := hrule _ _ _ rfl rfl
    obtain rfl := Option.some.inj hlast
    obtain ⟨ack, hm, hv, _⟩ := hsel.reported ⟨_, List.mem_cons_self, by decide⟩
    obtain rfl := List.mem_singleton.mp hm
    cases hv
  exact ⟨s, t, TransitionSystem.reachable_of_run _ (by decide) hrun, htraced, hstate, hreq, hnot⟩

end LibPaxos
