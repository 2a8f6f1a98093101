import LibPaxos.Proposer.Bookkeeping

namespace LibPaxos

theorem Booked.prepare_range {id n : Nat} {pr : ProposerProc} (h : Booked id n pr)
    {inst : Instance} (hm : inst ∈ pr.state.prepareInstances) :
    1 ≤ inst.iid ∧ inst.iid ≤ pr.state.nextPrepareIid := by
  have hpos : 0 < (pr.state.prepareInstances.map Instance.iid).count inst.iid :=
    List.count_pos_iff.mpr (List.mem_map.mpr ⟨inst, hm, rfl⟩)
  have hp := h.place inst.iid
  unfold ProposerProc.places at hp
  split_ifs at hp with hr
  · exact hr
  · omega

-- No iid is pending in both lists.
theorem Booked.prepare_ne_accept {id n : Nat} {pr : ProposerProc} (h : Booked id n pr)
    {inst item : Instance} (hm : inst ∈ pr.state.prepareInstances)
    (hi : item ∈ pr.state.acceptInstances) : inst.iid ≠ item.iid := by
  intro he
  have hprep : 0 < (pr.state.prepareInstances.map Instance.iid).count inst.iid :=
    List.count_pos_iff.mpr (List.mem_map.mpr ⟨inst, hm, rfl⟩)
  have hacc : 0 < (pr.state.acceptInstances.map Instance.iid).count inst.iid :=
    List.count_pos_iff.mpr (List.mem_map.mpr ⟨item, hi, he.symm⟩)
  have hp := h.place inst.iid
  unfold ProposerProc.places at hp
  split_ifs at hp <;> omega

-- The ballots of the proposer with this id.
def OwnBallot (id b : Nat) : Prop := b % MAX_N_OF_PROPOSERS = id ∧ MAX_N_OF_PROPOSERS ≤ b

theorem OwnBallot.next {p : Proposer} {b : Nat} (h : OwnBallot p.id b)
    (hw : MAX_N_OF_PROPOSERS + b < 2 ^ 32) :
    proposerNextBallot p b = MAX_N_OF_PROPOSERS + b ∧ OwnBallot p.id (MAX_N_OF_PROPOSERS + b) := by
  unfold OwnBallot MAX_N_OF_PROPOSERS at *
  have hpos : b > 0 := by omega
  refine ⟨?_, by omega, by omega⟩
  unfold proposerNextBallot MAX_N_OF_PROPOSERS
  rw [if_pos hpos, uint32_of_lt hw]

theorem OwnBallot.first {p : Proposer} (h : p.id < MAX_N_OF_PROPOSERS) :
    OwnBallot p.id (proposerNextBallot p 0) := by
  unfold OwnBallot proposerNextBallot MAX_N_OF_PROPOSERS at *
  rw [if_neg (by omega), uint32_of_lt (by omega)]
  omega

-- What ties the accept requests emitted in one life of a proposer to its
-- instances. An instance that is being prepared has emitted nothing at its ballot
-- yet, and an instance that is being accepted has emitted its own value there.
structure Emitting (id : Nat) (pr : ProposerProc) : Prop where
  ownPrepare : ∀ inst ∈ pr.state.prepareInstances, OwnBallot id inst.ballot
  ownAccept : ∀ inst ∈ pr.state.acceptInstances, OwnBallot id inst.ballot
  own : ∀ r ∈ pr.emitted, OwnBallot id r.ballot
  range : ∀ r ∈ pr.emitted, 1 ≤ r.iid ∧ r.iid ≤ pr.state.nextPrepareIid
  preparing : ∀ inst ∈ pr.state.prepareInstances, ∀ r ∈ pr.emitted, r.iid = inst.iid →
    r.ballot < inst.ballot
  accepting : ∀ inst ∈ pr.state.acceptInstances,
    (∃ value, inst.value = some value ∧ ⟨inst.iid, inst.ballot, value⟩ ∈ pr.emitted) ∧
      ∀ r ∈ pr.emitted, r.iid = inst.iid → r.ballot ≤ inst.ballot
  finished : ∀ inst ∈ pr.finished,
    ∃ value, inst.value = some value ∧ ⟨inst.iid, inst.ballot, value⟩ ∈ pr.emitted
  unique : ∀ r ∈ pr.emitted, ∀ r' ∈ pr.emitted, r.iid = r'.iid → r.ballot = r'.ballot →
    r.value = r'.value

theorem Emitting.start (id n : Nat) : Emitting id (ProposerProc.start id n) := by
  constructor <;> simp [ProposerProc.start, proposerNew]

-- The accept branch: the front instance leaves the prepare list and emits its
-- value at a ballot at which nothing was emitted before.
private theorem Emitting.accept {id n : Nat} {pr : ProposerProc} (hb : Booked id n pr)
    (h : Emitting id pr) (inst : Instance) (rest : List Instance) (value : Value)
    (values : List Value) (hfront : pr.state.prepareInstances = inst :: rest)
    (finished : List Instance) (hf : finished = pr.finished) (submitted : List Value) :
    Emitting id
      { pr with
        state :=
          { pr.state with
            values := values
            prepareInstances := rest
            acceptInstances := pr.state.acceptInstances ++
              [{ inst with value := some value, quorum := quorumClear inst.quorum }] }
        submitted := submitted
        finished := finished
        emitted := pr.emitted ++ [⟨inst.iid, inst.ballot, value⟩] } := by
  subst hf
  have hinst : inst ∈ pr.state.prepareInstances := by simp [hfront]
  have hrest (item : Instance) (hm : item ∈ rest) : item ∈ pr.state.prepareInstances := by
    simp [hfront, hm]
  have hown := h.ownPrepare inst hinst
  have hbelow := h.preparing inst hinst
  have hne (item : Instance) (hm : item ∈ rest) : inst.iid ≠ item.iid := by
    have hn := hb.nodup_prepare
    rw [hfront, List.map_cons, List.nodup_cons] at hn
    exact fun he => hn.1 (he ▸ List.mem_map.mpr ⟨item, hm, rfl⟩)
  refine ⟨fun item hm => h.ownPrepare item (hrest item hm), ?_, ?_, ?_, ?_, ?_, ?_, ?_⟩
  · intro item hm
    rcases List.mem_append.mp hm with hm | hm
    · exact h.ownAccept item hm
    · rw [List.mem_singleton.mp hm]
      exact hown
  · intro r hr
    rcases List.mem_append.mp hr with hr | hr
    · exact h.own r hr
    · rw [List.mem_singleton.mp hr]
      exact hown
  · intro r hr
    rcases List.mem_append.mp hr with hr | hr
    · exact h.range r hr
    · rw [List.mem_singleton.mp hr]
      exact hb.prepare_range hinst
  · intro item hm r hr he
    rcases List.mem_append.mp hr with hr | hr
    · exact h.preparing item (hrest item hm) r hr he
    · rw [List.mem_singleton.mp hr] at he
      exact absurd he (hne item hm)
  · intro item hm
    rcases List.mem_append.mp hm with hm | hm
    · obtain ⟨⟨v, hv, hmem⟩, hle⟩ := h.accepting item hm
      refine ⟨⟨v, hv, List.mem_append_left _ hmem⟩, fun r hr he => ?_⟩
      rcases List.mem_append.mp hr with hr | hr
      · exact hle r hr he
      · rw [List.mem_singleton.mp hr] at he
        exact absurd he (hb.prepare_ne_accept hinst hm)
    · rw [List.mem_singleton.mp hm]
      refine ⟨⟨value, rfl, by simp⟩, fun r hr he => ?_⟩
      rcases List.mem_append.mp hr with hr | hr
      · exact Nat.le_of_lt (hbelow r hr he)
      · rw [List.mem_singleton.mp hr]
  · intro item hm
    obtain ⟨v, hv, hmem⟩ := h.finished item hm
    exact ⟨v, hv, List.mem_append_left _ hmem⟩
  · intro r hr r' hr' hi hbal
    rcases List.mem_append.mp hr with hr | hr <;> rcases List.mem_append.mp hr' with hr' | hr'
    · exact h.unique r hr r' hr' hi hbal
    · rw [List.mem_singleton.mp hr'] at hi hbal
      exact absurd (hbelow r hr hi) (by simp [hbal])
    · rw [List.mem_singleton.mp hr] at hi hbal
      exact absurd (hbelow r' hr' hi.symm) (by simp [← hbal])
    · rw [List.mem_singleton.mp hr, List.mem_singleton.mp hr']

-- A request that is sent again is one that its instance emitted before.
private theorem Emitting.again {id : Nat} {pr : ProposerProc} (h : Emitting id pr)
    {req : AcceptReq} (hreq : req ∈ pr.emitted) :
    Emitting id { pr with emitted := pr.emitted ++ [req] } := by
  have hset (r : AcceptReq) : r ∈ pr.emitted ++ [req] ↔ r ∈ pr.emitted := by
    rw [List.mem_append, List.mem_singleton]
    constructor
    · rintro (hr | rfl)
      · exact hr
      · exact hreq
    · exact Or.inl
  constructor <;> simp only [hset]
  exacts [h.1, h.2, h.3, h.4, h.5, h.6, h.7, h.8]

theorem Emitting.move {id n : Nat} {pr : ProposerProc} (hid : id < MAX_N_OF_PROPOSERS)
    (hb : Booked id n pr) (h : Emitting id pr) {c : ProposerCall} {p : Proposer}
    {out : ProposerOutput} (hm : Move pr.state c p out) (hw : c.NoWrap pr.state) :
    Emitting id (pr.after c p out) := by
  unfold ProposerProc.after
  have hident := hb.ident
  have hsame : pr.emitted ++ [] = pr.emitted := List.append_nil _
  have hdone : pr.finished ++ [] = pr.finished := List.append_nil _
  cases hm with
  | idle _ _ =>
      simp only [ProposerOutput.emits, ProposerOutput.finishes, hsame, hdone]
      exact ⟨h.1, h.2, h.3, h.4, h.5, h.6, h.7, h.8⟩
  | propose value =>
      simp only [ProposerOutput.emits, ProposerOutput.finishes, hsame, hdone]
      exact ⟨h.1, h.2, h.3, h.4, h.5, h.6, h.7, h.8⟩
  | prepare junk now =>
      have hfit : pr.state.nextPrepareIid + 1 < 2 ^ 32 := hw
      simp only [ProposerOutput.emits, ProposerOutput.finishes, hsame, hdone, uint32_of_lt hfit]
      refine ⟨?_, h.2, h.3, fun r hr => ?_, ?_, h.6, h.7, h.8⟩
      · intro inst hm
        rcases List.mem_append.mp hm with hm | hm
        · exact h.ownPrepare inst hm
        · rw [List.mem_singleton.mp hm, ← hident]
          exact OwnBallot.first (by rw [hident]; exact hid)
      · have := h.range r hr
        dsimp only
        omega
      · intro inst hm r hr he
        rcases List.mem_append.mp hm with hm | hm
        · exact h.preparing inst hm r hr he
        · rw [List.mem_singleton.mp hm] at he
          have := h.range r hr
          simp only [instanceNew] at he
          omega
  | promise ack now pre post inst quorum hsplit hfind hiid hballot hadd =>
      simp only [ProposerOutput.emits, ProposerOutput.finishes, hsame, hdone]
      exact ⟨forall_mem_split hsplit h.1 (by simp), h.2, h.3, h.4,
        forall_mem_split hsplit h.5 (by simp), h.6, h.7, h.8⟩
  | preempt ack now pre post inst hsplit hfind hlt =>
      have hfit : MAX_N_OF_PROPOSERS + inst.ballot < 2 ^ 32 := by
        simp only [ProposerCall.NoWrap, hfind] at hw
        exact hw hlt
      have hown := h.ownPrepare inst (instanceFind_mem hfind)
      rw [← hident] at hown
      obtain ⟨hnext, hown'⟩ := hown.next hfit
      simp only [ProposerOutput.emits, ProposerOutput.finishes, hsame, hdone, preparePreempt, hnext]
      refine ⟨forall_mem_split hsplit h.1 fun _ => hident ▸ hown', h.2, h.3, h.4,
        forall_mem_split hsplit h.5 fun hold r hr he => ?_, h.6, h.7, h.8⟩
      have := hold r hr he
      dsimp only
      omega
  | accept inst rest value values hfront hreached hvalue =>
      exact Emitting.accept hb h inst rest value values hfront _ (by simp [ProposerOutput.finishes])
        (pr.submitted ++ [])
  | ackCounted ack now pre post inst quorum hsplit hiid hballot hvb hadd hopen =>
      simp only [ProposerOutput.emits, ProposerOutput.finishes, hsame, hdone]
      exact ⟨h.1, forall_mem_split hsplit h.2 (by simp), h.3, h.4, h.5,
        forall_mem_split hsplit h.6 (by simp), h.7, h.8⟩
  | ackClosed ack now pre post inst quorum hsplit hiid hballot hvb hadd hreached =>
      simp only [ProposerOutput.emits, ProposerOutput.finishes, hsame]
      have hmem : inst ∈ pr.state.acceptInstances := by simp [hsplit]
      refine ⟨h.1, fun item hm => h.2 item (mem_instanceRemove.mp hm).1, h.3, h.4, h.5,
        fun item hm => h.6 item (mem_instanceRemove.mp hm).1, fun item hm => ?_, h.8⟩
      rcases List.mem_append.mp hm with hm | hm
      · exact h.7 item hm
      · rw [List.mem_singleton.mp hm]
        exact (h.accepting inst hmem).1
  | ackPreempted ack now pre post inst hsplit hfind hne =>
      have hmem := instanceFind_mem hfind
      have hfit : MAX_N_OF_PROPOSERS + inst.ballot < 2 ^ 32 := by
        simp only [ProposerCall.NoWrap, hfind] at hw
        exact hw hne
      have hown := h.ownAccept inst hmem
      rw [← hident] at hown
      obtain ⟨hnext, hown'⟩ := hown.next hfit
      simp only [ProposerOutput.emits, ProposerOutput.finishes, hsame, hdone, preparePreempt, hnext]
      refine ⟨fun item hm => ?_, fun item hm => h.2 item (mem_instanceRemove.mp hm).1, h.3, h.4,
        fun item hm r hr he => ?_, fun item hm => h.6 item (mem_instanceRemove.mp hm).1, h.7, h.8⟩
      · rcases List.mem_cons.mp hm with rfl | hm
        · exact hident ▸ hown'
        · exact h.1 item hm
      · rcases List.mem_cons.mp hm with rfl | hm
        · have := (h.accepting inst hmem).2 r hr he
          unfold MAX_N_OF_PROPOSERS
          dsimp only
          omega
        · exact h.5 item hm r hr he
  | timeoutPrepare iter pre post inst hsplit =>
      simp only [ProposerOutput.emits, ProposerOutput.finishes, hsame, hdone]
      exact ⟨forall_mem_split hsplit h.1 (by simp), h.2, h.3, h.4,
        forall_mem_split hsplit h.5 (by simp), h.6, h.7, h.8⟩
  | timeoutAccept iter pre post inst value hsplit hvalue =>
      have hmem : inst ∈ pr.state.acceptInstances := by simp [hsplit]
      obtain ⟨⟨v, hv, hold⟩, _⟩ := h.accepting inst hmem
      have hve : v = value := Option.some.inj (hv.symm.trans hvalue)
      have h' := h.again (hve ▸ hold)
      simp only [ProposerOutput.emits, ProposerOutput.finishes, hdone]
      exact ⟨h'.1, forall_mem_split hsplit h'.2 (by simp), h'.3, h'.4, h'.5,
        forall_mem_split hsplit h'.6 (by simp), h'.7, h'.8⟩

end LibPaxos
