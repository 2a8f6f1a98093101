import LibPaxos.Wraparound

namespace LibPaxos

-- What `learner_deliver_next_closed` hands to the callback as the proposer's id.
def propId (ack : AcceptAck) : Nat := ack.ballot % MAX_N_OF_PROPOSERS

-- A proposer with the prepare requests that `proposer_prepare` and
-- `prepare_preempt` made, oldest first. A timeout only repeats a request.
structure BallotLog where
  proc : ProposerProc
  issued : List PrepareReq

def ProposerOutput.issues (c : ProposerCall) : ProposerOutput → List PrepareReq
  | .prepareReq req =>
      match c with
      | .timeoutPrepare _ => []
      | _ => [req]
  | _ => []

def ballotSystem (cfg : PaxosConfig) (id acceptors : Nat) :
    TransitionSystem BallotLog ProposerCall where
  init := ⟨ProposerProc.start id acceptors, []⟩
  step s c :=
    if s.proc.halted then none
    else
      some ⟨(s.proc.call cfg c).1, s.issued ++ (s.proc.call cfg c).2.issues c⟩

-- The successive ballots of an instance.
def BallotLog.ballots (s : BallotLog) (iid : Nat) : List Nat :=
  (s.issued.filter fun req => req.iid = iid).map PrepareReq.ballot

-- The iids name different instances as long as their counter does not wrap.
def noIidReuse (s : BallotLog) (c : ProposerCall) : Prop :=
  c.isPrepare = true → s.proc.state.nextPrepareIid + 1 < 2 ^ 32

instance noIidReuse.decidable (s : BallotLog) (c : ProposerCall) : Decidable (noIidReuse s c) :=
  inferInstanceAs (Decidable (_ → _))

-- The ballot of an instance after `k` preemptions, as the code computes it.
def ballotAfter (id : Nat) : Nat → Nat
  | 0 => proposerNextBallot (proposerNew id 0) 0
  | k + 1 => proposerNextBallot (proposerNew id 0) (ballotAfter id k)

theorem proposerNextBallot_of_id {p : Proposer} {id : Nat} (h : p.id = id) (b : Nat) :
    proposerNextBallot p b = proposerNextBallot (proposerNew id 0) b := by
  unfold proposerNextBallot
  rw [h]
  rfl

theorem ballotAfter_of_lt {id k : Nat} (h : MAX_N_OF_PROPOSERS * (k + 1) + id < 2 ^ 32) :
    ballotAfter id k = MAX_N_OF_PROPOSERS * (k + 1) + id := by
  unfold MAX_N_OF_PROPOSERS at *
  induction k with
  | zero =>
      simp only [ballotAfter, proposerNextBallot, proposerNew, MAX_N_OF_PROPOSERS]
      rw [if_neg (by omega), uint32_of_lt (by omega)]
  | succ k ih =>
      rw [ballotAfter, ih (by omega)]
      simp only [proposerNextBallot, MAX_N_OF_PROPOSERS]
      rw [if_pos (by omega), uint32_of_lt (by omega)]
      omega

-- The first ballot that does not fit is smaller than the one before it.
theorem ballotAfter_wrap {id k : Nat}
    (hlt : MAX_N_OF_PROPOSERS * (k + 1) + id < 2 ^ 32)
    (hwrap : 2 ^ 32 ≤ MAX_N_OF_PROPOSERS * (k + 2) + id) :
    ballotAfter id (k + 1) < ballotAfter id k := by
  rw [ballotAfter, ballotAfter_of_lt hlt]
  unfold proposerNextBallot MAX_N_OF_PROPOSERS at *
  rw [if_pos (by omega)]
  unfold uint32
  omega

-- Ballots of one instance that grow and name their proposer.
structure SoundBallots (id : Nat) (ballots : List Nat) : Prop where
  increasing : ballots.Pairwise (· < ·)
  congruent : ∀ b ∈ ballots, b % MAX_N_OF_PROPOSERS = id % MAX_N_OF_PROPOSERS
  named : ∀ ack : AcceptAck, ack.ballot ∈ ballots → propId ack = id

theorem soundBallots_iff {id : Nat} (hid : id < MAX_N_OF_PROPOSERS) (m : Nat) :
    SoundBallots id ((List.range m).map (ballotAfter id)) ↔
      MAX_N_OF_PROPOSERS * m + id < 2 ^ 32 := by
  constructor
  · intro h
    by_contra hwrap
    -- The least number of ballots of which the last does not fit.
    obtain ⟨k, hk, hmin⟩ : ∃ k, 2 ^ 32 ≤ MAX_N_OF_PROPOSERS * k + id ∧
        ∀ j < k, MAX_N_OF_PROPOSERS * j + id < 2 ^ 32 := by
      have hex : ∃ k, 2 ^ 32 ≤ MAX_N_OF_PROPOSERS * k + id := ⟨m, by omega⟩
      exact ⟨Nat.find hex, Nat.find_spec hex, fun j hj => Nat.lt_of_not_le (Nat.find_min hex hj)⟩
    obtain ⟨j, rfl⟩ : ∃ j, k = j + 2 := by
      refine ⟨k - 2, ?_⟩
      unfold MAX_N_OF_PROPOSERS at *
      omega
    have hjm : j + 2 ≤ m := by
      by_contra hlt
      exact absurd (hmin m (by omega)) hwrap
    have hdown := ballotAfter_wrap (hmin (j + 1) (by omega)) hk
    have hup := List.pairwise_map.mp h.increasing
    rw [List.pairwise_iff_getElem] at hup
    have := hup j (j + 1) (by rw [List.length_range]; omega) (by rw [List.length_range]; omega)
      (by omega)
    rw [List.getElem_range, List.getElem_range] at this
    omega
  · intro hfit
    have hall (k : Nat) (hk : k < m) :
        ballotAfter id k = MAX_N_OF_PROPOSERS * (k + 1) + id := by
      apply ballotAfter_of_lt
      unfold MAX_N_OF_PROPOSERS at *
      omega
    have hcong : ∀ b ∈ (List.range m).map (ballotAfter id), b % MAX_N_OF_PROPOSERS = id := by
      intro b hb
      obtain ⟨k, hk, rfl⟩ := List.mem_map.mp hb
      rw [hall k (List.mem_range.mp hk), Nat.mul_add_mod, Nat.mod_eq_of_lt hid]
    refine ⟨?_, fun b hb => by rw [hcong b hb, Nat.mod_eq_of_lt hid], fun ack hack => hcong _ hack⟩
    rw [List.pairwise_map, List.pairwise_iff_getElem]
    intro i j hi hj hij
    rw [List.length_range] at hi hj
    rw [List.getElem_range, List.getElem_range, hall i hi, hall j hj]
    unfold MAX_N_OF_PROPOSERS
    omega

section

variable {id n : Nat} {s : BallotLog}

-- Each instance has issued the ballots of its preemptions so far, and a pending one
-- is at the last of them.
structure Issued (id n : Nat) (s : BallotLog) : Prop where
  booked : Booked id n s.proc
  ballots : ∀ i, s.ballots i = (List.range (s.ballots i).length).map (ballotAfter id)
  fresh : ∀ i, s.proc.state.nextPrepareIid < i → s.ballots i = []
  pending : ∀ inst ∈ s.proc.state.prepareInstances ++ s.proc.state.acceptInstances,
    (s.ballots inst.iid).getLast? = some inst.ballot

theorem Issued.start (id n : Nat) : Issued id n ⟨ProposerProc.start id n, []⟩ := by
  refine ⟨.start id n, fun i => rfl, fun i _ => rfl, ?_⟩
  simp [ProposerProc.start, proposerNew]

theorem BallotLog.ballots_append (s : BallotLog) (pr : ProposerProc) (req : PrepareReq) (i : Nat) :
    BallotLog.ballots ⟨pr, s.issued ++ [req]⟩ i =
      s.ballots i ++ if req.iid = i then [req.ballot] else [] := by
  unfold BallotLog.ballots
  by_cases h : req.iid = i <;> simp [List.filter_append, h]

-- The first ballot of an instance.
theorem map_ballotAfter_open {p : Proposer} (hid : p.id = id) :
    [proposerNextBallot p 0] = (List.range 1).map (ballotAfter id) := by
  rw [proposerNextBallot_of_id hid]
  rfl

-- The ballot after the last one.
theorem map_ballotAfter_next {p : Proposer} (hid : p.id = id) {ballots : List Nat} {b : Nat}
    (hall : ballots = (List.range ballots.length).map (ballotAfter id))
    (hlast : ballots.getLast? = some b) :
    ballots ++ [proposerNextBallot p b] =
      (List.range (ballots ++ [proposerNextBallot p b]).length).map (ballotAfter id) := by
  have hb : b = ballotAfter id (ballots.length - 1) := by
    rw [hall, List.getLast?_map, List.getLast?_range] at hlast
    split_ifs at hlast with h0
    · cases hlast
    · exact (Option.some.inj hlast).symm
  have hne : ballots.length ≠ 0 := by
    intro h0
    rw [List.length_eq_zero_iff.mp h0] at hlast
    cases hlast
  obtain ⟨k, hk⟩ := Nat.exists_eq_succ_of_ne_zero hne
  rw [List.length_append, List.length_singleton, List.range_succ, List.map_append, ← hall, hb, hk,
    proposerNextBallot_of_id hid]
  rfl

-- A pending instance that a call has not given a new ballot.
def Carried (p : Proposer) (inst : Instance) : Prop :=
  ∃ old ∈ p.prepareInstances ++ p.acceptInstances, old.iid = inst.iid ∧ old.ballot = inst.ballot

theorem Carried.prepare {p : Proposer} {inst : Instance} (h : inst ∈ p.prepareInstances) :
    Carried p inst := ⟨inst, List.mem_append_left _ h, rfl, rfl⟩

theorem Carried.accept {p : Proposer} {inst : Instance} (h : inst ∈ p.acceptInstances) :
    Carried p inst := ⟨inst, List.mem_append_right _ h, rfl, rfl⟩

theorem Issued.keep (h : Issued id n s) {pr : ProposerProc} (hb : Booked id n pr)
    (hnext : pr.state.nextPrepareIid = s.proc.state.nextPrepareIid)
    (hprep : ∀ inst ∈ pr.state.prepareInstances, Carried s.proc.state inst)
    (hacc : ∀ inst ∈ pr.state.acceptInstances, Carried s.proc.state inst) :
    Issued id n ⟨pr, s.issued ++ []⟩ := by
  rw [List.append_nil]
  refine ⟨hb, h.ballots, fun i hi => h.fresh i (hnext ▸ hi), fun inst hm => ?_⟩
  obtain ⟨old, hold, hiid, hballot⟩ := List.forall_mem_append.mpr ⟨hprep, hacc⟩ inst hm
  have hlast := h.pending old hold
  rw [hiid, hballot] at hlast
  exact hlast

-- The instance `new` issues its next ballot. No other instance has its iid.
theorem Issued.issue (h : Issued id n s) {pr : ProposerProc} (hb : Booked id n pr)
    (new : Instance) (hnew : new ∈ pr.state.prepareInstances)
    (hnext : s.proc.state.nextPrepareIid ≤ pr.state.nextPrepareIid)
    (hballots : s.ballots new.iid ++ [new.ballot] =
      (List.range (s.ballots new.iid ++ [new.ballot]).length).map (ballotAfter id))
    (hprep : ∀ inst ∈ pr.state.prepareInstances, inst = new ∨ Carried s.proc.state inst)
    (hacc : ∀ inst ∈ pr.state.acceptInstances, Carried s.proc.state inst) :
    Issued id n ⟨pr, s.issued ++ [⟨new.iid, new.ballot⟩]⟩ := by
  have hown : BallotLog.ballots ⟨pr, s.issued ++ [⟨new.iid, new.ballot⟩]⟩ new.iid =
      s.ballots new.iid ++ [new.ballot] := by
    rw [s.ballots_append, if_pos rfl]
  have hother (i : Nat) (hi : new.iid ≠ i) :
      BallotLog.ballots ⟨pr, s.issued ++ [⟨new.iid, new.ballot⟩]⟩ i = s.ballots i := by
    rw [s.ballots_append, if_neg hi, List.append_nil]
  have hkept (inst : Instance) (hne : new.iid ≠ inst.iid) (hinst : Carried s.proc.state inst) :
      (BallotLog.ballots ⟨pr, s.issued ++ [⟨new.iid, new.ballot⟩]⟩ inst.iid).getLast? =
        some inst.ballot := by
    obtain ⟨old, hold, hiid, hballot⟩ := hinst
    have hlast := h.pending old hold
    rw [hiid, hballot] at hlast
    rw [hother inst.iid hne, hlast]
  refine ⟨hb, fun i => ?_, fun i hi => ?_, List.forall_mem_append.mpr ⟨?_, ?_⟩⟩
  · by_cases hi : new.iid = i
    · rw [← hi, hown]
      exact hballots
    · rw [hother i hi]
      exact h.ballots i
  · have hrange := hb.prepare_range hnew
    dsimp only at hi
    rw [hother i (by omega)]
    exact h.fresh i (by omega)
  · intro inst hm
    by_cases hi : new.iid = inst.iid
    · obtain rfl : new = inst := List.inj_on_of_nodup_map hb.nodup_prepare hnew hm hi
      rw [hown, List.getLast?_concat]
    · rcases hprep inst hm with rfl | hinst
      · exact absurd rfl hi
      · exact hkept inst hi hinst
  · exact fun inst hm => hkept inst (hb.prepare_ne_accept hnew hm) (hacc inst hm)

theorem Issued.move (h : Issued id n s) {c : ProposerCall} {p : Proposer} {out : ProposerOutput}
    (hm : Move s.proc.state c p out) (hg : noIidReuse s c) :
    Issued id n ⟨s.proc.after c p out, s.issued ++ out.issues c⟩ := by
  have hb := h.booked.move hm fun junk now he => hg (he ▸ rfl)
  have hprep (inst : Instance) (hm : inst ∈ s.proc.state.prepareInstances) :
      Carried s.proc.state inst := .prepare hm
  have hacc (inst : Instance) (hm : inst ∈ s.proc.state.acceptInstances) :
      Carried s.proc.state inst := .accept hm
  cases hm with
  | idle | propose => exact h.keep hb rfl hprep hacc
  | prepare junk now =>
      have hfit := hg rfl
      have hnew := uint32_of_lt hfit
      have hempty := h.fresh (uint32 (s.proc.state.nextPrepareIid + 1)) (by omega)
      refine h.issue hb (instanceNew (uint32 (s.proc.state.nextPrepareIid + 1))
        (proposerNextBallot s.proc.state 0) s.proc.state.acceptors junk now) ?_ ?_ ?_ ?_ hacc
      · exact List.mem_append_right _ (List.mem_singleton.mpr rfl)
      · change _ ≤ uint32 (s.proc.state.nextPrepareIid + 1)
        omega
      · dsimp only [instanceNew]
        rw [hempty, List.nil_append]
        exact map_ballotAfter_open h.booked.ident
      · intro inst hi
        rcases List.mem_append.mp hi with hi | hi
        · exact .inr (.prepare hi)
        · exact .inl (List.mem_singleton.mp hi)
  | promise ack now before after inst quorum hs hfind hiid hballot hadd =>
      refine h.keep hb rfl (forall_mem_split hs hprep fun hinst => ?_) hacc
      simpa [Carried] using hinst
  | preempt ack now before after inst hs hfind hlt =>
      have hlast := h.pending inst (List.mem_append_left _ (instanceFind_mem hfind))
      refine h.issue hb (preparePreempt s.proc.state inst now).1 ?_ (Nat.le_refl _) ?_ ?_
        hacc
      · simp [ProposerProc.after]
      · exact map_ballotAfter_next h.booked.ident (h.ballots inst.iid) hlast
      · intro item hi
        rcases List.mem_append.mp hi with hi | hi
        · exact .inr (.prepare (by simp [hs, hi]))
        · rcases List.mem_cons.mp hi with rfl | hi
          · exact .inl rfl
          · exact .inr (.prepare (by simp [hs, hi]))
  | accept inst rest value values hfront hreached hvalue =>
      have hinst : inst ∈ s.proc.state.prepareInstances := by simp [hfront]
      have hrest (item : Instance) (hi : item ∈ rest) : item ∈ s.proc.state.prepareInstances := by
        simp [hfront, hi]
      refine h.keep hb rfl (fun item hi => hprep item (hrest item hi)) ?_
      refine List.forall_mem_append.mpr ⟨hacc, List.forall_mem_singleton.mpr ?_⟩
      exact ⟨inst, List.mem_append_left _ hinst, rfl, rfl⟩
  | ackCounted ack now before after inst quorum hs hiid hballot hvb hadd hopen =>
      exact h.keep hb rfl hprep (forall_mem_split hs hacc fun hinst => hinst)
  | ackClosed ack now before after inst quorum hs hiid hballot hvb hadd hreached =>
      exact h.keep hb rfl hprep fun item hi => hacc item (mem_instanceRemove.mp hi).1
  | ackPreempted ack now before after inst hs hfind hne =>
      have hlast := h.pending inst (List.mem_append_right _ (instanceFind_mem hfind))
      refine h.issue hb (preparePreempt s.proc.state inst now).1 ?_ (Nat.le_refl _) ?_ ?_
        fun item hi => hacc item (mem_instanceRemove.mp hi).1
      · exact List.mem_cons_self
      · exact map_ballotAfter_next h.booked.ident (h.ballots inst.iid) hlast
      · intro item hi
        rcases List.mem_cons.mp hi with rfl | hi
        · exact .inl rfl
        · exact .inr (.prepare hi)
  | timeoutPrepare iter before after inst hs =>
      exact h.keep hb rfl (forall_mem_split hs hprep fun hinst => hinst) hacc
  | timeoutAccept iter before after inst value hs hvalue =>
      exact h.keep hb rfl hprep (forall_mem_split hs hacc fun hinst => hinst)

theorem Issued.of_reachable {cfg : PaxosConfig}
    (hr : (ballotSystem cfg id n).Reachable noIidReuse s) : Issued id n s := by
  refine hr.invariant (Issued id n) (.start id n) fun s c s' _ h hg hs => ?_
  simp only [ballotSystem, Option.ite_none_left_eq_some, Option.some.injEq] at hs
  obtain ⟨_, rfl⟩ := hs
  rcases hcall : s.proc.call cfg c with ⟨pr, out⟩
  rcases h.booked.call_cases hcall with ⟨_, _, rfl, rfl⟩ | ⟨p, hm, rfl⟩
  · exact h.keep h.booked.halt rfl (fun inst hm => .prepare hm) fun inst hm => .accept hm
  · exact h.move hm hg

end

-- Two proposers and one instance: their ballots grow, name their proposers and
-- differ from each other exactly as long as none of them has wrapped.
theorem ballots_sound_iff (cfg cfg' : PaxosConfig) (id id' n n' : Nat)
    (hid : id < MAX_N_OF_PROPOSERS) (hid' : id' < MAX_N_OF_PROPOSERS) (s s' : BallotLog)
    (hr : (ballotSystem cfg id n).Reachable noIidReuse s)
    (hr' : (ballotSystem cfg' id' n').Reachable noIidReuse s') (iid : Nat) :
    (SoundBallots id (s.ballots iid) ∧ SoundBallots id' (s'.ballots iid) ∧
        (id ≠ id' → ∀ b ∈ s.ballots iid, b ∉ s'.ballots iid)) ↔
      MAX_N_OF_PROPOSERS * (s.ballots iid).length + id < 2 ^ 32 ∧
        MAX_N_OF_PROPOSERS * (s'.ballots iid).length + id' < 2 ^ 32 := by
  have hiff := soundBallots_iff hid (s.ballots iid).length
  have hiff' := soundBallots_iff hid' (s'.ballots iid).length
  rw [← (Issued.of_reachable hr).ballots iid] at hiff
  rw [← (Issued.of_reachable hr').ballots iid] at hiff'
  rw [← hiff, ← hiff', ← and_assoc, and_iff_left_iff_imp]
  rintro ⟨hs, hs'⟩ hne b hb hb'
  have hmod := hs.congruent b hb
  rw [hs'.congruent b hb', Nat.mod_eq_of_lt hid, Nat.mod_eq_of_lt hid'] at hmod
  exact hne hmod.symm

theorem ballots_sound_iff_once : ∃ s s' : BallotLog,
    (ballotSystem {} 3 3).run ⟨ProposerProc.start 3 3, []⟩ [.prepare (fun _ => 0) ⟨0, 0⟩,
      .receivePrepareAck ⟨0, 1, 15, 0, []⟩ ⟨0, 0⟩, .timeoutPrepare ⟨0, 0, ⟨9, 0⟩⟩] = some s ∧
    (ballotSystem {} 5 3).run ⟨ProposerProc.start 5 3, []⟩ [.prepare (fun _ => 0) ⟨0, 0⟩] =
      some s' ∧ s.ballots 1 = [13, 23] ∧ s'.ballots 1 = [15] ∧
    SoundBallots 3 (s.ballots 1) ∧ SoundBallots 5 (s'.ballots 1) ∧
      (3 ≠ 5 → ∀ b ∈ s.ballots 1, b ∉ s'.ballots 1) := by
  obtain ⟨s, hrun, hballots⟩ : ∃ s : BallotLog,
      (ballotSystem {} 3 3).run ⟨ProposerProc.start 3 3, []⟩ [.prepare (fun _ => 0) ⟨0, 0⟩,
        .receivePrepareAck ⟨0, 1, 15, 0, []⟩ ⟨0, 0⟩, .timeoutPrepare ⟨0, 0, ⟨9, 0⟩⟩] = some s ∧
      s.ballots 1 = [13, 23] := ⟨_, rfl, by decide⟩
  obtain ⟨s', hrun', hballots'⟩ : ∃ s' : BallotLog,
      (ballotSystem {} 5 3).run ⟨ProposerProc.start 5 3, []⟩ [.prepare (fun _ => 0) ⟨0, 0⟩] =
        some s' ∧ s'.ballots 1 = [15] := ⟨_, rfl, by decide⟩
  have hr := TransitionSystem.reachable_of_run noIidReuse (by decide) hrun
  have hr' := TransitionSystem.reachable_of_run noIidReuse (by decide) hrun'
  exact ⟨s, s', hrun, hrun', hballots, hballots',
    (ballots_sound_iff {} {} 3 5 3 3 (by decide) (by decide) s s' hr hr' 1).mpr
      (by rw [hballots, hballots']; decide)⟩

-- An ack of the highest ballot preempts the instance of a contender every time.
theorem exists_preempt {b : Nat} {s : BallotLog}
    (hr : (ballotSystem {} 0 3).Reachable noIidReuse s) (hp : s.proc = contender 0 b [])
    (hb : 0 < b) (hlt : b < 2 ^ 32 - 1) :
    ∃ s', (ballotSystem {} 0 3).Reachable noIidReuse s' ∧
      s'.proc = contender 0 (uint32 (10 + b)) [] ∧
      s'.ballots 1 = s.ballots 1 ++ [uint32 (10 + b)] := by
  have hcall := contender_preempt 0 [] hb hlt
  rw [← hp] at hcall
  have hs : (ballotSystem {} 0 3).step s (.receivePrepareAck ⟨0, 1, 2 ^ 32 - 1, 0, []⟩ ⟨0, 0⟩) =
      some ⟨contender 0 (uint32 (10 + b)) [], s.issued ++ [⟨1, uint32 (10 + b)⟩]⟩ := by
    have hlive : s.proc.halted = false := by rw [hp]; rfl
    simp only [ballotSystem, hlive, hcall]
    rfl
  refine ⟨_, hr.step (fun h => Bool.noConfusion h) hs, rfl, ?_⟩
  rw [s.ballots_append, if_pos rfl]

theorem exists_preempted (k : Nat) (hk : 10 * k + 10 < 2 ^ 32) :
    ∃ s, (ballotSystem {} 0 3).Reachable noIidReuse s ∧
      s.proc = contender 0 (10 * k + 10) [] := by
  induction k with
  | zero =>
      obtain ⟨s, hrun, hp⟩ : ∃ s : BallotLog,
          (ballotSystem {} 0 3).run ⟨ProposerProc.start 0 3, []⟩ [.prepare (fun _ => 0) ⟨0, 0⟩] =
            some s ∧ s.proc = contender 0 10 [] := ⟨_, rfl, rfl⟩
      exact ⟨s, TransitionSystem.reachable_of_run noIidReuse (by decide) hrun, hp⟩
  | succ k ih =>
      obtain ⟨s, hr, hp⟩ := ih (by omega)
      obtain ⟨s', hr', hp', _⟩ := exists_preempt hr hp (by omega) (by omega)
      have hnext : uint32 (10 + (10 * k + 10)) = 10 * (k + 1) + 10 := by
        rw [uint32_of_lt (by omega)]
        omega
      exact ⟨s', hr', hnext ▸ hp'⟩

-- After 429496729 preemptions the ballot of proposer 0 is 4, and the next one is the
-- first ballot of proposer 4.
theorem ballots_not_sound : ∃ s s' : BallotLog,
    (ballotSystem {} 0 3).Reachable noIidReuse s ∧ (ballotSystem {} 4 3).Reachable noIidReuse s' ∧
      ¬SoundBallots 0 (s.ballots 1) ∧ 14 ∈ s.ballots 1 ∧ 14 ∈ s'.ballots 1 := by
  obtain ⟨s, hr, hp⟩ := exists_preempted 429496728 (by decide)
  obtain ⟨s1, hr1, hp1, hballots1⟩ := exists_preempt hr hp (by decide) (by decide)
  obtain ⟨s2, hr2, _, hballots2⟩ := exists_preempt hr1 hp1 (by decide) (by decide)
  obtain ⟨s', hrun, hballots'⟩ : ∃ s' : BallotLog,
      (ballotSystem {} 4 3).run ⟨ProposerProc.start 4 3, []⟩ [.prepare (fun _ => 0) ⟨0, 0⟩] =
        some s' ∧ 14 ∈ s'.ballots 1 := ⟨_, rfl, by decide⟩
  have h4 : 4 ∈ s2.ballots 1 := by
    rw [hballots2, hballots1]
    exact List.mem_append_left _ (List.mem_append_right _ (by decide))
  have h14 : 14 ∈ s2.ballots 1 := by
    rw [hballots2]
    exact List.mem_append_right _ (by decide)
  refine ⟨s2, s', hr2, TransitionSystem.reachable_of_run noIidReuse (by decide) hrun, ?_, h14,
    hballots'⟩
  intro hsound
  exact absurd (hsound.named ⟨0, 1, 4, 4, false, []⟩ h4) (by decide)

end LibPaxos
