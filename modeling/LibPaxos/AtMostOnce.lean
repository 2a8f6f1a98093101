import LibPaxos.Agreement

namespace LibPaxos

-- Some pending instance with this iid has this value.
def Proposer.Held (p : Proposer) (i : Nat) (value : Value) : Prop :=
  ∃ inst, (inst ∈ p.prepareInstances ∨ inst ∈ p.acceptInstances) ∧ inst.iid = i ∧
    inst.value = some value

-- A counted promise carries a value that is newer than the one the instance has,
-- so that the latter is pushed back on the queue.
def ProposerCall.PushesBack (p : Proposer) : ProposerCall → Prop
  | .receivePrepareAck ack _ => ∃ inst ∈ instanceFind p.prepareInstances ack.iid,
      ack.ballot = inst.ballot ∧ inst.quorum.acceptorIds[ack.acceptorId]? = some 0 ∧
        ack.value ≠ [] ∧ inst.value ≠ none ∧ inst.valueBallot < ack.valueBallot
  | _ => False

instance ProposerCall.PushesBack.decidable (p : Proposer) :
    (c : ProposerCall) → Decidable (c.PushesBack p)
  | .receivePrepareAck _ _ => Option.decidableExistsMem _
  | .propose _ => isFalse id
  | .prepare _ _ => isFalse id
  | .accept => isFalse id
  | .receiveAcceptAck _ _ => isFalse id
  | .timeoutPrepare _ => isFalse id
  | .timeoutAccept _ => isFalse id

-- The first queued value is taken for the first instance of phase 1, which is prepared and
-- has no value.
def Proposer.Takes (p : Proposer) (i : Nat) (value : Value) : Prop :=
  ∃ inst rest, p.prepareInstances = inst :: rest ∧ inst.iid = i ∧ inst.value = none ∧
    quorumReached inst.quorum = true ∧ p.values.head? = some value

theorem Proposer.Takes.unique {p : Proposer} {i j : Nat} {v w : Value} (h : p.Takes i v)
    (h' : p.Takes j w) : i = j := by
  obtain ⟨inst, rest, hfront, hiid, _⟩ := h
  obtain ⟨inst', rest', hfront', hiid', _⟩ := h'
  obtain ⟨rfl, _⟩ := List.cons.inj (hfront.symm.trans hfront')
  exact hiid.symm.trans hiid'

-- Where the values of a proposer go: a call changes nothing, queues a client value, moves
-- the first queued value to an instance, or takes over a value from a promise. Only then
-- can the queue change in another way.
inductive Flow (p : Proposer) : ProposerCall → Proposer → ProposerOutput → Prop
  | stay {c : ProposerCall} {p' : Proposer} {out : ProposerOutput} (hv : p'.values = p.values)
      (hheld : ∀ i v, p'.Held i v → p.Held i v)
      (hout : ∀ r, out = .acceptReq r → p.Held r.iid r.value) : Flow p c p' out
  | submit (value : Value) {p' : Proposer} (hv : p'.values = p.values ++ [value])
      (hheld : ∀ i v, p'.Held i v → p.Held i v) : Flow p (.propose value) p' .none
  | take (i b : Nat) (value : Value) {p' : Proposer} (htakes : p.Takes i value)
      (hv : p.values = value :: p'.values)
      (hheld : ∀ j v, p'.Held j v → p.Held j v ∨ j = i ∧ v = value) :
      Flow p .accept p' (.acceptReq ⟨i, b, value⟩)
  | adopt (ack : PrepareAck) (now : Timeval) {p' : Proposer}
      (hv : ¬(ProposerCall.receivePrepareAck ack now).PushesBack p → p'.values = p.values)
      (hne : ack.value ≠ [])
      (hheld : ∀ j v, p'.Held j v → p.Held j v ∨ j = ack.iid ∧ v = ack.value) :
      Flow p (.receivePrepareAck ack now) p' .none

-- Every instance of the new lists has a value that the old ones held for its iid.
private theorem held_of_copies (extra : Nat → Value → Prop) {p p' : Proposer}
    (hprep : ∀ inst ∈ p'.prepareInstances, ∀ v, inst.value = some v →
      p.Held inst.iid v ∨ extra inst.iid v)
    (hacc : ∀ inst ∈ p'.acceptInstances, ∀ v, inst.value = some v →
      p.Held inst.iid v ∨ extra inst.iid v) (i : Nat) (v : Value) (h : p'.Held i v) :
    p.Held i v ∨ extra i v := by
  obtain ⟨inst, hm | hm, rfl, hv⟩ := h
  · exact hprep inst hm v hv
  · exact hacc inst hm v hv

theorem Move.flow {p p' : Proposer} {c : ProposerCall} {out : ProposerOutput}
    (hm : Move p c p' out) : Flow p c p' out := by
  have hprep (inst : Instance) (hi : inst ∈ p.prepareInstances) (v : Value)
      (hv : inst.value = some v) : p.Held inst.iid v := ⟨inst, .inl hi, rfl, hv⟩
  have hacc (inst : Instance) (hi : inst ∈ p.acceptInstances) (v : Value)
      (hv : inst.value = some v) : p.Held inst.iid v := ⟨inst, .inr hi, rfl, hv⟩
  have hsame {p' : Proposer} (h1 : ∀ inst ∈ p'.prepareInstances, ∀ v, inst.value = some v →
      p.Held inst.iid v) (h2 : ∀ inst ∈ p'.acceptInstances, ∀ v, inst.value = some v →
      p.Held inst.iid v) (i : Nat) (v : Value) (h : p'.Held i v) : p.Held i v := by
    have hh := held_of_copies (fun _ _ => False) (fun inst hi v hv => .inl (h1 inst hi v hv))
      (fun inst hi v hv => .inl (h2 inst hi v hv)) i v h
    exact hh.resolve_right id
  -- The promised value replaces that of its instance, whatever the queue becomes.
  have hadopt {ack : PrepareAck} {pre post : List Instance} {inst new : Instance}
      {values : List Value} (hsplit : p.prepareInstances = pre ++ inst :: post)
      (hiid : new.iid = ack.iid) (hvalue : new.value = some ack.value) :
      ∀ j v, Proposer.Held { p with values, prepareInstances := pre ++ new :: post } j v →
        p.Held j v ∨ j = ack.iid ∧ v = ack.value := by
    refine held_of_copies _ (forall_mem_split hsplit (fun item hi v hv => .inl (hprep item hi v hv))
      fun _ v hv => .inr ⟨hiid, ?_⟩) fun item hi v hv => .inl (hacc item hi v hv)
    exact Option.some.inj (hv.symm.trans hvalue)
  cases hm with
  | idle _ _ => exact .stay rfl (fun _ _ h => h) nofun
  | propose value => exact .submit value rfl fun _ _ h => h
  | prepare junk now =>
      refine .stay rfl (hsame (fun inst hi v hv => ?_) hacc) nofun
      rcases List.mem_append.mp hi with hi | hi
      · exact hprep inst hi v hv
      · rw [List.mem_singleton.mp hi] at hv
        cases hv
  | promise ack now pre post inst quorum hsplit hfind hiid hballot hadd =>
      rcases promiseValue_cases p.values { inst with quorum := quorum } ack with
        ⟨he, _⟩ | ⟨he, hne, _⟩ | ⟨old, he, hne, hold, hlt⟩
      · rw [he]
        exact .stay rfl (hsame (forall_mem_split hsplit hprep fun h => h) hacc) nofun
      · rw [he]
        exact .adopt ack now (fun _ => rfl) hne (hadopt hsplit hiid rfl)
      · have hsome : inst.value ≠ none := by
          rw [show inst.value = some old from hold]
          nofun
        rw [he]
        refine .adopt ack now (fun hpush => ?_) hne (hadopt hsplit hiid rfl)
        exact absurd ⟨inst, hfind, hballot, (quorumAdd_true hadd).1, hne, hsome, hlt⟩ hpush
  | preempt ack now pre post inst hsplit hfind hlt =>
      exact .stay rfl (hsame (forall_mem_split hsplit hprep fun h => h) hacc) nofun
  | accept inst rest value values hfront hreached hvalue =>
      have hinst : inst ∈ p.prepareInstances := by simp [hfront]
      have hrest (item : Instance) (hi : item ∈ rest) : item ∈ p.prepareInstances := by
        simp [hfront, hi]
      rcases hvalue with ⟨hsome, rfl⟩ | ⟨hnone, hq⟩
      · have hown := hprep inst hinst value hsome
        refine .stay rfl (hsame (fun item hi => hprep item (hrest item hi)) fun item hi v hv => ?_)
          fun r hr => ProposerOutput.acceptReq.inj hr ▸ hown
        rcases List.mem_append.mp hi with hi | hi
        · exact hacc item hi v hv
        · rw [List.mem_singleton.mp hi] at hv ⊢
          exact Option.some.inj hv ▸ hown
      · have htakes : p.Takes inst.iid value :=
          ⟨inst, rest, hfront, rfl, hnone, hreached, by rw [hq]; rfl⟩
        refine .take inst.iid inst.ballot value htakes hq (held_of_copies _
          (fun item hi v hv => .inl (hprep item (hrest item hi) v hv)) fun item hi v hv => ?_)
        rcases List.mem_append.mp hi with hi | hi
        · exact .inl (hacc item hi v hv)
        · rw [List.mem_singleton.mp hi] at hv ⊢
          exact .inr ⟨rfl, (Option.some.inj hv).symm⟩
  | ackCounted ack now pre post inst quorum hsplit hiid hballot hvb hadd hopen =>
      exact .stay rfl (hsame hprep (forall_mem_split hsplit hacc fun h => h)) nofun
  | ackClosed ack now pre post inst quorum hsplit hiid hballot hvb hadd hreached =>
      exact .stay rfl (hsame hprep fun item hi => hacc item (mem_instanceRemove.mp hi).1) nofun
  | ackPreempted ack now pre post inst hsplit hfind hne =>
      refine .stay rfl (hsame (fun item hi => ?_) fun item hi =>
        hacc item (mem_instanceRemove.mp hi).1) nofun
      rcases List.mem_cons.mp hi with rfl | hi
      · exact hacc inst (instanceFind_mem hfind)
      · exact hprep item hi
  | timeoutPrepare iter pre post inst hsplit =>
      exact .stay rfl (hsame (forall_mem_split hsplit hprep fun h => h) hacc) nofun
  | timeoutAccept iter pre post inst value hsplit hvalue =>
      have hown := hacc inst (by simp [hsplit]) value hvalue
      exact .stay rfl (hsame hprep (forall_mem_split hsplit hacc fun h => h))
        fun r hr => ProposerOutput.acceptReq.inj hr ▸ hown

variable {ι κ σ : Type} [MapStorage σ]

-- The value is in a pending instance or in a request for this iid.
def System.Bound (s : System ι κ σ) (i : Nat) (value : Value) : Prop :=
  (∃ p, (s.proposers p).state.Held i value) ∨ ∃ b, s.Proposed i b value

-- No client value is handed over twice.
def Event.fresh (s : System ι κ σ) : Event ι κ → Prop
  | .call _ (.propose value) => ∀ p, value ∉ (s.proposers p).submitted
  | _ => True

def Event.pushesBack (s : System ι κ σ) : Event ι κ → Prop
  | .call p c => c.PushesBack (s.proposers p).state
  | _ => False

instance Event.fresh.decidable [Fintype ι] (s : System ι κ σ) :
    (e : Event ι κ) → Decidable (e.fresh s)
  | .call _ (.propose value) =>
      inferInstanceAs (Decidable (∀ p, value ∉ (s.proposers p).submitted))
  | .call _ (.prepare _ _) => isTrue trivial
  | .call _ (.receivePrepareAck _ _) => isTrue trivial
  | .call _ .accept => isTrue trivial
  | .call _ (.receiveAcceptAck _ _) => isTrue trivial
  | .call _ (.timeoutPrepare _) => isTrue trivial
  | .call _ (.timeoutAccept _) => isTrue trivial
  | .restart _ => isTrue trivial
  | .handle _ _ => isTrue trivial
  | .learn _ _ => isTrue trivial
  | .checkHoles _ => isTrue trivial

instance Event.pushesBack.decidable (s : System ι κ σ) :
    (e : Event ι κ) → Decidable (e.pushesBack s)
  | .call p c => inferInstanceAs (Decidable (c.PushesBack (s.proposers p).state))
  | .restart _ => isFalse id
  | .handle _ _ => isFalse id
  | .learn _ _ => isFalse id
  | .checkHoles _ => isFalse id

-- A value is in one queue at one place and bound to no iid, or bound to one iid
-- and in no queue.
structure Ledger (queues : ι → List Value) (bound : Nat → Value → Prop)
    (submitted : Value → Prop) : Prop where
  queued : ∀ p, ∀ v ∈ queues p, submitted v
  known : ∀ i v, bound i v → submitted v
  nodup : ∀ p, (queues p).Nodup
  disjoint : ∀ p q v, v ∈ queues p → v ∈ queues q → p = q
  free : ∀ p, ∀ v ∈ queues p, ∀ i, ¬bound i v
  one : ∀ i j v, bound i v → bound j v → i = j

theorem Ledger.mono {queues : ι → List Value} {bound bound' : Nat → Value → Prop}
    {submitted submitted' : Value → Prop} (h : Ledger queues bound submitted)
    (hb : ∀ i v, bound' i v → bound i v) (hs : ∀ v, submitted v → submitted' v) :
    Ledger queues bound' submitted' :=
  ⟨fun p v hv => hs v (h.queued p v hv), fun i v hv => hs v (h.known i v (hb i v hv)), h.nodup,
    h.disjoint, fun p v hv i hi => h.free p v hv i (hb i v hi),
    fun i j v hi hj => h.one i j v (hb i v hi) (hb j v hj)⟩

-- The invariant of runs in which no value is pushed back.
def Single (s : System ι κ σ) : Prop :=
  Ledger (fun p => (s.proposers p).state.values) s.Bound s.Submitted

theorem unbound_start (cl : Cluster ι κ) (i : Nat) (v : Value) :
    ¬(System.start cl : System ι κ σ).Bound i v := by
  rintro (⟨p, inst, hm | hm, _⟩ | ⟨b, src, hm⟩) <;> cases hm

theorem Single.start (cl : Cluster ι κ) :
    Single (System.start cl : System ι κ σ) := by
  refine ⟨fun p v hv => ?_, fun i v hv => (unbound_start cl i v hv).elim, fun p => List.nodup_nil,
    fun p q v hv => ?_, fun p v hv => ?_, fun i j v hv => (unbound_start cl i v hv).elim⟩
  · cases hv
  · cases hv
  · cases hv

-- A promise with a value carries one that some proposer has sent.
theorem Honest.bound_of_promise {cl : Cluster ι κ} {s : System ι κ σ} (h : Honest cl s) {p : ι}
    {ack : PrepareAck} (hm : .prepareAck p ack ∈ s.net) (hne : ack.value ≠ []) :
    s.Bound ack.iid ack.value := by
  obtain ⟨rec, rfl, _, hseen⟩ := h.prepareAck p ack hm
  rcases hseen.truth.vote with ⟨_, he⟩ | hsaved
  · exact absurd he hne
  · obtain ⟨_, src, hreq⟩ := h.saved _ _ hsaved
    exact .inr ⟨rec.valueBallot, src, hreq⟩

variable [DecidableEq ι] [DecidableEq κ]

-- A fresh value enters a queue.
theorem Ledger.submit {queues : ι → List Value} {bound : Nat → Value → Prop}
    {submitted submitted' : Value → Prop} (h : Ledger queues bound submitted) (p : ι)
    {value : Value} (hfresh : ¬submitted value) (hs : ∀ v, submitted v ∨ v = value → submitted' v) :
    Ledger (Function.update queues p (queues p ++ [value])) bound submitted' := by
  have hmem {q : ι} {v : Value} (hv : v ∈ Function.update queues p (queues p ++ [value]) q) :
      v ∈ queues q ∨ q = p ∧ v = value := by
    by_cases hq : q = p
    · subst hq
      rw [Function.update_self, List.mem_append, List.mem_singleton] at hv
      exact hv.imp_right fun he => ⟨rfl, he⟩
    · rw [Function.update_of_ne hq] at hv
      exact .inl hv
  refine ⟨fun q v hv => ?_, fun i v hv => hs v (.inl (h.known i v hv)), fun q => ?_,
    fun q q' v hv hv' => ?_, fun q v hv i hi => ?_, h.one⟩
  · rcases hmem hv with hv | ⟨_, rfl⟩
    · exact hs v (.inl (h.queued q v hv))
    · exact hs v (.inr rfl)
  · by_cases hq : q = p
    · subst hq
      rw [Function.update_self]
      refine List.nodup_append.mpr ⟨h.nodup q, List.nodup_singleton _, fun v hv w hw he => ?_⟩
      rw [List.mem_singleton.mp hw] at he
      exact hfresh (he ▸ h.queued q v hv)
    · rw [Function.update_of_ne hq]
      exact h.nodup q
  · rcases hmem hv with hold | ⟨hq, he⟩ <;> rcases hmem hv' with hold' | ⟨hq', he'⟩
    · exact h.disjoint q q' v hold hold'
    · exact absurd (h.queued q v hold) (he' ▸ hfresh)
    · exact absurd (h.queued q' v hold') (he ▸ hfresh)
    · exact hq.trans hq'.symm
  · rcases hmem hv with hv | ⟨_, rfl⟩
    · exact h.free q v hv i hi
    · exact hfresh (h.known i v hi)

-- The first value of a queue is bound to an iid.
theorem Ledger.take {queues : ι → List Value} {bound bound' : Nat → Value → Prop}
    {submitted submitted' : Value → Prop} (h : Ledger queues bound submitted) {p : ι} (i : Nat)
    {value : Value} {rest : List Value} (hq : queues p = value :: rest)
    (hb : ∀ j v, bound' j v → bound j v ∨ j = i ∧ v = value)
    (hs : ∀ v, submitted v → submitted' v) :
    Ledger (Function.update queues p rest) bound' submitted' := by
  have hfirst : value ∈ queues p := by simp [hq]
  have hnodup := h.nodup p
  rw [hq, List.nodup_cons] at hnodup
  have hmem {q : ι} {v : Value} (hv : v ∈ Function.update queues p rest q) :
      v ∈ queues q ∧ v ≠ value := by
    by_cases hqp : q = p
    · subst hqp
      rw [Function.update_self] at hv
      exact ⟨by simp [hq, hv], fun he => hnodup.1 (he ▸ hv)⟩
    · rw [Function.update_of_ne hqp] at hv
      exact ⟨hv, fun he => hqp (h.disjoint q p v hv (he ▸ hfirst))⟩
  refine ⟨fun q v hv => hs v (h.queued q v (hmem hv).1), fun j v hv => ?_, fun q => ?_,
    fun q q' v hv hv' => h.disjoint q q' v (hmem hv).1 (hmem hv').1, fun q v hv j hj => ?_,
    fun j k v hj hk => ?_⟩
  · rcases hb j v hv with hv | ⟨_, rfl⟩
    · exact hs v (h.known j v hv)
    · exact hs v (h.queued p v hfirst)
  · by_cases hqp : q = p
    · subst hqp
      rw [Function.update_self]
      exact hnodup.2
    · rw [Function.update_of_ne hqp]
      exact h.nodup q
  · rcases hb j v hj with hj | ⟨_, he⟩
    · exact h.free q v (hmem hv).1 j hj
    · exact (hmem hv).2 he
  · rcases hb j v hj with hj | ⟨rfl, rfl⟩ <;> rcases hb k v hk with hk | ⟨rfl, he⟩
    · exact h.one j k v hj hk
    · exact absurd hj (h.free p v (he ▸ hfirst) j)
    · exact absurd hk (h.free p v hfirst k)
    · rfl

-- What a call can add to the bound values.
omit [MapStorage σ] [DecidableEq κ] in
theorem bound_of_call {s : System ι κ σ} {p : ι} {pr : ProposerProc} {out : ProposerOutput}
    {i : Nat} {v : Value}
    (h : System.Bound { s with
      proposers := Function.update s.proposers p pr, net := s.net ++ out.packets p } i v) :
    s.Bound i v ∨ pr.state.Held i v ∨ ∃ b, out = .acceptReq ⟨i, b, v⟩ := by
  rcases h with ⟨q, hheld⟩ | ⟨b, src, hm⟩
  · dsimp only at hheld
    by_cases hq : q = p
    · subst hq
      rw [Function.update_self] at hheld
      exact .inr (.inl hheld)
    · rw [Function.update_of_ne hq] at hheld
      exact .inl (.inl ⟨q, hheld⟩)
  · rcases proposed_of_call ⟨src, hm⟩ with hp | hout
    · exact .inl (.inr ⟨b, hp⟩)
    · exact .inr (.inr ⟨b, hout⟩)

-- A call that fails binds nothing.
omit [MapStorage σ] [DecidableEq κ] in
theorem bound_of_fault {s : System ι κ σ} {p : ι} {pr : ProposerProc} {i : Nat} {v : Value}
    (h : System.Bound { s with
      proposers := Function.update s.proposers p pr
      net := s.net ++ ProposerOutput.none.packets p } i v)
    (hstate : pr.state = (s.proposers p).state) : s.Bound i v := by
  rcases bound_of_call h with hb | hb | ⟨b, hb⟩
  · exact hb
  · rw [hstate] at hb
    exact .inl ⟨p, hb⟩
  · cases hb

-- A call binds a value to an iid only by taking it from the queue.
theorem bound_of_flow {cl : Cluster ι κ} {s : System ι κ σ} (hh : Honest cl s) {p : ι}
    {c : ProposerCall} {p' : Proposer} {out : ProposerOutput} (hoffer : c.offered s.net p = true)
    (hflow : Flow (s.proposers p).state c p' out) {i : Nat} {v : Value}
    (h : System.Bound { s with
      proposers := Function.update s.proposers p ((s.proposers p).after c p' out)
      net := s.net ++ out.packets p } i v) :
    s.Bound i v ∨ c = .accept ∧ (s.proposers p).state.Takes i v ∧
      (s.proposers p).state.values = v :: p'.values := by
  have hold (i : Nat) (v : Value) (hv : (s.proposers p).state.Held i v) : s.Bound i v :=
    .inl ⟨p, hv⟩
  rcases bound_of_call h with hb | hb | ⟨b, hb⟩
  · exact .inl hb
  · cases hflow with
    | stay hv hheld hout => exact .inl (hold i v (hheld i v hb))
    | submit value hv hheld => exact .inl (hold i v (hheld i v hb))
    | take j b value htakes hv hheld =>
        rcases hheld i v hb with hb | ⟨rfl, rfl⟩
        · exact .inl (hold i v hb)
        · exact .inr ⟨rfl, htakes, hv⟩
    | adopt ack now hv hne hheld =>
        rcases hheld i v hb with hb | ⟨rfl, rfl⟩
        · exact .inl (hold i v hb)
        · exact .inl (hh.bound_of_promise (prepareAck_of_offered hoffer) hne)
  · cases hflow with
    | stay hv hheld hout => exact .inl (hold i v (hout _ hb))
    | submit => cases hb
    | take j b value htakes hv hheld =>
        cases hb
        exact .inr ⟨rfl, htakes, hv⟩
    | adopt => cases hb

theorem Single.call {cl : Cluster ι κ} {s : System ι κ σ} (hh : Honest cl s) (h : Single s) {p : ι}
    {c : ProposerCall} {p' : Proposer} {out : ProposerOutput}
    (hoffer : c.offered s.net p = true)
    (hcall : (s.proposers p).call (cl.proposerConfig p) c = ((s.proposers p).after c p' out, out))
    (hfresh : Event.fresh s (.call p c)) (hpush : ¬c.PushesBack (s.proposers p).state)
    (hflow : Flow (s.proposers p).state c p' out) :
    Ledger (Function.update (fun q => (s.proposers q).state.values) p p'.values)
      (System.Bound { s with
        proposers := Function.update s.proposers p ((s.proposers p).after c p' out)
        net := s.net ++ out.packets p })
      (System.Submitted { s with
        proposers := Function.update s.proposers p ((s.proposers p).after c p' out)
        net := s.net ++ out.packets p }) := by
  have hsub (v : Value) (hv : s.Submitted v ∨ v ∈ c.submits) := submitted_of_call hcall
    (s.net ++ out.packets p) hv
  have hbound (i : Nat) (v : Value) := bound_of_flow hh hoffer hflow (i := i) (v := v)
  cases hflow with
  | stay hv hheld hout =>
      rw [hv, Function.update_eq_self]
      refine h.mono (fun i v hb => ?_) fun v hv => hsub v (.inl hv)
      rcases hbound i v hb with hb | ⟨_, _, htaken⟩
      · exact hb
      · rw [hv] at htaken
        exact absurd htaken.symm (List.cons_ne_self v _)
  | submit value hv hheld =>
      rw [hv]
      have hnew : ¬s.Submitted value := fun ⟨q, hq⟩ => hfresh q hq
      refine Ledger.mono (h.submit p hnew fun v hv => hsub v ?_) (fun i v hb => ?_)
        fun _ hv => hv
      · exact hv.imp_right fun he => List.mem_singleton.mpr he
      · exact (hbound i v hb).resolve_right fun h => by cases h.1
  | take i b value htakes hv hheld =>
      refine h.take i hv (fun j v hb => ?_) fun v hv => hsub v (.inl hv)
      rcases bound_of_call hb with hb | hb | ⟨_, hb⟩
      · exact .inl hb
      · exact (hheld j v hb).imp_left fun hb => .inl ⟨p, hb⟩
      · cases hb
        exact .inr ⟨rfl, rfl⟩
  | adopt ack now hv hne hheld =>
      rw [hv hpush, Function.update_eq_self]
      refine h.mono (fun i v hb => ?_) fun v hv => hsub v (.inl hv)
      exact (hbound i v hb).resolve_right fun h => by cases h.1

-- A step of another process binds nothing.
theorem bound_of_quiet {cl : Cluster ι κ} {s s' : System ι κ σ} {e : Event ι κ} (hh : Honest cl s)
    (hs : Steps cl s e s') (hne : ∀ p c, e ≠ .call p c) (hsame : s'.proposers = s.proposers)
    {i : Nat} {v : Value} (hb : s'.Bound i v) : s.Bound i v := by
  rcases hb with ⟨p, hb⟩ | ⟨b, hb⟩
  · rw [hsame] at hb
    exact .inl ⟨p, hb⟩
  · exact .inr ⟨b, hs.proposed_before hh hne hb⟩

theorem Single.step {cl : Cluster ι κ} {s s' : System ι κ σ} {e : Event ι κ} (hh : Honest cl s)
    (hopen : ∀ p, (s.proposers p).state.Opened) (h : Single s) (hs : Steps cl s e s')
    (hrestart : e.noRestart) (hfresh : e.fresh s) (hpush : ¬e.pushesBack s) : Single s' := by
  have hquiet (hne : ∀ p c, e ≠ .call p c) (hsame : s'.proposers = s.proposers) : Single s' := by
    unfold Single
    rw [hsame]
    refine h.mono (fun i v hb => bound_of_quiet hh hs hne hsame hb) fun v hv => ?_
    obtain ⟨p, hv⟩ := hv
    exact ⟨p, hsame ▸ hv⟩
  cases hs with
  | handle | learn | checkHoles => exact hquiet nofun rfl
  | restart p => exact hrestart.elim
  | call p c pr out hlive hoffer hcall =>
      have hqueues : (fun q => (Function.update s.proposers p pr q).state.values) =
          Function.update (fun q => (s.proposers q).state.values) p pr.state.values :=
        funext fun q => Function.apply_update (fun _ pr => pr.state.values) s.proposers p pr q
      unfold Single
      rw [hqueues]
      rcases ProposerProc.call_cases (hopen p).preparing hcall with ⟨_, _, rfl, rfl⟩ | ⟨p', hm, rfl⟩
      · rw [Function.update_eq_self]
        exact h.mono (fun i v hb => bound_of_fault hb rfl)
          fun v hv => submitted_of_call hcall _ (.inl hv)
      · exact h.call hh hoffer hcall hfresh hpush hm.flow

theorem Single.of_reachable {cl : Cluster ι κ} {guard : System ι κ σ → Event ι κ → Prop}
    {s : System ι κ σ} (hr : (paxos σ cl).Reachable guard s)
    (hg : ∀ s e, guard s e → (e.noRestart ∧ e.fresh s) ∧ ¬e.pushesBack s) : Single s := by
  refine hr.invariant Single (.start cl) fun s e s' hr h hw hs => ?_
  obtain ⟨⟨hrestart, hfresh⟩, hpush⟩ := hg s e hw
  exact h.step (.of_reachable hr) (opened_of_reachable hr) (step_steps hs) hrestart hfresh hpush

omit [DecidableEq ι] [DecidableEq κ] in
theorem Honest.proposed_of_chosen {cl : Cluster ι κ} {s : System ι κ σ} (h : Honest cl s)
    {i b : Nat} {v : Value} (hc : s.ChosenAt cl i b v) : s.Proposed i b v := by
  obtain ⟨group, hmaj, hgroup⟩ := hc
  obtain ⟨a, ha⟩ := Finset.card_pos.mp (Nat.zero_lt_of_lt hmaj.2)
  exact (h.saved a _ (hgroup a ha)).2

-- The instance has gone to another value.
def System.Lost (cl : Cluster ι κ) (s : System ι κ σ) (i : Nat) (value : Value) : Prop :=
  ∃ b w, s.ChosenAt cl i b w ∧ w ≠ value

-- When a value is taken from a queue, all other instances it was sent for have gone to
-- another value.
def Event.takesLost (cl : Cluster ι κ) (s : System ι κ σ) : Event ι κ → Prop
  | .call p .accept => ∀ i v, (s.proposers p).state.Takes i v →
      ∀ j, s.Bound j v → j = i ∨ s.Lost cl j v
  | _ => True

-- The invariant of runs in which values may be pushed back.
def Apart (cl : Cluster ι κ) (s : System ι κ σ) : Prop :=
  ∀ i j v, s.Bound i v → s.Bound j v → i = j ∨ s.Lost cl i v ∨ s.Lost cl j v

omit [DecidableEq ι] [DecidableEq κ] in
theorem System.Lost.mono {cl : Cluster ι κ} {s s' : System ι κ σ} (hg : s.Grows s') {i : Nat}
    {v : Value} (h : s.Lost cl i v) : s'.Lost cl i v := by
  obtain ⟨b, w, hchosen, hne⟩ := h
  exact ⟨b, w, hchosen.mono hg, hne⟩

theorem Apart.step {cl : Cluster ι κ} {s s' : System ι κ σ} {e : Event ι κ} (hh : Honest cl s)
    (hopen : ∀ p, (s.proposers p).state.Opened) (h : Apart cl s) (hs : Steps cl s e s')
    (hrestart : e.noRestart) (htakes : e.takesLost cl s) : Apart cl s' := by
  have hgrow := hs.grows hh
  -- It is enough to look at values bound now, to an iid they were not bound to before.
  have hnew (hb : ∀ i v, s'.Bound i v → s.Bound i v ∨
      ∀ j, s'.Bound j v → j = i ∨ s.Lost cl j v) : Apart cl s' := by
    intro i j v hi hj
    rcases hb i v hi with hold | hi
    · rcases hb j v hj with hold' | hj
      · exact (h i j v hold hold').imp_right (Or.imp (.mono hgrow) (.mono hgrow))
      · exact (hj i hi).imp_right fun hl => .inl (hl.mono hgrow)
    · exact (hi j hj).imp Eq.symm fun hl => .inr (hl.mono hgrow)
  have hquiet (hne : ∀ p c, e ≠ .call p c) (hsame : s'.proposers = s.proposers) : Apart cl s' :=
    hnew fun i v hb => .inl (bound_of_quiet hh hs hne hsame hb)
  cases hs with
  | handle | learn | checkHoles => exact hquiet nofun rfl
  | restart p => exact hrestart.elim
  | call p c pr out hlive hoffer hcall =>
      rcases ProposerProc.call_cases (hopen p).preparing hcall with ⟨_, _, rfl, rfl⟩ | ⟨p', hm, rfl⟩
      · exact hnew fun i v hb => .inl (bound_of_fault hb rfl)
      · refine hnew fun i v hb => ?_
        rcases bound_of_flow hh hoffer hm.flow hb with hb | ⟨rfl, htaken, hv⟩
        · exact .inl hb
        · refine .inr fun j hj => ?_
          rcases bound_of_flow hh hoffer hm.flow hj with hj | ⟨_, htaken', _⟩
          · exact htakes i v htaken j hj
          · exact .inl (htaken'.unique htaken)

-- A value is chosen in at most one instance in every run that pushes no value back on a
-- queue, and in every run that takes a value from a queue only when the other instances it
-- was sent for have gone to other values.
theorem chosen_in_one_instance (cl : Cluster ι κ) :
    (∀ s : System ι κ σ,
      (paxos σ cl).Reachable (fun s e => (e.noRestart ∧ e.fresh s) ∧ ¬e.pushesBack s) s →
      ∀ i j b c v, s.ChosenAt cl i b v → s.ChosenAt cl j c v → i = j) ∧
    ∀ s : System ι κ σ,
      (paxos σ cl).Reachable
        (fun s e => ((e.noRestart ∧ e.noWrap s) ∧ e.nonEmpty) ∧ e.takesLost cl s) s →
      ∀ i j b c v, s.ChosenAt cl i b v → s.ChosenAt cl j c v → i = j := by
  constructor
  · intro s hr i j b c v hi hj
    have hh := Honest.of_reachable hr
    have hsingle := Single.of_reachable hr fun _ _ h => h
    exact hsingle.one i j v (.inr ⟨b, hh.proposed_of_chosen hi⟩)
      (.inr ⟨c, hh.proposed_of_chosen hj⟩)
  · intro s hr i j b c v hi hj
    have hreg := Regular.of_reachable hr fun _ _ h => h.1.1
    have hsafe := Safe.of_reachable hr fun _ _ h => h.1
    have hapart : Apart cl s := hr.invariant (Apart cl)
      (fun i _ v hi => (unbound_start cl i v hi).elim) fun s e s' hr h hw hs =>
      h.step (.of_reachable hr) (opened_of_reachable hr) (step_steps hs) hw.1.1.1 hw.2
    rcases hapart i j v (.inr ⟨b, hreg.honest.proposed_of_chosen hi⟩)
      (.inr ⟨c, hreg.honest.proposed_of_chosen hj⟩) with he | ⟨b', w, hw, hne⟩ | ⟨b', w, hw, hne⟩
    · exact he
    · exact absurd (hsafe.agree hreg hw hi) hne
    · exact absurd (hsafe.agree hreg hw hj) hne

-- The value of `p` is overtaken: `q` gets its own value chosen in instance 1. The promise
-- that tells `p` so pushes the value back on the queue, from where it goes to instance 2.
def requeued {ι : Type} (p q : ι) : List (Event ι Empty) :=
  [.call p (.propose [7]), .call p (.prepare (fun _ => 0) ⟨0, 0⟩),
    .handle 0 (.prepareReq p ⟨1, 10⟩), .call p (.receivePrepareAck ⟨0, 1, 10, 0, []⟩ ⟨0, 0⟩),
    .call p .accept, .call q (.propose [8]), .call q (.prepare (fun _ => 0) ⟨0, 0⟩),
    .handle 0 (.prepareReq q ⟨1, 11⟩), .call q (.receivePrepareAck ⟨0, 1, 11, 0, []⟩ ⟨0, 0⟩),
    .call q .accept, .handle 0 (.acceptReq q ⟨1, 11, [8]⟩),
    .handle 0 (.acceptReq p ⟨1, 10, [7]⟩),
    .call p (.receiveAcceptAck ⟨0, 1, 11, 11, false, [8]⟩ ⟨0, 0⟩),
    .handle 0 (.prepareReq p ⟨1, 20⟩), .call p (.receivePrepareAck ⟨0, 1, 20, 11, [8]⟩ ⟨0, 0⟩),
    .call p .accept, .call p (.prepare (fun _ => 0) ⟨0, 0⟩), .handle 0 (.prepareReq p ⟨2, 10⟩),
    .call p (.receivePrepareAck ⟨0, 2, 10, 0, []⟩ ⟨0, 0⟩), .call p .accept,
    .handle 0 (.acceptReq p ⟨2, 10, [7]⟩)]

def Packet.acceptIid {ι κ : Type} : Packet ι κ → Option Nat
  | .acceptReq _ req => some req.iid
  | _ => none

-- Values are bound to these iids only.
def System.Uses (iids : List Nat) (s : System (Fin 2) Empty BdbStorage) : Prop :=
  (∀ p, ∀ inst ∈ (s.proposers p).state.prepareInstances ++ (s.proposers p).state.acceptInstances,
    inst.iid ∈ iids) ∧ ∀ i ∈ s.net.filterMap Packet.acceptIid, i ∈ iids

instance System.Uses.decidable (iids : List Nat) (s : System (Fin 2) Empty BdbStorage) :
    Decidable (s.Uses iids) :=
  inferInstanceAs (Decidable (_ ∧ _))

theorem System.Uses.bound {iids : List Nat} {s : System (Fin 2) Empty BdbStorage}
    (h : s.Uses iids) {i : Nat} {v : Value} (hb : s.Bound i v) : i ∈ iids := by
  rcases hb with ⟨p, inst, hm, rfl, _⟩ | ⟨b, src, hm⟩
  · exact h.1 p inst (List.mem_append.mpr hm)
  · exact h.2 i (List.mem_filterMap.mpr ⟨_, hm, rfl⟩)

-- Instance 1 is the only one, or it has gone to [8] and instance 2 is prepared for the rest.
def System.MovesOn (s : System (Fin 2) Empty BdbStorage) : Prop :=
  s.Uses [1] ∨ s.Uses [1, 2] ∧ s.Accepted 0 1 11 [8] ∧
    ∀ p, [8] ∉ (s.proposers p).state.values ∧
      ∀ inst ∈ (s.proposers p).state.prepareInstances, inst.iid = 2

instance System.MovesOn.decidable (s : System (Fin 2) Empty BdbStorage) : Decidable s.MovesOn :=
  inferInstanceAs (Decidable (_ ∨ _ ∧ _ ∧ _))

theorem System.MovesOn.takesLost {s : System (Fin 2) Empty BdbStorage} (h : s.MovesOn)
    (e : Event (Fin 2) Empty) : e.takesLost (.numbered Empty 2 1) s := by
  have hcall (p : Fin 2) (i : Nat) (v : Value) (ht : (s.proposers p).state.Takes i v) (j : Nat)
      (hj : s.Bound j v) : j = i ∨ s.Lost (.numbered Empty 2 1) j v := by
    obtain ⟨inst, rest, hfront, rfl, _, _, hv⟩ := ht
    have hinst : inst ∈ (s.proposers p).state.prepareInstances := by simp [hfront]
    rcases h with huses | ⟨huses, haccepted, h⟩
    · have hi := huses.1 p inst (List.mem_append_left _ hinst)
      rw [List.mem_singleton.mp hi]
      exact .inl (List.mem_singleton.mp (huses.bound hj))
    · rw [(h p).2 inst hinst]
      rcases List.mem_pair.mp (huses.bound hj) with rfl | rfl
      · refine .inr ⟨11, [8], ⟨{0}, ⟨by decide, by decide⟩, by simp [haccepted]⟩, fun he => ?_⟩
        exact (h p).1 (he ▸ List.mem_of_mem_head? hv)
      · exact .inl rfl
  cases e with
  | call p c =>
      cases c with
      | accept => exact hcall p
      | _ => trivial
  | _ => trivial

-- In the first run nothing is pushed back. The second is not of that kind.
theorem chosen_in_one_instance_runs :
    (∃ s : System (Fin 2) Empty BdbStorage,
      (paxos BdbStorage (.numbered Empty 2 3)).run (System.start (.numbered Empty 2 3))
          (takeover 0 1) = some s ∧
        s.ChosenAt (.numbered Empty 2 3) 1 11 [7] ∧
        ∀ i b, s.ChosenAt (.numbered Empty 2 3) i b [7] → i = 1) ∧
    ¬(paxos BdbStorage (.numbered Empty 2 1)).Meets (fun s e => ¬e.pushesBack s)
        (System.start (.numbered Empty 2 1)) (requeued 0 1) ∧
    ∃ s : System (Fin 2) Empty BdbStorage,
      (paxos BdbStorage (.numbered Empty 2 1)).run (System.start (.numbered Empty 2 1))
          (requeued 0 1) = some s ∧
        s.ChosenAt (.numbered Empty 2 1) 2 10 [7] ∧
        ∀ i b, s.ChosenAt (.numbered Empty 2 1) i b [7] → i = 2 := by
  refine ⟨?_, by decide, ?_⟩
  · obtain ⟨s, hrun, h1, h2⟩ : ∃ s : System (Fin 2) Empty BdbStorage,
        (paxos BdbStorage (.numbered Empty 2 3)).run (System.start (.numbered Empty 2 3))
          (takeover 0 1) = some s ∧ s.Accepted 1 1 11 [7] ∧ s.Accepted 2 1 11 [7] :=
      ⟨_, rfl, by decide, by decide⟩
    have hr := TransitionSystem.reachable_of_run
      (fun s e => (e.noRestart ∧ e.fresh s) ∧ ¬Event.pushesBack (σ := BdbStorage) s e)
      (by decide) hrun
    have hv : s.ChosenAt (.numbered Empty 2 3) 1 11 [7] :=
      ⟨{1, 2}, ⟨by decide, by decide⟩, by simp [h1, h2]⟩
    exact ⟨s, hrun, hv, fun i b hi => (chosen_in_one_instance _).1 s hr i 1 b 11 [7] hi hv⟩
  · obtain ⟨s, hrun, h⟩ : ∃ s : System (Fin 2) Empty BdbStorage,
        (paxos BdbStorage (.numbered Empty 2 1)).run (System.start (.numbered Empty 2 1))
          (requeued 0 1) = some s ∧ s.Accepted 0 2 10 [7] :=
      ⟨_, rfl, by decide⟩
    have hr := TransitionSystem.reachable_of_run
      (fun (s : System (Fin 2) Empty BdbStorage) (e : Event (Fin 2) Empty) =>
        ((e.noRestart ∧ e.noWrap s) ∧ e.nonEmpty) ∧ s.MovesOn) (by decide) hrun
    have hv : s.ChosenAt (.numbered Empty 2 1) 2 10 [7] :=
      ⟨{0}, ⟨by decide, by decide⟩, by simp [h]⟩
    exact ⟨s, hrun, hv, fun i b hi => (chosen_in_one_instance _).2 s
      (hr.mono fun s e h => ⟨h.1, h.2.takesLost e⟩) i 2 b 10 [7] hi hv⟩

-- Proposer `p` is preempted after its value was accepted. The promise for its next
-- ballot reports that value with a newer value ballot, so the value is sent again
-- for instance 1 and also queued for instance 2.
def reproposal {ι : Type} (p q : ι) : List (Event ι Empty) :=
  [.call p (.propose [7]), .call p (.prepare (fun _ => 0) ⟨0, 0⟩),
    .handle 0 (.prepareReq p ⟨1, 10⟩), .call p (.receivePrepareAck ⟨0, 1, 10, 0, []⟩ ⟨0, 0⟩),
    .call p .accept, .handle 0 (.acceptReq p ⟨1, 10, [7]⟩),
    .call q (.prepare (fun _ => 0) ⟨0, 0⟩), .handle 0 (.prepareReq q ⟨1, 11⟩),
    .handle 0 (.acceptReq p ⟨1, 10, [7]⟩),
    .call p (.receiveAcceptAck ⟨0, 1, 11, 10, false, [7]⟩ ⟨0, 0⟩),
    .handle 0 (.prepareReq p ⟨1, 20⟩), .call p (.receivePrepareAck ⟨0, 1, 20, 10, [7]⟩ ⟨0, 0⟩),
    .call p .accept, .handle 0 (.acceptReq p ⟨1, 20, [7]⟩),
    .call p (.prepare (fun _ => 0) ⟨0, 0⟩), .handle 0 (.prepareReq p ⟨2, 10⟩),
    .call p (.receivePrepareAck ⟨0, 2, 10, 0, []⟩ ⟨0, 0⟩), .call p .accept,
    .handle 0 (.acceptReq p ⟨2, 10, [7]⟩)]

theorem chosen_in_two_instances : ∃ s : System (Fin 2) Empty BdbStorage,
    (paxos BdbStorage (.numbered Empty 2 1)).Reachable
        (fun s e => ((e.noRestart ∧ e.noWrap s) ∧ e.nonEmpty) ∧ e.fresh s) s ∧
      s.ChosenAt (.numbered Empty 2 1) 1 20 [7] ∧ s.ChosenAt (.numbered Empty 2 1) 2 10 [7] := by
  obtain ⟨s, hrun, h1, h2⟩ : ∃ s : System (Fin 2) Empty BdbStorage,
      (paxos BdbStorage (.numbered Empty 2 1)).run (System.start (.numbered Empty 2 1))
        (reproposal 0 1) = some s ∧ s.Accepted 0 1 20 [7] ∧ s.Accepted 0 2 10 [7] :=
    ⟨_, rfl, by decide, by decide⟩
  have hr := TransitionSystem.reachable_of_run
    (fun s e => ((e.noRestart ∧ e.noWrap s) ∧ e.nonEmpty) ∧
      Event.fresh (σ := BdbStorage) s e) (by decide) hrun
  exact ⟨s, hr, ⟨{0}, ⟨by decide, by decide⟩, by simp [h1]⟩,
    ⟨{0}, ⟨by decide, by decide⟩, by simp [h2]⟩⟩

end LibPaxos
