import LibPaxos.Wraparound

namespace LibPaxos

open MapStorage

-- The value was submitted at the position of the instance, and taken for it.
def TakenFor (submitted : List Value) (taken iid : Nat) (value : Value) : Prop :=
  1 ≤ iid ∧ iid ≤ taken ∧ submitted[iid - 1]? = some value

theorem TakenFor.mono {submitted : List Value} {taken taken' iid : Nat} {value : Value}
    (h : TakenFor submitted taken iid value) (more : List Value) (hle : taken ≤ taken') :
    TakenFor (submitted ++ more) taken' iid value := by
  obtain ⟨hpos, hlt, hget⟩ := h
  refine ⟨hpos, Nat.le_trans hlt hle, ?_⟩
  have hbound := (List.getElem?_eq_some_iff.mp hget).1
  rw [List.getElem?_append_left hbound]
  exact hget

-- A proposer that was never preempted. The first `taken` submitted values went to
-- the instances with these numbers, the others wait in their order, and so do the
-- instances that are being prepared.
structure InOrder (id taken : Nat) (pr : ProposerProc) : Prop where
  ident : pr.state.id = id
  iids : pr.state.prepareInstances.map Instance.iid =
    List.range' (taken + 1) (pr.state.nextPrepareIid - taken)
  prepared : taken ≤ pr.state.nextPrepareIid
  known : taken ≤ pr.submitted.length
  queue : pr.state.values = pr.submitted.drop taken
  preparing : ∀ inst ∈ pr.state.prepareInstances,
    inst.ballot = MAX_N_OF_PROPOSERS + id ∧ inst.value = none
  accepting : ∀ inst ∈ pr.state.acceptInstances, inst.ballot = MAX_N_OF_PROPOSERS + id ∧
    ∀ value, inst.value = some value → TakenFor pr.submitted taken inst.iid value
  emitted : ∀ r ∈ pr.emitted, r.ballot = MAX_N_OF_PROPOSERS + id ∧
    TakenFor pr.submitted taken r.iid r.value

theorem InOrder.start (id n : Nat) : InOrder id 0 (ProposerProc.start id n) := by
  constructor <;> simp [ProposerProc.start, proposerNew]

-- The ballot that a proposer starts every instance with.
theorem proposerNextBallot_zero {p : Proposer} (h : p.id < MAX_N_OF_PROPOSERS) :
    proposerNextBallot p 0 = MAX_N_OF_PROPOSERS + p.id := by
  unfold proposerNextBallot MAX_N_OF_PROPOSERS at *
  rw [if_neg (by omega), uint32_of_lt (by omega)]

-- What the acks of a run with one proposer look like: they have its only ballot,
-- and a promise for an instance that is still being prepared has no value.
structure ProposerCall.Mild (id taken : Nat) (pr : ProposerProc) (c : ProposerCall) : Prop where
  prepareAck : ∀ ack now, c = .receivePrepareAck ack now →
    ack.ballot = MAX_N_OF_PROPOSERS + id ∧ (ack.value ≠ [] → ack.iid ≤ taken)
  acceptAck : ∀ ack now, c = .receiveAcceptAck ack now → ack.ballot = MAX_N_OF_PROPOSERS + id
  prepare : ∀ junk now, c = .prepare junk now → pr.state.nextPrepareIid + 1 < 2 ^ 32

-- A call that takes no value and prepares no instance.
theorem InOrder.keep {id taken : Nat} {pr : ProposerProc} (h : InOrder id taken pr)
    {c : ProposerCall} {p' : Proposer} {out : ProposerOutput} (hsub : c.submits = [])
    (hid : p'.id = pr.state.id)
    (hnext : p'.nextPrepareIid = pr.state.nextPrepareIid) (hvalues : p'.values = pr.state.values)
    (hiids : p'.prepareInstances.map Instance.iid = pr.state.prepareInstances.map Instance.iid)
    (hprep : ∀ inst ∈ p'.prepareInstances,
      inst.ballot = MAX_N_OF_PROPOSERS + id ∧ inst.value = none)
    (hacc : ∀ inst ∈ p'.acceptInstances, ∃ item ∈ pr.state.acceptInstances,
      inst.iid = item.iid ∧ inst.ballot = item.ballot ∧ inst.value = item.value)
    (hemit : ∀ r ∈ out.emits, ∃ item ∈ pr.state.acceptInstances,
      r.iid = item.iid ∧ r.ballot = item.ballot ∧ item.value = some r.value) :
    InOrder id taken (pr.after c p' out) := by
  have hsame : (pr.after c p' out).submitted = pr.submitted := by simp [ProposerProc.after, hsub]
  have htakes {iid : Nat} {value : Value} (ht : TakenFor pr.submitted taken iid value) :
      TakenFor (pr.after c p' out).submitted taken iid value := ht.mono c.submits (Nat.le_refl _)
  refine ⟨hid.trans h.ident, ?_, hnext ▸ h.prepared,
    hsame ▸ h.known, ?_, hprep, fun inst hi => ?_, fun r hr => ?_⟩
  · show p'.prepareInstances.map Instance.iid =
      List.range' (taken + 1) (p'.nextPrepareIid - taken)
    rw [hiids, hnext]
    exact h.iids
  · rw [hsame]
    exact hvalues.trans h.queue
  · obtain ⟨item, hitem, hiid, hballot, hvalue⟩ := hacc inst hi
    obtain ⟨hb, hv⟩ := h.accepting item hitem
    refine ⟨hballot.trans hb, fun value he => htakes ?_⟩
    rw [hiid]
    exact hv value (hvalue ▸ he)
  · rcases List.mem_append.mp hr with hr | hr
    · exact ⟨(h.emitted r hr).1, htakes (h.emitted r hr).2⟩
    · obtain ⟨item, hitem, hiid, hballot, hvalue⟩ := hemit r hr
      obtain ⟨hb, hv⟩ := h.accepting item hitem
      refine ⟨hballot.trans hb, htakes ?_⟩
      rw [hiid]
      exact hv r.value hvalue

-- An instance that is being prepared has not taken a value.
theorem InOrder.waiting {id taken : Nat} {pr : ProposerProc} (h : InOrder id taken pr)
    {inst : Instance} (hi : inst ∈ pr.state.prepareInstances) : taken < inst.iid := by
  have hmem : inst.iid ∈ pr.state.prepareInstances.map Instance.iid :=
    List.mem_map.mpr ⟨inst, hi, rfl⟩
  rw [h.iids, List.mem_range'_1] at hmem
  exact hmem.1

-- The first waiting value is the next one that was submitted.
theorem InOrder.next_value {id taken : Nat} {pr : ProposerProc} (h : InOrder id taken pr)
    {value : Value} {values : List Value} (hvalues : pr.state.values = value :: values) :
    pr.submitted[taken]? = some value ∧ taken < pr.submitted.length ∧
      values = pr.submitted.drop (taken + 1) := by
  have hdrop := h.queue
  rw [hvalues] at hdrop
  have hget : pr.submitted[taken]? = some value := by
    have hzero : (pr.submitted.drop taken)[0]? = pr.submitted[taken + 0]? := List.getElem?_drop
    rw [← hdrop] at hzero
    exact hzero.symm
  refine ⟨hget, (List.getElem?_eq_some_iff.mp hget).1, ?_⟩
  rw [← List.tail_drop, ← hdrop, List.tail_cons]

-- What was taken before stays taken.
theorem InOrder.later {id taken k : Nat} {pr : ProposerProc} (h : InOrder id taken pr)
    (more : List Value) (hk : taken ≤ k) :
    (∀ inst ∈ pr.state.acceptInstances, inst.ballot = MAX_N_OF_PROPOSERS + id ∧
      ∀ value, inst.value = some value → TakenFor (pr.submitted ++ more) k inst.iid value) ∧
    ∀ r ∈ pr.emitted, r.ballot = MAX_N_OF_PROPOSERS + id ∧
      TakenFor (pr.submitted ++ more) k r.iid r.value := by
  constructor
  · intro inst hi
    obtain ⟨hballot, hvalue⟩ := h.accepting inst hi
    exact ⟨hballot, fun v hv => (hvalue v hv).mono more hk⟩
  · intro r hr
    obtain ⟨hballot, hvalue⟩ := h.emitted r hr
    exact ⟨hballot, hvalue.mono more hk⟩

-- A value is added at the back of the queue.
theorem InOrder.propose {id taken : Nat} {pr : ProposerProc} (h : InOrder id taken pr)
    (value : Value) :
    InOrder id taken (pr.after (.propose value) (proposerPropose pr.state value) .none) := by
  obtain ⟨hacc, hem⟩ := h.later [value] (Nat.le_refl taken)
  refine ⟨h.ident, h.iids, h.prepared, ?_, ?_, h.preparing, hacc, fun r hr => hem r ?_⟩
  · show taken ≤ (pr.submitted ++ [value]).length
    have hknown := h.known
    simp only [List.length_append]
    omega
  · show pr.state.values ++ [value] = (pr.submitted ++ [value]).drop taken
    rw [List.drop_append_of_le_length h.known, h.queue]
  · simpa [ProposerProc.after, ProposerOutput.emits] using hr

-- An instance is added behind those that wait.
theorem InOrder.prepare {id taken : Nat} {pr : ProposerProc} (h : InOrder id taken pr)
    (hid : id < MAX_N_OF_PROPOSERS) (hlt : pr.state.nextPrepareIid + 1 < 2 ^ 32)
    (junk : Nat → Int) (now : Timeval) :
    InOrder id taken (pr.after (.prepare junk now) (proposerPrepare pr.state junk now).1
      (.prepareReq (proposerPrepare pr.state junk now).2)) := by
  obtain ⟨hacc, hem⟩ := h.later [] (Nat.le_refl taken)
  have hfits := uint32_of_lt hlt
  have hprepared := h.prepared
  refine ⟨h.ident, ?_, ?_, ?_, ?_, fun inst hi => ?_, hacc, fun r hr => hem r ?_⟩
  · show (pr.state.prepareInstances ++ [_]).map Instance.iid =
      List.range' (taken + 1) (uint32 (pr.state.nextPrepareIid + 1) - taken)
    have hlast : taken + 1 + (pr.state.nextPrepareIid - taken) = pr.state.nextPrepareIid + 1 := by
      omega
    rw [hfits, Nat.succ_sub hprepared, List.range'_1_concat, List.map_append, h.iids, hlast]
    rfl
  · show taken ≤ uint32 (pr.state.nextPrepareIid + 1)
    omega
  · show taken ≤ (pr.submitted ++ []).length
    rw [List.append_nil]
    exact h.known
  · show pr.state.values = (pr.submitted ++ []).drop taken
    rw [List.append_nil]
    exact h.queue
  · rcases List.mem_append.mp hi with hi | hi
    · exact h.preparing inst hi
    · rw [List.mem_singleton.mp hi]
      refine ⟨?_, rfl⟩
      show proposerNextBallot pr.state 0 = MAX_N_OF_PROPOSERS + id
      rw [proposerNextBallot_zero (h.ident ▸ hid), h.ident]
  · simpa [ProposerProc.after, ProposerOutput.emits] using hr

-- The first waiting value goes to the first waiting instance.
theorem InOrder.accept {id taken : Nat} {pr : ProposerProc} (h : InOrder id taken pr)
    {inst : Instance} {rest : List Instance} {value : Value} {values : List Value}
    (hfront : pr.state.prepareInstances = inst :: rest)
    (hvalues : pr.state.values = value :: values) :
    InOrder id (taken + 1) (pr.after .accept
      { pr.state with
        values := values
        prepareInstances := rest
        acceptInstances := pr.state.acceptInstances ++
          [{ inst with value := some value, quorum := quorumClear inst.quorum }] }
      (.acceptReq ⟨inst.iid, inst.ballot, value⟩)) := by
  obtain ⟨hacc, hem⟩ := h.later [] (Nat.le_succ taken)
  obtain ⟨hget, hlt, hrest⟩ := h.next_value hvalues
  have hballot := (h.preparing inst (by rw [hfront]; exact List.mem_cons_self)).1
  have hiids := h.iids
  rw [hfront, List.map_cons, eq_comm, List.range'_eq_cons_iff] at hiids
  obtain ⟨hiid, hpos, htail⟩ := hiids
  have htaken : TakenFor (pr.submitted ++ []) (taken + 1) inst.iid value := by
    rw [List.append_nil, ← hiid]
    exact ⟨by omega, Nat.le_refl _, hget⟩
  refine ⟨h.ident, ?_, ?_, ?_, ?_, fun item hi => ?_, ?_, ?_⟩
  · show rest.map Instance.iid = List.range' (taken + 1 + 1) (pr.state.nextPrepareIid - (taken + 1))
    rw [htail, ← hiid, Nat.sub_sub]
  · show taken + 1 ≤ pr.state.nextPrepareIid
    omega
  · show taken + 1 ≤ (pr.submitted ++ []).length
    rw [List.append_nil]
    exact hlt
  · show values = (pr.submitted ++ []).drop (taken + 1)
    rw [List.append_nil]
    exact hrest
  · exact h.preparing item (by rw [hfront]; exact List.mem_cons_of_mem _ hi)
  · intro item hi
    rcases List.mem_append.mp hi with hi | hi
    · exact hacc item hi
    · rw [List.mem_singleton.mp hi]
      exact ⟨hballot, fun v hv => Option.some.inj hv ▸ htaken⟩
  · intro r hr
    rcases List.mem_append.mp hr with hr | hr
    · exact hem r hr
    · rw [List.mem_singleton.mp hr]
      exact ⟨hballot, htaken⟩

theorem InOrder.move {id taken : Nat} {pr : ProposerProc} (h : InOrder id taken pr)
    (hid : id < MAX_N_OF_PROPOSERS) {c : ProposerCall} {p' : Proposer} {out : ProposerOutput}
    (hm : Move pr.state c p' out) (hc : c.Mild id taken pr) :
    ∃ taken', InOrder id taken' (pr.after c p' out) := by
  have hsame (inst : Instance) (hi : inst ∈ pr.state.acceptInstances) :
      ∃ item ∈ pr.state.acceptInstances,
        inst.iid = item.iid ∧ inst.ballot = item.ballot ∧ inst.value = item.value :=
    ⟨inst, hi, rfl, rfl, rfl⟩
  cases hm with
  | propose value => exact ⟨taken, h.propose value⟩
  | prepare junk now => exact ⟨taken, h.prepare hid (hc.prepare junk now rfl) junk now⟩
  | accept inst rest value values hfront hreached hvalue =>
      have hblank := (h.preparing inst (by rw [hfront]; exact List.mem_cons_self)).2
      rcases hvalue with ⟨hsome, _⟩ | ⟨_, hvalues⟩
      · rw [hblank] at hsome
        cases hsome
      · exact ⟨taken + 1, h.accept hfront hvalues⟩
  | idle hsub hc' =>
      exact ⟨taken, h.keep hsub rfl rfl rfl rfl h.preparing hsame (List.forall_mem_nil _)⟩
  | promise ack now pre post inst quorum hsplit hfind hiid hballot hadd =>
      have hwaiting := h.waiting (instanceFind_mem hfind)
      have hempty : ack.value = [] := by
        by_contra hne
        have hle := (hc.prepareAck ack now rfl).2 hne
        omega
      have hleft : promiseValue pr.state.values { inst with quorum := quorum } ack =
          (pr.state.values, { inst with quorum := quorum }) := by
        simp [promiseValue, hempty]
      rw [hleft]
      refine ⟨taken, h.keep rfl rfl rfl rfl ?_ ?_ hsame (List.forall_mem_nil _)⟩
      · simp [hsplit]
      · exact forall_mem_split hsplit h.preparing fun hi => hi
  | preempt ack now pre post inst hsplit hfind hlt =>
      have hb := (h.preparing inst (instanceFind_mem hfind)).1
      have hack := (hc.prepareAck ack now rfl).1
      omega
  | ackCounted ack now pre post inst quorum hsplit hiid hballot hvb hadd hopen =>
      refine ⟨taken, h.keep rfl rfl rfl rfl rfl h.preparing ?_ (List.forall_mem_nil _)⟩
      exact forall_mem_split hsplit hsame fun _ => ⟨inst, by simp [hsplit], rfl, rfl, rfl⟩
  | ackClosed ack now pre post inst quorum hsplit hiid hballot hvb hadd hreached =>
      refine ⟨taken, h.keep rfl rfl rfl rfl rfl h.preparing (fun item hi => ?_)
        (List.forall_mem_nil _)⟩
      exact hsame item (mem_instanceRemove.mp hi).1
  | ackPreempted ack now pre post inst hsplit hfind hne =>
      have hb := (h.accepting inst (instanceFind_mem hfind)).1
      exact absurd ((hc.acceptAck ack now rfl).trans hb.symm) hne
  | timeoutPrepare iter pre post inst hsplit =>
      refine ⟨taken, h.keep rfl rfl rfl rfl ?_ ?_ hsame (List.forall_mem_nil _)⟩
      · simp [hsplit]
      · exact forall_mem_split hsplit h.preparing fun hi => hi
  | timeoutAccept iter pre post inst value hsplit hvalue =>
      have hinst : inst ∈ pr.state.acceptInstances := by simp [hsplit]
      refine ⟨taken, h.keep rfl rfl rfl rfl rfl h.preparing ?_ fun r hr => ?_⟩
      · exact forall_mem_split hsplit hsame fun _ => ⟨inst, hinst, rfl, rfl, rfl⟩
      · rw [List.mem_singleton.mp hr]
        exact ⟨inst, hinst, rfl, rfl, hvalue⟩

variable {κ σ : Type} [MapStorage σ]

def Packet.AtBallot (b : Nat) : Packet (Fin 1) κ → Prop
  | .prepareReq _ req => req.ballot = b
  | .prepareAck _ ack => ack.ballot = b
  | .acceptReq _ req => req.ballot = b
  | .acceptAck _ ack => ack.ballot = b
  | .repeatReq _ _ => True

-- The invariant of runs with one proposer: one ballot everywhere, and the values
-- in their order.
structure Calm (cl : Cluster (Fin 1) κ) (s : System (Fin 1) κ σ) : Prop where
  order : ∃ taken, InOrder (cl.id 0) taken (s.proposers 0)
  packet : ∀ packet ∈ s.net, packet.AtBallot (MAX_N_OF_PROPOSERS + cl.id 0)
  record : ∀ a i rec, records (s.acceptors a).store i = some rec →
    rec.ballot = MAX_N_OF_PROPOSERS + cl.id 0

theorem Calm.start (cl : Cluster (Fin 1) κ) : Calm cl (System.start cl : System (Fin 1) κ σ) := by
  refine ⟨⟨0, .start _ _⟩, fun packet hm => ?_, fun a i rec h => ?_⟩
  · cases hm
  · have hrec := (MapStorage.open_eq (σ := σ) a).2.2
    change records (storageOpen a : σ) i = some rec at h
    rw [hrec] at h
    cases h

theorem Calm.ackFor {cl : Cluster (Fin 1) κ} {s : System (Fin 1) κ σ} (h : Calm cl s)
    {ack : AcceptAck} (hm : s.AckFor 0 ack) : ack.ballot = MAX_N_OF_PROPOSERS + cl.id 0 := by
  rcases hm with hm | hm
  · exact h.packet _ hm
  · exact h.packet _ hm

-- A value that an acceptor has accepted was taken for its instance.
theorem Calm.taken {cl : Cluster (Fin 1) κ} {s : System (Fin 1) κ σ} (hh : Honest cl s)
    (hpast : (s.proposers 0).past = []) {taken : Nat}
    (ho : InOrder (cl.id 0) taken (s.proposers 0)) {a i b : Nat} {v : Value}
    (ha : s.Accepted a i b v) : TakenFor (s.proposers 0).submitted taken i v := by
  obtain ⟨_, src, hm⟩ := hh.saved a _ ha
  obtain rfl : src = 0 := Subsingleton.elim src 0
  obtain ⟨life, hlife, hr⟩ := (hh.request 0 _).mp hm
  rw [ProposerProc.lives, hpast, List.mem_singleton] at hlife
  exact (ho.emitted _ (hlife ▸ hr)).2

-- An acceptor answers with the ballot of its record.
theorem Calm.handle {cl : Cluster (Fin 1) κ} {s : System (Fin 1) κ σ} (h : Calm cl s)
    (hh : Honest cl s) {a : Nat} {packet : Packet (Fin 1) κ} {acceptor : Logged σ}
    {replies : List (Packet (Fin 1) κ)} (hm : packet ∈ s.net)
    (hr : handleReq (s.acceptors a) packet = some (acceptor, replies)) :
    (∀ i rec, records acceptor.store i = some rec → rec.ballot = MAX_N_OF_PROPOSERS + cl.id 0) ∧
      ∀ reply ∈ replies, reply.AtBallot (MAX_N_OF_PROPOSERS + cl.id 0) := by
  have hold := h.record a
  have hballot := h.packet packet hm
  -- The new record of an instance.
  have hnew {i : Nat} {rec : AcceptorRecord} (hrec : rec.ballot = MAX_N_OF_PROPOSERS + cl.id 0)
      (hstore : records acceptor.store =
        Function.update (records (s.acceptors a).store) i (some rec))
      (j : Nat) (rec' : AcceptorRecord) (hj : records acceptor.store j = some rec') :
      rec'.ballot = MAX_N_OF_PROPOSERS + cl.id 0 := by
    rw [hstore] at hj
    by_cases hji : j = i
    · subst hji
      rw [Function.update_self] at hj
      exact Option.some.inj hj ▸ hrec
    · rw [Function.update_of_ne hji] at hj
      exact hold j rec' hj
  cases ((hh.voter a).handled hr).2.2 with
  | prepare src req _ rec hseen hid hiid hsaved hstore hcase =>
      have hrec : rec.ballot = MAX_N_OF_PROPOSERS + cl.id 0 := by
        rcases hcase with he | ⟨he, _⟩
        · exact he.trans hballot
        · exact hold _ rec he
      exact ⟨hnew hrec hstore, List.forall_mem_singleton.mpr hrec⟩
  | accepted src req _ hseen hsaved hstore =>
      have hrec : (acceptRecord a req).ballot = MAX_N_OF_PROPOSERS + cl.id 0 := hballot
      exact ⟨hnew hrec hstore, List.forall_mem_singleton.mpr hrec⟩
  | refused src req _ rec hseen hid hiid hsaved hstore hrec hlt =>
      exact ⟨hstore ▸ hold, List.forall_mem_singleton.mpr (hold _ rec hrec)⟩
  | unknown src iid _ hsaved hstore hrec => exact ⟨hstore ▸ hold, nofun⟩
  | repeated src iid _ rec hseen hid hiid hsaved hstore hrec =>
      exact ⟨hstore ▸ hold, List.forall_mem_singleton.mpr (hold _ rec hrec)⟩

variable [DecidableEq κ]

theorem Calm.mild {cl : Cluster (Fin 1) κ} {s : System (Fin 1) κ σ} (h : Calm cl s)
    (hh : Honest cl s) (hpast : (s.proposers 0).past = []) {taken : Nat}
    (ho : InOrder (cl.id 0) taken (s.proposers 0)) {c : ProposerCall}
    (hoffer : c.offered s.net 0 = true) (hw : Event.noIidWrap s (.call 0 c)) :
    c.Mild (cl.id 0) taken (s.proposers 0) := by
  refine ⟨?_, ?_, ?_⟩
  · rintro ack now rfl
    have hm := prepareAck_of_offered hoffer
    refine ⟨h.packet _ hm, fun hne => ?_⟩
    obtain ⟨rec, rfl, _, hseen⟩ := hh.prepareAck 0 ack hm
    rcases hseen.truth.vote with ⟨_, hempty⟩ | hsaved
    · exact absurd hempty hne
    · exact (Calm.taken hh hpast ho hsaved).2.1
  · rintro ack now rfl
    exact h.ackFor (ackFor_of_offered hoffer)
  · rintro junk now rfl
    exact hw

theorem Calm.call {cl : Cluster (Fin 1) κ} {s : System (Fin 1) κ σ} (h : Calm cl s)
    (hh : Honest cl s) (hpast : (s.proposers 0).past = []) (hopen : (s.proposers 0).state.Opened)
    {c : ProposerCall} {pr : ProposerProc} {out : ProposerOutput}
    (hoffer : c.offered s.net 0 = true) (hw : Event.noIidWrap s (.call 0 c))
    (hcall : (s.proposers 0).call (cl.proposerConfig 0) c = (pr, out)) :
    (∃ taken, InOrder (cl.id 0) taken pr) ∧
      ∀ packet ∈ (out.packets 0 : List (Packet (Fin 1) κ)),
        packet.AtBallot (MAX_N_OF_PROPOSERS + cl.id 0) := by
  obtain ⟨taken, ho⟩ := h.order
  rcases ProposerProc.call_cases hopen.preparing hcall with ⟨_, _, rfl, rfl⟩ | ⟨p', hm, rfl⟩
  · refine ⟨⟨taken, ho.1, ho.2, ho.3, ho.4, ho.5, ho.6, ho.7, ho.8⟩, fun packet hp => ?_⟩
    cases hp
  · obtain ⟨taken', ho'⟩ := ho.move (cl.id_lt 0) hm (h.mild hh hpast ho hoffer hw)
    refine ⟨⟨taken', ho'⟩, fun packet hp => ?_⟩
    rcases mem_packets hp with ⟨req, rfl, rfl⟩ | ⟨req, rfl, rfl⟩
    · obtain ⟨inst, hinst, _, hballot⟩ := hm.prepareReq
      exact hballot.symm.trans (ho'.preparing inst hinst).1
    · exact (ho'.emitted req (List.mem_append_right _ (List.mem_singleton.mpr rfl))).1

theorem Calm.step {cl : Cluster (Fin 1) κ} {s s' : System (Fin 1) κ σ} {e : Event (Fin 1) κ}
    (h : Calm cl s) (hh : Honest cl s) (hpast : (s.proposers 0).past = [])
    (hopen : (s.proposers 0).state.Opened) (hs : Steps cl s e s') (hrestart : e.noRestart)
    (hw : e.noIidWrap s) : Calm cl s' := by
  cases hs with
  | call p c pr out hlive hoffer hcall =>
      obtain rfl : p = 0 := Subsingleton.elim p 0
      obtain ⟨horder, hpackets⟩ := h.call hh hpast hopen hoffer hw hcall
      refine ⟨?_, List.forall_mem_append.mpr ⟨h.packet, hpackets⟩, h.record⟩
      dsimp only
      rw [Function.update_self]
      exact horder
  | restart p => exact hrestart.elim
  | handle a packet acceptor replies ha hm hr =>
      obtain ⟨hrecord, hreplies⟩ := h.handle hh hm hr
      refine ⟨h.order, List.forall_mem_append.mpr ⟨h.packet, hreplies⟩, fun b i rec hb => ?_⟩
      dsimp only at hb
      by_cases hab : b = a
      · subst hab
        rw [Function.update_self] at hb
        exact hrecord i rec hb
      · rw [Function.update_of_ne hab] at hb
        exact h.record b i rec hb
  | learn l c state hstate hoffer => exact ⟨h.order, h.packet, h.record⟩
  | checkHoles l state hstate =>
      refine ⟨h.order, List.forall_mem_append.mpr ⟨h.packet, fun packet hm => ?_⟩, h.record⟩
      obtain ⟨iid, _, rfl⟩ := List.mem_map.mp hm
      trivial

-- With one proposer no ack preempts it, and instance `i` accepts nothing but the
-- `i`-th submitted value.
theorem single_proposer_order (cl : Cluster (Fin 1) κ) (s : System (Fin 1) κ σ)
    (hr : (paxos σ cl).Reachable (fun s e => e.noRestart ∧ e.noIidWrap s) s) :
    (∀ ack now p' req, .prepareAck 0 ack ∈ s.net →
      proposerReceivePrepareAck (s.proposers 0).state ack now ≠ .ok (p', some req)) ∧
    (∀ ack now p' req, s.AckFor 0 ack →
      proposerReceiveAcceptAck (s.proposers 0).state ack now ≠ .ok (p', .preempted req)) ∧
    ∀ a i b v, s.Accepted a i b v → 1 ≤ i ∧ (s.proposers 0).submitted[i - 1]? = some v := by
  have hh := Honest.of_reachable hr
  have hpast := past_of_reachable hr fun _ _ h => h.1
  have hcalm : Calm cl s := by
    refine hr.invariant (Calm cl) (.start cl) fun s e s' hr h hw hs => ?_
    have hpast := past_of_reachable hr fun _ _ h => h.1
    exact h.step (.of_reachable hr) (hpast 0) (opened_of_reachable hr 0) (step_steps hs) hw.1 hw.2
  obtain ⟨taken, ho⟩ := hcalm.order
  refine ⟨fun ack now p' req hm he => ?_, fun ack now p' req hm he => ?_, fun a i b v ha => ?_⟩
  · have hballot : ack.ballot = _ := hcalm.packet _ hm
    cases proposerReceivePrepareAck_move he with
    | preempt _ _ pre post inst hsplit hfind hlt =>
        have hb := (ho.preparing inst (instanceFind_mem hfind)).1
        omega
  · have hballot := hcalm.ackFor hm
    cases proposerReceiveAcceptAck_move he with
    | ackPreempted _ _ pre post inst hsplit hfind hne =>
        have hb := (ho.accepting inst (instanceFind_mem hfind)).1
        exact hne (hballot.trans hb.symm)
  · have htaken := Calm.taken hh (hpast 0) ho ha
    exact ⟨htaken.1, htaken.2.2⟩

-- The acks for instance 2 come first, and so does its accept request.
def twoInOrder {ι : Type} (p : ι) : List (Event ι Empty) :=
  [.call p (.propose [7]), .call p (.prepare (fun _ => 0) ⟨0, 0⟩),
    .call p (.prepare (fun _ => 0) ⟨0, 0⟩), .handle 0 (.prepareReq p ⟨2, 10⟩),
    .call p (.receivePrepareAck ⟨0, 2, 10, 0, []⟩ ⟨0, 0⟩), .call p .accept,
    .handle 0 (.prepareReq p ⟨1, 10⟩), .call p (.receivePrepareAck ⟨0, 1, 10, 0, []⟩ ⟨0, 0⟩),
    .call p .accept, .call p (.propose [8]), .call p .accept,
    .handle 0 (.acceptReq p ⟨2, 10, [8]⟩), .handle 0 (.acceptReq p ⟨1, 10, [7]⟩)]

theorem single_proposer_order_two : ∃ s : System (Fin 1) Empty BdbStorage,
    (paxos BdbStorage (.solo Empty)).run (System.start (.solo Empty)) (twoInOrder 0) = some s ∧
      s.Accepted 0 2 10 [8] ∧ (s.proposers 0).submitted = [[7], [8]] ∧
      ∀ a i b v, s.Accepted a i b v → 1 ≤ i ∧ (s.proposers 0).submitted[i - 1]? = some v := by
  obtain ⟨s, hrun, ha, hsub⟩ : ∃ s : System (Fin 1) Empty BdbStorage,
      (paxos BdbStorage (.solo Empty)).run (System.start (.solo Empty)) (twoInOrder 0) = some s ∧
        s.Accepted 0 2 10 [8] ∧ (s.proposers 0).submitted = [[7], [8]] :=
    ⟨_, rfl, by decide, by decide⟩
  have hr := TransitionSystem.reachable_of_run
    (fun s e => e.noRestart ∧ Event.noIidWrap (σ := BdbStorage) s e) (by decide) hrun
  exact ⟨s, hrun, ha, hsub, (single_proposer_order (.solo Empty) s hr).2.2⟩

-- After 2 ^ 32 instances the proposer sends another value for instance 1. The
-- acceptor has promised instance 1 at the same ballot and accepts it.
theorem single_proposer_order_wraps : ∃ s : System (Fin 1) Empty BdbStorage,
    (paxos BdbStorage (.solo Empty)).Reachable (fun _ e => e.noRestart) s ∧
      s.Accepted 0 1 10 [8] ∧ (s.proposers 0).submitted[0]? = some [7] := by
  obtain ⟨s, _, hr, hlap, _, hm⟩ := exists_iid_reused (σ := BdbStorage) fun j =>
    if j = 0 then [7] else [8]
  obtain ⟨s', hr', hp, hsaved, _⟩ := exists_accepted (a := 0) hr trivial (by decide)
    (hlap.low 1) hm
  obtain ⟨finished, hproc⟩ := hlap.proc
  refine ⟨s', hr', ?_, ?_⟩
  · rw [System.Accepted, hsaved]
    exact List.mem_append_right _ (List.mem_singleton.mpr rfl)
  · rw [hp, hproc]
    simp [soloProc]

end LibPaxos
