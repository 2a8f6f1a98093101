import LibPaxos.Deployment.Connections
import LibPaxos.Wire.Malformed

namespace LibPaxos

open Wire

variable {ι κ σ : Type}

-- Nothing is sent for the first instance of phase 1 before a promise or a value comes.
def Proposer.Waits (p : Proposer) : Prop :=
  ∀ inst rest, p.prepareInstances = inst :: rest → inst.closed = false ∧
    (quorumReached inst.quorum = false ∨ inst.value = none ∧ p.values = [])

-- A proposer when a callback returns: its window is full, and it waits.
structure Proposer.Settled (window : Nat) (p : Proposer) : Prop where
  window : window ≤ proposerPreparedCount p
  waits : p.Waits

section

variable {p p' : Proposer}

theorem proposerAccept_waits (h : proposerAccept p = (p', none)) : p'.Waits := by
  intro inst rest hfront
  simp only [proposerAccept] at h
  split at h
  · rename_i hnil
    cases h
    cases hnil.symm.trans hfront
  · rename_i front others hcons
    have hopen : front.closed = false := by
      have hhead := List.head?_dropWhile_not (fun inst : Instance => inst.closed)
        p.prepareInstances
      rw [hcons] at hhead
      exact hhead
    split at h
    · rename_i hquorum
      cases h
      cases hcons.symm.trans hfront
      exact ⟨hopen, .inl hquorum⟩
    · split at h
      · rename_i hvalue
        cases h
        cases hcons.symm.trans hfront
        refine ⟨hopen, .inr ?_⟩
        cases hv : inst.value with
        | some value =>
            rw [hv] at hvalue
            cases hvalue
        | none =>
            rw [hv] at hvalue
            exact ⟨rfl, List.head?_eq_none_iff.mp hvalue⟩
      · cases h

-- The loop of `try_accept` ends with a call that returns NULL.
theorem tryAcceptAll_waits (p : Proposer) : (tryAcceptAll p).1.Waits := by
  fun_induction tryAcceptAll p with
  | case1 p p' hnone => exact proposerAccept_waits hnone
  | case2 p p' ar hsome q sent hq ih =>
      rw [hq] at ih
      exact ih

theorem quorumReached_init (n : Nat) (junk : Nat → Int) :
    quorumReached (quorumInit n junk) = false := by
  have hsized : Quorum.Sized n ⟨0, paxosQuorum n, n, (List.range n).map junk⟩ := ⟨rfl, by simp⟩
  exact quorumClear_reached hsized

-- A new instance comes behind the others and has no promises yet.
theorem Proposer.Waits.prepare (h : p.Waits) (junk : Nat → Int) (now : Timeval) :
    (proposerPrepare p junk now).1.Waits := by
  intro inst rest hfront
  simp only [proposerPrepare] at hfront ⊢
  cases hlist : p.prepareInstances with
  | nil =>
      rw [hlist] at hfront
      cases hfront
      exact ⟨rfl, .inl (quorumReached_init _ _)⟩
  | cons first others =>
      rw [hlist] at hfront
      cases hfront
      exact h _ others hlist

theorem preexecute_waits (env : ProposerEnv) (rounds : List Nat) (h : p.Waits)
    (sent : List PrepareReq) :
    (rounds.foldl (preexecuteOne env) (p, sent)).1.Waits ∧
      proposerPreparedCount (rounds.foldl (preexecuteOne env) (p, sent)).1 =
        proposerPreparedCount p + rounds.length := by
  induction rounds generalizing p sent with
  | nil => exact ⟨h, rfl⟩
  | cons i rounds ih =>
      obtain ⟨hwaits, hcount⟩ := ih (h.prepare (env.junk i) env.now)
        (sent ++ [(proposerPrepare p (env.junk i) env.now).2])
      refine ⟨hwaits, hcount.trans ?_⟩
      simp only [proposerPreparedCount, proposerPrepare, List.length_append, List.length_cons,
        List.length_nil]
      omega

theorem tryAccept_settled (env : ProposerEnv) (p : Proposer) (out : Option PrepareReq) :
    (tryAccept env p out).1.Settled env.preexecWindow := by
  obtain ⟨hwaits, hcount⟩ := preexecute_waits env
    (List.range (env.preexecWindow - proposerPreparedCount (tryAcceptAll p).1))
    (tryAcceptAll_waits p) []
  refine ⟨?_, hwaits⟩
  rw [List.length_range] at hcount
  change _ ≤ proposerPreparedCount (proposerPreexecute env (tryAcceptAll p).1).1
  rw [proposerPreexecute, hcount]
  omega

-- A frame of an unknown type is the only one that `try_accept` does not follow.
theorem proposerDispatch_settled {env : ProposerEnv} {type : Nat} {buffer : List UInt8}
    {sent : ProposerSent} (h : proposerDispatch env p type buffer = .ok (p', sent)) :
    p' = p ∨ p'.Settled env.preexecWindow := by
  have hsettled {q : Proposer} {out : Option PrepareReq}
      (he : Except.ok (tryAccept env q out) = (.ok (p', sent) : Except FrameFault _)) :
      p'.Settled env.preexecWindow := by
    have hs := tryAccept_settled env q out
    rwa [Except.ok.inj he] at hs
  unfold proposerDispatch at h
  split at h
  · obtain ⟨r, _, hr⟩ := except_bind_ok h
    exact .inr (hsettled hr)
  · split at h
    · obtain ⟨r, _, hr⟩ := except_bind_ok h
      exact .inr (hsettled hr)
    · split at h
      · exact .inr (hsettled h)
      · cases h
        exact .inl rfl

theorem evproposerHandleMsg_settled {env : ProposerEnv} {input : Evbuffer} {frames : List Frame}
    (h : (evproposerHandleMsg env p input).1 = .ok (p', frames)) :
    p' = p ∨ p'.Settled env.preexecWindow := by
  unfold evproposerHandleMsg handleMsg at h
  dsimp only at h
  split at h
  · cases h
    exact .inl rfl
  · unfold proposerHandleFrame at h
    cases hr : proposerDispatch env p _ _ with
    | error fault =>
        rw [hr] at h
        cases h
    | ok r =>
        rw [hr] at h
        cases h
        exact proposerDispatch_settled hr

-- Between callbacks a proposer is as it was made or settled.
def Proposer.Rests (id acceptors window : Nat) (p : Proposer) : Prop :=
  p = proposerNew id acceptors ∨ p.Settled window

-- A sweep only writes the time at which an instance was sent.
theorem Proposer.Rests.timeout {id n window : Nat} {c : ProposerCall} {out : ProposerOutput}
    (h : p.Rests id n window)
    (hc : ∃ iter, c = .timeoutPrepare iter ∨ c = .timeoutAccept iter) (hm : Move p c p' out) :
    p'.Rests id n window := by
  cases hm with
  | idle hv hc' => exact h
  | timeoutPrepare iter pre post inst hsplit =>
      rcases h with rfl | ⟨hwindow, hwaits⟩
      · cases pre <;> cases hsplit
      · refine .inr ⟨?_, fun front rest hfront => ?_⟩
        · rw [proposerPreparedCount, hsplit] at hwindow
          simpa [proposerPreparedCount] using hwindow
        · cases pre with
          | nil =>
              cases hfront
              exact hwaits inst post hsplit
          | cons first others =>
              cases hfront
              exact hwaits _ (others ++ inst :: post) hsplit
  | timeoutAccept iter pre post inst value hsplit hvalue =>
      rcases h with rfl | ⟨hwindow, hwaits⟩
      · cases pre <;> cases hsplit
      · exact .inr ⟨hwindow, hwaits⟩
  | propose | prepare | promise | preempt | accept | ackCounted | ackClosed | ackPreempted =>
      obtain ⟨iter, hc | hc⟩ := hc <;> cases hc

theorem proposerCheckTimeouts_rests {cfg : PaxosConfig} {fuel id n window : Nat} {now : Timeval}
    {prepares : List PrepareReq} {accepts : List AcceptReq} (h : p.Rests id n window)
    (hsweep : proposerCheckTimeouts cfg fuel p now = .ok (some (p', prepares, accepts))) :
    p'.Rests id n window := by
  obtain ⟨first, hprepares, hsweep⟩ := except_bind_ok hsweep
  cases first with
  | none => cases hsweep
  | some first =>
      obtain ⟨second, haccepts, hsweep⟩ := except_bind_ok hsweep
      cases second with
      | none => cases hsweep
      | some second =>
          cases hsweep
          have hmid : first.1.1.Rests id n window :=
            drain_induction
              (P := fun s _ s' => s.1.Rests id n window → s'.1.Rests id n window)
              (fun s s' hnext hs => hs.timeout ⟨s.2, .inl rfl⟩ (by
                have hm := timeoutIteratorPrepare_move cfg s.1 s.2
                rwa [Except.ok.inj hnext] at hm))
              (fun s mid o os s' hnext hrest hs => hrest (hs.timeout ⟨s.2, .inl rfl⟩ (by
                have hm := timeoutIteratorPrepare_move cfg s.1 s.2
                rwa [Except.ok.inj hnext] at hm)))
              hprepares h
          exact drain_induction
            (P := fun s _ s' => s.1.Rests id n window → s'.1.Rests id n window)
            (fun s s' hnext hs =>
              hs.timeout ⟨s.2, .inr rfl⟩ (timeoutIteratorAccept_move hnext))
            (fun s mid o os s' hnext hrest hs =>
              hrest (hs.timeout ⟨s.2, .inr rfl⟩ (timeoutIteratorAccept_move hnext)))
            haccepts hmid

end

-- A learner with nothing to deliver.
def Learner.Drained (l : Learner) : Prop := ∀ l' ack, learnerDeliverNext l ≠ .ok (l', some ack)

section

variable {n : Nat} {l l' : Learner}

-- Whether the instance in a slot is closed.
def Learner.closedSlot (l : Learner) (slot : Option LearnerInstance) : Bool :=
  slot.any fun inst => (instanceHasQuorum l inst).2

theorem closedSlot_new (hl : l.Sized n) : l.closedSlot (some (learnerInstanceNew n)) = false := by
  rw [Learner.closedSlot, Option.any_some, instanceHasQuorum_free hl]

theorem carrayAt_some {α : Type} {a : Carray α} {i : Int} {x : α}
    (h : carrayAt a i = .ok (some x)) : a.array[(carrayIndex a i).toNat]? = some (some x) := by
  unfold carrayAt at h
  split_ifs at h
  · cases h
  · split at h
    · cases h
    · rename_i slot hslot
      rw [hslot, Except.ok.inj h]

-- The block of pointers has its size, and what it points to has room for every ack.
structure Learner.Fitted (n : Nat) (l : Learner) : Prop where
  acks : AcksSized n l
  slots : l.instances.array.length = carraySize l.instances

-- A delivery empties a slot that was closed. The others stay as they are.
theorem Learner.Fitted.deliver (h : l.Fitted n) {ack : AcceptAck}
    (hr : learnerDeliverNext l = .ok (l', some ack)) :
    l'.Fitted n ∧ carraySize l'.instances = carraySize l.instances ∧
      l'.instances.array.countP l'.closedSlot < l.instances.array.countP l.closedSlot := by
  have hacks := h.acks.deliver hr
  obtain ⟨inst, hget, hr⟩ := except_bind_ok hr
  have hslot := carrayAt_some (learnerGetInstance_ok hget).1
  obtain ⟨hlt, hat⟩ := List.getElem?_eq_some_iff.mp hslot
  have hkeep := instanceHasQuorum_acks l inst
  rcases hq : instanceHasQuorum l inst with ⟨tested, closed⟩
  rw [hq] at hr hkeep
  cases closed with
  | false => cases hr
  | true =>
      dsimp only at hr
      split at hr
      · cases hr
      · cases hr
        have hclosed : l.closedSlot (some inst) = true := by
          rw [Learner.closedSlot, Option.any_some, hq]
        have hpos : 0 < l.instances.array.countP l.closedSlot :=
          List.countP_pos_iff.mpr ⟨some inst, List.mem_of_getElem? hslot, hclosed⟩
        have hempty : instanceClear l.acceptors tested = learnerInstanceNew n := by
          rw [h.acks.sized.acceptors, instanceClear_eq (by rw [hkeep, h.acks.get hget])]
        refine ⟨⟨hacks, ?_⟩, rfl, ?_⟩
        · simpa [learnerWriteInstance, carrayWrite, carraySize] using h.slots
        · change (l.instances.array.set _ (some (instanceClear l.acceptors tested))).countP
            l.closedSlot < _
          rw [hempty, List.countP_set hlt, hat, hclosed, closedSlot_new h.acks.sized]
          simp only [if_true, Bool.false_eq_true, if_false]
          omega

theorem Learner.Fitted.receive (h : l.Fitted n) {buffer : List UInt8}
    (hr : Wire.learnerReceiveAccept l buffer = .ok l') : l'.Fitted n := by
  refine ⟨h.acks.receive hr, ?_⟩
  have harr (iid : Nat) : (Wire.learnerArrive l iid).instances = l.instances := by
    unfold Wire.learnerArrive
    dsimp only
    split_ifs <;> rfl
  obtain ⟨iid, -, hr⟩ := except_bind_ok hr
  dsimp only at hr
  split at hr
  · cases hr
    rw [harr]
    exact h.slots
  · split at hr
    · cases hr
      rw [harr]
      exact h.slots
    · obtain ⟨mid, hupd, hr⟩ := except_bind_ok hr
      obtain ⟨inst, hget, hr⟩ := except_bind_ok hr
      obtain ⟨iid', -, hupd⟩ := except_bind_ok hupd
      obtain ⟨old, hold, hupd⟩ := except_bind_ok hupd
      obtain ⟨new, hnew, hupd⟩ := except_bind_ok hupd
      cases hupd
      cases hr
      obtain ⟨closed, he⟩ := learnerNoteClosed_eq
        (learnerWriteInstance (Wire.learnerArrive l iid) iid' new) iid inst
      rw [he]
      simpa [learnerWriteInstance, carrayWrite, carraySize, harr] using h.slots

theorem Learner.Fitted.new {cfg : PaxosConfig} (h : learnerNew cfg n = .ok l) : l.Fitted n := by
  refine ⟨.new h, ?_⟩
  obtain ⟨a, hinit, hl⟩ := except_bind_ok h
  cases hl
  by_cases hw : 1 ≤ cfg.learnerInstances
  · obtain ⟨filled, hfill, hring⟩ := (Carray.Filling.new cfg.learnerInstances).fill hw
      (List.replicate cfg.learnerInstances (learnerInstanceNew n)) (by simp)
    have ha : filled = a := Except.ok.inj (hfill.symm.trans hinit)
    rw [← ha]
    change filled.array.length = filled.size
    rw [hring.array, hring.size, List.length_map]
  · have h0 : cfg.learnerInstances = 0 := by omega
    have ha : (carrayNew 0 : Carray LearnerInstance) = a := by
      rw [h0] at hinit
      exact Except.ok.inj hinit
    rw [← ha]
    rfl

theorem Learner.Fitted.drained (h : l.Fitted n)
    (hnone : l.instances.array.countP l.closedSlot = 0) : l.Drained := by
  intro l' ack hr
  have hlt := (h.deliver hr).2.2
  omega

theorem Learner.Drained.new {cfg : PaxosConfig} (h : learnerNew cfg n = .ok l) : l.Drained := by
  have hfitted := Learner.Fitted.new h
  obtain ⟨hsized, hslots⟩ := learnerNew_slots h
  refine hfitted.drained (List.countP_eq_zero.mpr fun slot hm => ?_)
  cases slot with
  | none => simp [Learner.closedSlot]
  | some inst =>
      rw [hslots inst hm, closedSlot_new hsized]
      simp

-- A call that delivers nothing changes nothing.
theorem learnerDeliverNext_none (h : learnerDeliverNext l = .ok (l', none)) : l' = l := by
  obtain ⟨inst, _, hr⟩ := except_bind_ok h
  split at hr
  · cases hr
    rfl
  · split at hr <;> cases hr

-- A process that is not ended by a fault has delivered what `learner_deliver_next_closed`
-- returns: there are not more closed instances than rounds.
theorem evlearnerDeliver_closed (fuel : Nat) {node : EvLearner} (hnode : node.state = .ok l)
    (h : l.Fitted n) (hfuel : l.instances.array.countP l.closedSlot < fuel)
    (hl' : (evlearnerDeliver fuel node).state = .ok l') :
    ∃ acks, learnerDeliverNextClosed fuel l = .ok (some (l', acks)) ∧
      (evlearnerDeliver fuel node).delivered = node.delivered ++ acks ∧ l'.Fitted n := by
  induction fuel generalizing l node with
  | zero => omega
  | succ fuel ih =>
      cases hr : learnerDeliverNext l with
      | error fault =>
          rw [evlearnerDeliver, hnode] at hl'
          simp only [hr] at hl'
          cases hl'
      | ok r =>
          obtain ⟨mid, out⟩ := r
          cases out with
          | none =>
              have hend : evlearnerDeliver (fuel + 1) node = { node with state := .ok mid } := by
                rw [evlearnerDeliver, hnode]
                simp only [hr]
              rw [hend] at hl' ⊢
              cases hl'
              refine ⟨[], ?_, (List.append_nil _).symm, ?_⟩
              · rw [learnerDeliverNextClosed, hr]
                rfl
              · rwa [learnerDeliverNext_none hr]
          | some ack =>
              have hgo : evlearnerDeliver (fuel + 1) node =
                  evlearnerDeliver fuel ⟨.ok mid, node.delivered ++ [ack]⟩ := by
                rw [evlearnerDeliver, hnode]
                simp only [hr]
              rw [hgo] at hl' ⊢
              obtain ⟨hmid, _, hlt⟩ := h.deliver hr
              obtain ⟨acks, hclosed, hdelivered, hlast⟩ := ih rfl hmid (by omega) hl'
              refine ⟨ack :: acks, ?_, ?_, hlast⟩
              · rw [learnerDeliverNextClosed, hr]
                change (learnerDeliverNextClosed fuel mid >>= _) = _
                rw [hclosed]
                rfl
              · rw [hdelivered, List.append_assoc, List.singleton_append]

-- The loop only ends when nothing can be delivered.
theorem learnerDeliverNextClosed_drained {fuel : Nat} {acks : List AcceptAck}
    (h : learnerDeliverNextClosed fuel l = .ok (some (l', acks))) : l'.Drained := by
  induction fuel generalizing l acks with
  | zero => cases h
  | succ fuel ih =>
      obtain ⟨⟨mid, out⟩, hr, h⟩ := except_bind_ok h
      cases out with
      | none =>
          cases h
          intro next ack hnext
          rw [← learnerDeliverNext_none hr] at hr
          cases hr.symm.trans hnext
      | some ack =>
          obtain ⟨r, hclosed, h⟩ := except_bind_ok h
          obtain ⟨⟨last, rest⟩, rfl, he⟩ := Option.map_eq_some_iff.mp (Except.ok.inj h)
          cases he
          exact ih hclosed

-- Behind its size check `learner_handle_msg` is the dispatch of the payload. Only what it
-- delivers before a fault is seen beside it.
theorem learnerHandleFrame_dispatch {node : EvLearner} {type : Nat} {buffer : List UInt8}
    (hnode : node.state = .ok l) (h : l.Fitted n)
    (hl' : (learnerHandleFrame node l type buffer).state = .ok l') :
    ∃ fuel acks, learnerDispatch fuel l type buffer = .ok (some (l', acks)) ∧
      (learnerHandleFrame node l type buffer).delivered = node.delivered ++ acks ∧ l'.Fitted n := by
  unfold learnerHandleFrame learnerDispatch at *
  split at hl'
  · rename_i htype
    simp only [htype, if_true] at hl' ⊢
    cases hr : Wire.learnerReceiveAccept l buffer with
    | error fault =>
        rw [hr] at hl'
        cases hl'
    | ok mid =>
        rw [hr] at hl'
        have hfit := h.receive hr
        have hle := List.countP_le_length (p := mid.closedSlot) (l := mid.instances.array)
        rw [hfit.slots] at hle
        obtain ⟨acks, hclosed, hdelivered, hlast⟩ :=
          evlearnerDeliver_closed (carraySize mid.instances + 1) rfl hfit (by omega) hl'
        refine ⟨carraySize mid.instances + 1, acks, ?_, hdelivered, hlast⟩
        change (learnerDeliverNextClosed _ mid).mapError _ = _
        rw [hclosed]
        rfl
  · rename_i htype
    simp only [htype, if_false] at hl' ⊢
    cases hnode.symm.trans hl'
    exact ⟨0, [], rfl, (List.append_nil _).symm, h⟩

theorem evlearnerHandleMsg_drained {node : EvLearner} {input : Evbuffer}
    (hnode : node.state = .ok l) (h : l.Fitted n) (hdrained : l.Drained)
    (hl' : (evlearnerHandleMsg node l input).1.state = .ok l') : l'.Fitted n ∧ l'.Drained := by
  unfold evlearnerHandleMsg handleMsg at hl'
  dsimp only at hl'
  split at hl'
  · cases hnode.symm.trans hl'
    exact ⟨h, hdrained⟩
  · obtain ⟨fuel, acks, hdispatch, _, hfit⟩ := learnerHandleFrame_dispatch hnode h hl'
    refine ⟨hfit, ?_⟩
    rw [learnerDispatch] at hdispatch
    split at hdispatch
    · obtain ⟨mid, _, hclosed⟩ := except_bind_ok hdispatch
      exact learnerDeliverNextClosed_drained (mapError_ok hclosed)
    · cases hdispatch
      exact hdrained

end

-- What a step does to the proposers and learners: a callback of one of them has run,
-- or none.
inductive CallbackStep (cl : Layout ι κ) (d d' : Deployment ι κ σ) : Prop
  | none (hp : d'.proposers = d.proposers) (hl : d'.learners = d.learners)
  | message (p : ι) (env : ProposerEnv) (state : Proposer) (input : Evbuffer)
      (hwindow : env.preexecWindow = cl.preexecWindow p) (hstate : d.proposers p = .ok state)
      (hother : ∀ q, q ≠ p → d'.proposers q = d.proposers q)
      (hp : d'.proposers p = (evproposerHandleMsg env state input).1.map Prod.fst)
      (hl : d'.learners = d.learners)
  | timeouts (p : ι) (now : Timeval) (state : Proposer) (hstate : d.proposers p = .ok state)
      (hother : ∀ q, q ≠ p → d'.proposers q = d.proposers q)
      (hp : ∀ state', d'.proposers p = .ok state' → ∃ fuel prepares accepts,
        proposerCheckTimeouts (cl.proposerConfig p) fuel state now =
          .ok (some (state', prepares, accepts)))
      (hl : d'.learners = d.learners)
  | ack (l : κ) (state : Learner) (input : Evbuffer) (hstate : (d.learners l).state = .ok state)
      (hother : ∀ m, m ≠ l → d'.learners m = d.learners m)
      (hl : d'.learners l = (evlearnerHandleMsg (d.learners l) state input).1)
      (hp : d'.proposers = d.proposers)

-- The writes leave the processes alone.
structure Deployment.SamePeers (d d' : Deployment ι κ σ) : Prop where
  proposers : d'.proposers = d.proposers
  learners : d'.learners = d.learners

theorem Deployment.SamePeers.trans {d d' d'' : Deployment ι κ σ} (h : d.SamePeers d')
    (h' : d'.SamePeers d'') : d.SamePeers d'' :=
  ⟨h'.proposers.trans h.proposers, h'.learners.trans h.learners⟩

namespace Deployment

variable [DecidableEq ι] [DecidableEq κ] {cl : Layout ι κ} {d d' : Deployment ι κ σ}

omit [DecidableEq ι] [DecidableEq κ] in
theorem samePeers_foldl {α : Type} {f : Deployment ι κ σ → α → Deployment ι κ σ}
    (hf : ∀ (d : Deployment ι κ σ) x, d.SamePeers (f d x)) (xs : List α) (d : Deployment ι κ σ) :
    d.SamePeers (xs.foldl f d) := by
  induction xs generalizing d with
  | nil => exact ⟨rfl, rfl⟩
  | cons x xs ih => exact (hf d x).trans (ih (f d x))

theorem samePeers_sendAll (cl : Layout ι κ) (peer : Peer ι κ) (frames : List Frame)
    (d : Deployment ι κ σ) : d.SamePeers (d.sendAll cl peer frames) := by
  apply samePeers_foldl
  intro d f
  apply samePeers_foldl
  intro d i
  exact ⟨rfl, rfl⟩

theorem samePeers_sendToBevs {bevs : Carray (Connection ι κ)} {f : Frame} (rounds : List Nat)
    (h : rounds.foldlM (sendToBev bevs f) d = .ok d') : d.SamePeers d' := by
  induction rounds generalizing d with
  | nil =>
      cases h
      exact ⟨rfl, rfl⟩
  | cons i rounds ih =>
      rw [List.foldlM_cons] at h
      obtain ⟨mid, hmid, hrest⟩ := except_bind_ok h
      have hone : d.SamePeers mid := by
        obtain ⟨c, _, hc⟩ := except_bind_ok hmid
        split at hc
        · cases hc
        · cases hc
          exact ⟨rfl, rfl⟩
      exact hone.trans (ih hrest)

theorem samePeers_reply (d : Deployment ι κ σ) (c : Connection ι κ) (pad : List UInt8)
    (reply : AcceptorReply) : d.SamePeers (d.reply c pad reply) := by
  cases reply with
  | none => exact ⟨rfl, rfl⟩
  | prepareAck rec => exact ⟨rfl, rfl⟩
  | acceptAck rec => exact ⟨rfl, rfl⟩
  | acceptAckToAll rec =>
      simp only [Deployment.reply]
      split
      · rename_i d' hd'
        exact samePeers_sendToBevs _ hd'
      · exact ⟨rfl, rfl⟩

theorem callbackStep_readProposer {p : ι} {way : Way ι κ} {now : Timeval} {junk : Nat → Nat → Int}
    (hstep : d.readProposer cl p way now junk = some d') : CallbackStep cl d d' := by
  unfold readProposer at hstep
  cases hd : d.proposers p with
  | error fault =>
      rw [hd] at hstep
      cases hstep
  | ok state =>
      rw [hd] at hstep
      dsimp only at hstep
      split at hstep
      · have hset (d : Deployment ι κ σ) (new : Except FrameFault Proposer) :
            (d.setProposer p new).proposers p = new := by simp [setProposer]
        have hother (d : Deployment ι κ σ) (new : Except FrameFault Proposer) (q : ι) (hq : q ≠ p) :
            (d.setProposer p new).proposers q = d.proposers q := by simp [setProposer, hq]
        split at hstep
        · rename_i state' frames input' hmsg
          cases hstep
          obtain ⟨hproposers, hlearners⟩ := samePeers_sendAll cl (.proposer p) frames
            ((d.setInput way input').setProposer p (.ok state'))
          refine .message p ⟨cl.preexecWindow p, now, junk⟩ state (d.pipes way).input rfl hd
            (fun q hq => ?_) ?_ hlearners
          · rw [hproposers, hother _ _ q hq]
            rfl
          · rw [hproposers, hset, hmsg]
            rfl
        · rename_i fault input' hmsg
          cases hstep
          refine .message p ⟨cl.preexecWindow p, now, junk⟩ state (d.pipes way).input rfl hd
            (fun q hq => hother _ _ q hq) ?_ rfl
          rw [hset, hmsg]
          rfl
      · cases hstep

theorem callbackStep_readLearner {l : κ} {way : Way ι κ}
    (hstep : d.readLearner l way = some d') : CallbackStep cl d d' := by
  unfold readLearner at hstep
  cases hd : (d.learners l).state with
  | error fault =>
      rw [hd] at hstep
      cases hstep
  | ok state =>
      rw [hd] at hstep
      dsimp only at hstep
      split at hstep
      · cases hstep
        exact .ack l state (d.pipes way).input hd (fun m hm => Function.update_of_ne hm _ _)
          (Function.update_self l _ _) rfl
      · cases hstep

theorem callbackStep_checkTimeouts {p : ι} {now : Timeval}
    (hstep : d.checkTimeouts cl p now = some d') : CallbackStep cl d d' := by
  unfold checkTimeouts at hstep
  cases hd : d.proposers p with
  | error fault =>
      rw [hd] at hstep
      cases hstep
  | ok state =>
      rw [hd] at hstep
      dsimp only at hstep
      split at hstep
      · cases hstep
        refine .timeouts p now state hd (fun q hq => Function.update_of_ne hq _ _)
          (fun state' hp => ?_) rfl
        cases hp.symm.trans (Function.update_self p _ _)
      · cases hstep
      · rename_i state' prepares accepts hsweep
        cases hstep
        obtain ⟨hproposers, hlearners⟩ := samePeers_sendAll cl (.proposer p)
          (prepares.map .prepareReq ++ accepts.map .acceptReq) (d.setProposer p (.ok state'))
        refine .timeouts p now state hd (fun q hq => ?_) (fun found hp => ?_) hlearners
        · rw [hproposers]
          exact Function.update_of_ne hq _ _
        · rw [hproposers] at hp
          cases hp.symm.trans (Function.update_self p _ _)
          exact ⟨_, prepares, accepts, hsweep⟩

omit [DecidableEq ι] [DecidableEq κ] in
theorem callbackStep_of_samePeers (h : d.SamePeers d') : CallbackStep cl d d' :=
  .none h.proposers h.learners

theorem step_callbackStep [DurableStorage σ] {e : DeploymentEvent ι κ}
    (hstep : step cl d e = some d') : CallbackStep cl d d' := by
  cases e with
  | arrive way size =>
      cases hstep
      exact .none rfl rfl
  | onAccept c =>
      simp only [step, onAccept] at hstep
      split at hstep
      · split at hstep
        · cases hstep
          exact .none rfl rfl
        · cases hstep
          exact .none rfl rfl
      · cases hstep
  | onError c eof =>
      simp only [step, onError] at hstep
      split at hstep
      · split at hstep
        · split at hstep
          · cases hstep
            exact .none rfl rfl
          · cases hstep
            exact .none rfl rfl
        · cases hstep
          exact .none rfl rfl
      · cases hstep
  | onSocketEvent peer a =>
      cases hstep
      exact .none rfl rfl
  | readRequest c pad =>
      simp only [step, readRequest] at hstep
      split at hstep
      · rename_i state reply input _
        cases hstep
        have hset : d.SamePeers ((d.setInput (.up c) input).setAcceptor c.acceptor (.ok state)) :=
          ⟨rfl, rfl⟩
        exact callbackStep_of_samePeers (hset.trans (samePeers_reply _ c _ reply))
      · cases hstep
        exact .none rfl rfl
      · cases hstep
      · cases hstep
  | readReply peer a now junk =>
      cases peer with
      | proposer p => exact callbackStep_readProposer hstep
      | learner l => exact callbackStep_readLearner hstep
  | submit p number value =>
      cases hstep
      exact .none rfl rfl
  | readSubmit p number now junk => exact callbackStep_readProposer hstep
  | checkTimeouts p now => exact callbackStep_checkTimeouts hstep
  | checkHoles l =>
      simp only [step, checkHoles] at hstep
      split at hstep
      · cases hstep
      · cases hstep
        exact callbackStep_of_samePeers (samePeers_sendAll cl _ _ _)
  | crash a =>
      simp only [step, crash] at hstep
      split at hstep
      · cases hstep
      · cases hstep
        exact .none rfl rfl
  | crashAfterCommit c =>
      simp only [step, crashAfterCommit] at hstep
      split at hstep
      · cases hstep
        exact .none rfl rfl
      · cases hstep

end Deployment

variable [DecidableEq ι] [DecidableEq κ] [DurableStorage σ]

-- In every run, a proposer that has handled a message keeps its window full, and no
-- value waits while the first instance is ready for one.
theorem proposers_rest (cl : Layout ι κ) (d : Deployment ι κ σ)
    (hr : (deployment σ cl).Reachable (fun _ _ => True) d) (p : ι) (state : Proposer)
    (hstate : d.proposers p = .ok state) :
    state.Rests (cl.id p) cl.acceptors (cl.preexecWindow p) := by
  have hinv := hr.invariant
    (fun d => ∀ p state, d.proposers p = .ok state →
      state.Rests (cl.id p) cl.acceptors (cl.preexecWindow p))
    (fun p state h => .inl (Except.ok.inj h).symm) (fun d e d' _ h _ hstep => ?_)
  · exact hinv p state hstate
  intro q state hq
  cases Deployment.step_callbackStep hstep with
  | none hp hl => exact h q state (hp ▸ hq)
  | message p env before input hwindow hbefore hother hp hl =>
      by_cases he : q = p
      · subst he
        rw [hp] at hq
        cases hmsg : (evproposerHandleMsg env before input).1 with
        | error fault =>
            rw [hmsg] at hq
            cases hq
        | ok r =>
            rw [hmsg] at hq
            cases hq
            rcases evproposerHandleMsg_settled hmsg with hsame | hsettled
            · rw [hsame]
              exact h q before hbefore
            · exact .inr (hwindow ▸ hsettled)
      · exact h q state (hother q he ▸ hq)
  | timeouts p now before hbefore hother hp hl =>
      by_cases he : q = p
      · subst he
        obtain ⟨fuel, prepares, accepts, hsweep⟩ := hp state hq
        exact proposerCheckTimeouts_rests (h q before hbefore) hsweep
      · exact h q state (hother q he ▸ hq)
  | ack l before input hbefore hother hl hp => exact h q state (hp ▸ hq)

theorem proposers_rest_accepting : ∃ (d : Deployment (Fin 1) (Fin 2) BdbStorage) (state : Proposer),
    d.proposers 0 = .ok state ∧ state.acceptInstances.length = 1 ∧
      state.Rests 0 1 (smallLayout.preexecWindow 0) := by
  obtain ⟨d, hd⟩ := Option.isSome_iff_exists.mp (show
    ((deployment BdbStorage smallLayout).run (Deployment.start smallLayout)
      acceptPending).isSome = true by decide +kernel)
  have hlength : ((deployment BdbStorage smallLayout).run (Deployment.start smallLayout)
      acceptPending).map (fun d => (d.proposers 0).map fun state => state.acceptInstances.length) =
        some (.ok 1) := by decide +kernel
  rw [hd, Option.map_some, Option.some.injEq] at hlength
  cases hstate : d.proposers 0 with
  | error fault =>
      rw [hstate] at hlength
      cases hlength
  | ok state =>
      rw [hstate] at hlength
      have hr := TransitionSystem.reachable_of_run (fun _ _ => True) (.of_forall (by simp) _) hd
      exact ⟨d, state, hstate, Except.ok.inj hlength,
        proposers_rest smallLayout d hr 0 state hstate⟩

-- In every run, no learner keeps back an ack that it could deliver.
theorem learners_drained (cl : Layout ι κ) (d : Deployment ι κ σ)
    (hr : (deployment σ cl).Reachable (fun _ _ => True) d) (l : κ) (state : Learner)
    (hstate : (d.learners l).state = .ok state) : state.Drained := by
  have hinv := hr.invariant
    (fun d => ∀ l state, (d.learners l).state = .ok state →
      state.Fitted cl.acceptors ∧ state.Drained) ?_ (fun d e d' _ h _ hstep => ?_)
  · exact (hinv l state hstate).2
  · intro l state h
    change (learnerNew (cl.learnerConfig l) cl.acceptors).mapError FrameFault.fault = .ok state at h
    have hnew := mapError_ok h
    exact ⟨.new hnew, .new hnew⟩
  intro m state hm
  cases Deployment.step_callbackStep hstep with
  | none hp hl => exact h m state (hl ▸ hm)
  | message p env before input hwindow hbefore hother hp hl => exact h m state (hl ▸ hm)
  | timeouts p now before hbefore hother hp hl => exact h m state (hl ▸ hm)
  | ack l before input hbefore hother hl hp =>
      by_cases he : m = l
      · subst he
        obtain ⟨hfit, hdrained⟩ := h m before hbefore
        rw [hl] at hm
        exact evlearnerHandleMsg_drained hbefore hfit hdrained hm
      · exact h m state (hother m he ▸ hm)

theorem learners_drained_delivered :
    ∃ (d : Deployment (Fin 1) (Fin 2) BdbStorage) (state : Learner),
      (d.learners 0).state = .ok state ∧ state.currentIid = 2 ∧ state.Drained := by
  obtain ⟨d, hd⟩ := Option.isSome_iff_exists.mp (show
    ((deployment BdbStorage smallLayout).run (Deployment.start smallLayout)
      valueToLearners).isSome = true by decide +kernel)
  have hcurrent : ((deployment BdbStorage smallLayout).run (Deployment.start smallLayout)
      valueToLearners).map (fun d => (d.learners 0).state.map fun state => state.currentIid) =
        some (.ok 2) := by decide +kernel
  rw [hd, Option.map_some, Option.some.injEq] at hcurrent
  cases hstate : (d.learners 0).state with
  | error fault =>
      rw [hstate] at hcurrent
      cases hcurrent
  | ok state =>
      rw [hstate] at hcurrent
      have hr := TransitionSystem.reachable_of_run (fun _ _ => True) (.of_forall (by simp) _) hd
      exact ⟨d, state, hstate, Except.ok.inj hcurrent,
        learners_drained smallLayout d hr 0 state hstate⟩

end LibPaxos
