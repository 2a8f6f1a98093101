import LibPaxos.AckAssertion
import LibPaxos.Learner.Delivery
import LibPaxos.LearnerSoundness

namespace LibPaxos

open MapStorage

variable {ι κ σ : Type} [MapStorage σ]

-- Some proposer has opened the instance.
def System.Opened (s : System ι κ σ) (i : Nat) : Prop :=
  ∃ p, i ≤ (s.proposers p).state.nextPrepareIid

-- Prepare acks go to proposers and repeat requests name any instance.
def Packet.About (P : Nat → Prop) : Packet ι κ → Prop
  | .prepareReq _ req => P req.iid
  | .acceptReq _ req => P req.iid
  | .acceptAck _ ack => P ack.iid
  | .prepareAck _ _ => True
  | .repeatReq _ _ => True

theorem Packet.About.mono {P Q : Nat → Prop} (h : ∀ i, P i → Q i) {packet : Packet ι κ}
    (hp : packet.About P) : packet.About Q := by
  cases packet with
  | prepareReq src req => exact h _ hp
  | acceptReq src req => exact h _ hp
  | acceptAck dst ack => exact h _ hp
  | prepareAck | repeatReq => trivial

-- All that is sent and stored is about instances that proposers have opened.
structure OnlyOpened (s : System ι κ σ) : Prop where
  net : ∀ packet ∈ s.net, packet.About s.Opened
  record : ∀ a i rec, records (s.acceptors a).store i = some rec → s.Opened i

theorem OnlyOpened.start (cl : Cluster ι κ) : OnlyOpened (System.start cl : System ι κ σ) := by
  refine ⟨fun packet hm => ?_, fun a i rec hr => ?_⟩
  · cases hm
  · obtain ⟨_, _, hrec⟩ := MapStorage.open_eq (σ := σ) a
    change records (Storage.storageOpen a : σ) i = some rec at hr
    rw [hrec] at hr
    cases hr

-- An acceptor stores nothing that it was not asked about.
theorem Handled.about {a : Nat} {x y : Logged σ} {packet : Packet ι κ}
    {replies : List (Packet ι κ)} (h : Handled a x packet y replies) {P : Nat → Prop}
    (hpacket : packet.About P) (hold : ∀ i rec, records x.store i = some rec → P i) :
    ∀ i rec, records y.store i = some rec → P i := by
  have hput {iid : Nat} {new : AcceptorRecord} (hiid : P iid)
      (hstore : records y.store = Function.update (records x.store) iid (some new)) :
      ∀ i rec, records y.store i = some rec → P i := by
    rw [hstore]
    exact (Function.forall_update_iff _ fun i (o : Option AcceptorRecord) =>
      ∀ rec, o = some rec → P i).mpr ⟨fun _ _ => hiid, fun i _ => hold i⟩
  cases h with
  | prepare src req _ rec hseen hid hiid hsaved hstore hcase => exact hput hpacket hstore
  | accepted src req _ hseen hsaved hstore => exact hput hpacket hstore
  | refused src req _ rec hseen hid hiid hsaved hstore hrec hlt => exact hstore ▸ hold
  | unknown src iid _ hsaved hstore hrec => exact hstore ▸ hold
  | repeated src iid _ rec hseen hid hiid hsaved hstore hrec => exact hstore ▸ hold

variable [DecidableEq ι] [DecidableEq κ] {cl : Cluster ι κ} {s s' : System ι κ σ} {e : Event ι κ}

-- Instances stay open.
theorem Steps.opened (hreg : Regular cl s) (hs : Steps cl s e s') (hguard : e.noRestart)
    (hw : e.noWrap s) (p : ι) :
    (s.proposers p).state.nextPrepareIid ≤ (s'.proposers p).state.nextPrepareIid := by
  apply hs.forall_proposers
    (P := fun p pr => (s.proposers p).state.nextPrepareIid ≤ pr.state.nextPrepareIid)
  · exact fun p => Nat.le_refl _
  · rintro p c pr out rfl _ hcall
    have hnext := call_nextPrepareIid (cl.proposerConfig p) (hreg.lawful p).booked c
      fun junk now hc => by
        subst hc
        exact hw
    rw [hcall] at hnext
    exact hnext ▸ Nat.le_add_right _ _
  · rintro p rfl
    exact hguard.elim

theorem OnlyOpened.step (h : OnlyOpened s) (hreg : Regular cl s) (hs : Steps cl s e s')
    (hguard : e.noRestart) (hw : e.noWrap s) : OnlyOpened s' := by
  have hopened (i : Nat) (ho : s.Opened i) : s'.Opened i :=
    ho.imp fun p hp => Nat.le_trans hp (hs.opened hreg hguard hw p)
  have hlawful := Lawful.step hreg.lawful hs hw
  have hrecord : ∀ a i rec, records (s'.acceptors a).store i = some rec → s'.Opened i := by
    have hold (a i : Nat) (rec : AcceptorRecord)
        (hr : records (s.acceptors a).store i = some rec) : s'.Opened i :=
      hopened i (h.record a i rec hr)
    revert hopened hold
    generalize s'.Opened = P
    intro hopened hold
    cases hs with
    | call | restart | learn | checkHoles => exact hold
    | handle a packet acceptor replies ha hm hr =>
        obtain ⟨_, _, hhandled⟩ := (hreg.honest.voter a).handled hr
        exact (Function.forall_update_iff s.acceptors fun _ (acc : Logged σ) =>
          ∀ i rec, records acc.store i = some rec → P i).mpr
            ⟨hhandled.about ((h.net packet hm).mono hopened) (hold a), fun b _ => hold b⟩
  refine ⟨fun packet hm => ?_, hrecord⟩
  rcases hs.mem_net hm with hm | ⟨p, c, pr, out, rfl, _, hcall, rfl, hm⟩ |
    ⟨a, req, acceptor, replies, rfl, hr, rfl, hm⟩ | ⟨l, iid, rfl⟩
  · exact (h.net packet hm).mono hopened
  · rcases mem_packets hm with ⟨req, rfl, rfl⟩ | ⟨req, rfl, rfl⟩
    · rcases (hreg.lawful p).booked.call_cases hcall with ⟨_, _, _, he⟩ | ⟨q, hmove, he⟩
      · cases he
      · obtain ⟨inst, hinst, hiid, _⟩ := hmove.prepareReq
        rw [Packet.About, ← hiid]
        refine ⟨p, ((hlawful p).booked.prepare_range ?_).2⟩
        rw [he]
        exact hinst
    · have hm : req ∈ (s'.proposers p).emitted := by
        rw [(call_history hcall).1]
        exact List.mem_append_right _ (List.mem_singleton.mpr rfl)
      exact ⟨p, ((hlawful p).emitting.range req hm).2⟩
  · obtain ⟨_, _, hhandled⟩ := (hreg.honest.voter a).handled hr
    cases packet with
    | prepareReq src req => cases hhandled <;> simp at hm
    | acceptReq src req => exact absurd hm (hhandled.no_request src req)
    | acceptAck dst ack =>
        obtain ⟨_, ⟨⟨now, hnow, _⟩, _⟩, _⟩ := hhandled.acceptAck hm
        exact hrecord a ack.iid now hnow
    | prepareAck | repeatReq => trivial
  · trivial

-- A learner process that has not ended, with its window in order.
def LearnerProc.Running (w n : Nat) (lp : LearnerProc) : Prop :=
  ∃ state slots, lp.state = .ok state ∧ state.Windowed w n slots

theorem LearnerProc.Running.call {w n : Nat} {lp : LearnerProc} (h : lp.Running w n)
    {state : Learner} (hstate : lp.state = .ok state) {c : LearnerCall}
    (hfits : ∀ ack, c = .receiveAccept ack → ack.Fits w n) : (lp.call state c).Running w n := by
  obtain ⟨_, slots, hok, hwin⟩ := h
  cases hstate.symm.trans hok
  unfold LearnerProc.call
  cases c with
  | receiveAccept ack =>
      obtain ⟨l', slots', hr, hwin', _⟩ := hwin.receive (hfits ack rfl)
      simp only [learnerCall, hr, Except.map]
      exact ⟨l', slots', rfl, hwin'⟩
  | deliverNext =>
      simp only [learnerCall]
      rcases hwin.deliver with ⟨hr, _⟩ | ⟨ack, hr, _, _, hwin', _⟩
      · rw [hr]
        exact ⟨state, slots, rfl, hwin⟩
      · rw [hr]
        exact ⟨_, _, rfl, hwin'⟩

def Packet.isRequest : Packet ι κ → Bool
  | .prepareReq _ _ => true
  | .acceptReq _ _ => true
  | .repeatReq _ _ => true
  | .prepareAck _ _ => false
  | .acceptAck _ _ => false

omit [DecidableEq ι] [DecidableEq κ] in
theorem Voter.answers {a : Nat} {acc : Logged σ} (h : Voter a acc) {packet : Packet ι κ}
    (hreq : packet.isRequest = true) : ∃ r, handleReq acc packet = some r := by
  cases packet with
  | prepareReq src req =>
      obtain ⟨_, _, he, _⟩ := h.prepare req
      exact ⟨_, by rw [handleReq, handlePrepareReq, he]; rfl⟩
  | acceptReq src req =>
      obtain ⟨_, _, he, _⟩ := h.accept req
      exact ⟨_, by rw [handleReq, handleAcceptReq, he]; rfl⟩
  | repeatReq src iid =>
      obtain ⟨_, he, _⟩ := h.again iid
      exact ⟨_, by rw [handleReq, handleRepeatReq, he]; rfl⟩
  | prepareAck | acceptAck => cases hreq

end LibPaxos
