import LibPaxos.Storage.Bdb
import LibPaxos.System.Theorems

namespace LibPaxos

open MapStorage Voting

variable {ι κ σ : Type} [MapStorage σ]

-- Acceptor `a` has promised the instance's ballot and voted nowhere between its
-- value ballot and its ballot.
def PromisedTo (acceptors : Nat → Logged σ) (inst : Instance) (a : Nat) : Prop :=
  (∃ rec, records (acceptors a).store inst.iid = some rec ∧ inst.ballot ≤ rec.ballot) ∧
    ∀ r ∈ (acceptors a).saved, r.iid = inst.iid →
      r.ballot ≤ inst.valueBallot ∨ inst.ballot ≤ r.ballot

theorem PromisedTo.mono {acceptors acceptors' : Nat → Logged σ}
    (hg : ∀ a, (acceptors a).Grows (acceptors' a)) {inst : Instance} {a : Nat}
    (h : PromisedTo acceptors inst a) : PromisedTo acceptors' inst a := by
  obtain ⟨⟨rec, hrec, hle⟩, hgap⟩ := h
  obtain ⟨rec', hrec', hle'⟩ := (hg a).ballot inst.iid rec hrec
  refine ⟨⟨rec', hrec', Nat.le_trans hle hle'⟩, fun r hr hiid => ?_⟩
  rcases (hg a).fresh r hr with hold | hfresh
  · exact hgap r hold hiid
  · exact .inr (Nat.le_trans hle (hfresh rec (hiid ▸ hrec)))

-- The value ballot of an instance is zero or that of a proposal of its value. It
-- stays through preemptions.
def Instance.Rooted (proposed : Nat → Nat → Value → Prop) (inst : Instance) : Prop :=
  inst.valueBallot = 0 ∨
    ∃ value, inst.value = some value ∧ proposed inst.iid inst.valueBallot value

-- What a proposer's state says about the acceptors and the proposals of the system.
structure Grounded (acceptors : Nat → Logged σ) (proposed : Nat → Nat → Value → Prop)
    (p : Proposer) : Prop where
  promised : ∀ inst ∈ p.prepareInstances, inst.quorum.CountedBy (PromisedTo acceptors inst)
  rootPrepare : ∀ inst ∈ p.prepareInstances, inst.Rooted proposed
  rootAccept : ∀ inst ∈ p.acceptInstances, inst.Rooted proposed

theorem Grounded.new (acceptors : Nat → Logged σ) (proposed : Nat → Nat → Value → Prop)
    (id n : Nat) : Grounded acceptors proposed (proposerNew id n) := by
  constructor <;> simp [proposerNew]

theorem Grounded.mono {acceptors acceptors' : Nat → Logged σ}
    {proposed proposed' : Nat → Nat → Value → Prop} {p : Proposer}
    (h : Grounded acceptors proposed p) (hg : ∀ a, (acceptors a).Grows (acceptors' a))
    (hp : ∀ i b v, proposed i b v → proposed' i b v) : Grounded acceptors' proposed' p := by
  have hroot (inst : Instance) (hr : inst.Rooted proposed) : inst.Rooted proposed' := by
    rcases hr with h0 | ⟨value, hv, hprop⟩
    · exact .inl h0
    · exact .inr ⟨value, hv, hp _ _ _ hprop⟩
  exact ⟨fun inst hm => (h.promised inst hm).mono fun a ha => ha.mono hg,
    fun inst hm => hroot inst (h.rootPrepare inst hm),
    fun inst hm => hroot inst (h.rootAccept inst hm)⟩

-- What a proposer learns from a promise: a record the acceptor really had.
structure PromiseOf (acceptors : Nat → Logged σ) (ack : PrepareAck) : Prop where
  seen : ∃ rec : AcceptorRecord, ack = rec.toPrepareAck ∧ Seen (acceptors rec.acceptorId) rec

-- Every saved request was proposed, at a positive ballot, with a value.
def Votes (acceptors : Nat → Logged σ) (proposed : Nat → Nat → Value → Prop) : Prop :=
  ∀ a, ∀ r ∈ (acceptors a).saved, proposed r.iid r.ballot r.value ∧ 0 < r.ballot ∧ r.value ≠ []

-- One counted promise. The instance keeps its value, takes that of the promise, or
-- has it replaced, and its value ballot never falls.
theorem Grounded.promise {acceptors : Nat → Logged σ} {proposed : Nat → Nat → Value → Prop}
    (hvotes : Votes acceptors proposed) {inst : Instance} {ack : PrepareAck}
    (hcount : inst.quorum.CountedBy (PromisedTo acceptors inst)) (hroot : inst.Rooted proposed)
    (hack : PromiseOf acceptors ack) (hiid : inst.iid = ack.iid)
    (hballot : ack.ballot = inst.ballot) {quorum : Quorum} {added : Bool}
    (hadd : quorumAdd inst.quorum ack.acceptorId = .ok (quorum, added)) (values : List Value) :
    let inst' := (promiseValue values { inst with quorum := quorum } ack).2
    inst'.quorum.CountedBy (PromisedTo acceptors inst') ∧ inst'.Rooted proposed := by
  obtain ⟨rec, rfl, hseen⟩ := hack.seen
  have hiid' : rec.iid = inst.iid := hiid.symm
  have hballot' : rec.ballot = inst.ballot := hballot
  obtain ⟨now, hnow, hle⟩ := hseen.bar
  have hbar : ∃ now, records (acceptors rec.acceptorId).store inst.iid = some now ∧
      inst.ballot ≤ now.ballot := ⟨now, hiid' ▸ hnow, hballot' ▸ hle⟩
  -- The promise, seen from an instance whose value ballot is at least the reported one.
  have hnew (vb : Nat) (hvb : rec.valueBallot ≤ vb) :
      ∀ r ∈ (acceptors rec.acceptorId).saved, r.iid = inst.iid → r.ballot ≤ vb ∨
        inst.ballot ≤ r.ballot := by
    intro r hr hi
    rcases hseen.truth.gap r hr (hi.trans hiid'.symm) with hlow | hhigh
    · exact .inl (Nat.le_trans hlow hvb)
    · exact .inr (hballot' ▸ hhigh)
  have hempty (hnil : rec.value = []) : rec.valueBallot = 0 := by
    rcases hseen.truth.vote with ⟨h0, _⟩ | hsaved
    · exact h0
    · exact absurd hnil (hvotes _ _ hsaved).2.2
  have hproposed (hne : rec.value ≠ []) : proposed inst.iid rec.valueBallot rec.value := by
    rcases hseen.truth.vote with ⟨_, hnil⟩ | hsaved
    · exact absurd hnil hne
    · have hp := (hvotes _ _ hsaved).1
      rw [hiid'] at hp
      exact hp
  have htaken (hge : inst.valueBallot ≤ rec.valueBallot) (hne : rec.value ≠ []) :
      let inst' : Instance :=
        { inst with quorum := quorum, valueBallot := rec.valueBallot, value := some rec.value }
      inst'.quorum.CountedBy (PromisedTo acceptors inst') ∧ inst'.Rooted proposed := by
    refine ⟨?_, .inr ⟨rec.value, rfl, hproposed hne⟩⟩
    have hold : inst.quorum.CountedBy (PromisedTo acceptors
        { inst with
          quorum := quorum, valueBallot := rec.valueBallot, value := some rec.value }) := by
      apply hcount.mono
      rintro a ⟨hb, hgap⟩
      refine ⟨hb, fun r hr hi => ?_⟩
      rcases hgap r hr hi with hlow | hhigh
      · exact .inl (Nat.le_trans hlow hge)
      · exact .inr hhigh
    exact hold.add ⟨hbar, hnew _ (Nat.le_refl _)⟩ hadd
  rcases promiseValue_cases values { inst with quorum := quorum } rec.toPrepareAck with
    ⟨he, hsame⟩ | ⟨he, hne, hnone⟩ | ⟨old, he, hne, hold, hlt⟩
  · rw [he]
    refine ⟨Quorum.CountedBy.add (q := inst.quorum) hcount ⟨hbar, fun r hr hi => ?_⟩ hadd, hroot⟩
    rcases hsame with hnil | hvb
    · have h0 := hempty hnil
      have hpos := (hvotes _ _ hr).2.1
      rcases hnew rec.valueBallot (Nat.le_refl _) r hr hi with hlow | hhigh
      · omega
      · exact .inr hhigh
    · exact hnew inst.valueBallot hvb r hr hi
  · rw [he]
    apply htaken ?_ hne
    rcases hroot with h0 | ⟨value, hv, _⟩
    · omega
    · rw [show inst.value = none from hnone] at hv
      cases hv
  · rw [he]
    exact htaken (Nat.le_of_lt hlt) hne

theorem Grounded.move {acceptors : Nat → Logged σ} {proposed : Nat → Nat → Value → Prop}
    (hvotes : Votes acceptors proposed) {p p' : Proposer} (h : Grounded acceptors proposed p)
    {c : ProposerCall} {out : ProposerOutput} (hm : Move p c p' out)
    (hack : ∀ ack now, c = .receivePrepareAck ack now → PromiseOf acceptors ack) :
    Grounded acceptors proposed p' := by
  cases hm with
  | idle | propose => exact ⟨h.1, h.2, h.3⟩
  | prepare junk now =>
      refine ⟨fun inst hi => ?_, fun inst hi => ?_, h.3⟩
      · rcases List.mem_append.mp hi with hi | hi
        · exact h.promised inst hi
        · rw [List.mem_singleton.mp hi]
          exact Quorum.countedBy_clear _ _
      · rcases List.mem_append.mp hi with hi | hi
        · exact h.rootPrepare inst hi
        · rw [List.mem_singleton.mp hi]
          exact .inl rfl
  | promise ack now pre post inst quorum hsplit hfind hiid hballot hadd =>
      have hinst : inst ∈ p.prepareInstances := by simp [hsplit]
      obtain ⟨hcount, hroot⟩ := Grounded.promise hvotes (h.promised inst hinst)
        (h.rootPrepare inst hinst) (hack ack now rfl) hiid hballot hadd p.values
      exact ⟨forall_mem_split hsplit h.1 fun _ => hcount,
        forall_mem_split hsplit h.2 fun _ => hroot, h.3⟩
  | preempt ack now pre post inst hsplit hfind hlt =>
      exact ⟨forall_mem_split hsplit h.1 fun _ => Quorum.countedBy_clear _ _,
        forall_mem_split hsplit h.2 fun hi => hi, h.3⟩
  | accept inst rest value values hfront hreached hval =>
      have hinst : inst ∈ p.prepareInstances := by simp [hfront]
      have hrest (item : Instance) (hi : item ∈ rest) : item ∈ p.prepareInstances := by
        simp [hfront, hi]
      refine ⟨fun item hi => h.1 item (hrest item hi), fun item hi => h.2 item (hrest item hi),
        fun item hi => ?_⟩
      rcases List.mem_append.mp hi with hi | hi
      · exact h.rootAccept item hi
      · rw [List.mem_singleton.mp hi]
        rcases h.rootPrepare inst hinst with h0 | ⟨v, hv, hprop⟩
        · exact .inl h0
        · rcases hval with ⟨hsome, _⟩ | ⟨hnone, _⟩
          · obtain rfl : v = value := Option.some.inj (hv.symm.trans hsome)
            exact .inr ⟨v, rfl, hprop⟩
          · rw [hnone] at hv
            cases hv
  | ackCounted ack now pre post inst quorum hsplit hiid hballot hvb hadd hopen =>
      exact ⟨h.1, h.2, forall_mem_split hsplit h.3 fun hi => hi⟩
  | ackClosed ack now pre post inst quorum hsplit hiid hballot hvb hadd hreached =>
      exact ⟨h.1, h.2, fun item hi => h.3 item (mem_instanceRemove.mp hi).1⟩
  | ackPreempted ack now pre post inst hsplit hfind hne =>
      refine ⟨fun item hi => ?_, fun item hi => ?_,
        fun item hi => h.3 item (mem_instanceRemove.mp hi).1⟩
      · rcases List.mem_cons.mp hi with rfl | hi
        · exact Quorum.countedBy_clear _ _
        · exact h.promised item hi
      · rcases List.mem_cons.mp hi with rfl | hi
        · exact h.rootAccept inst (instanceFind_mem hfind)
        · exact h.rootPrepare item hi
  | timeoutPrepare iter pre post inst hsplit =>
      exact ⟨forall_mem_split hsplit h.1 fun hi => hi, forall_mem_split hsplit h.2 fun hi => hi,
        h.3⟩
  | timeoutAccept iter pre post inst value hsplit hv =>
      exact ⟨h.1, h.2, forall_mem_split hsplit h.3 fun hi => hi⟩

-- The votes of one instance.
def System.poll (s : System ι κ σ) (i : Nat) : Poll Nat Nat Value where
  voted a b v := s.Accepted a i b v
  barred a c := ∃ rec, records (s.acceptors a).store i = some rec ∧ c < rec.ballot

theorem System.Grows.poll {s s' : System ι κ σ} (hg : s.Grows s') (i : Nat) :
    (s.poll i).Extends (s'.poll i) := by
  constructor
  · rintro a c ⟨rec, hrec, hlt⟩
    obtain ⟨rec', hrec', hle⟩ := (hg a).ballot i rec hrec
    exact ⟨rec', hrec', Nat.lt_of_lt_of_le hlt hle⟩
  · intro a c w hw
    rcases (hg a).fresh _ hw with hold | hfresh
    · exact .inl hold
    · right
      rintro ⟨rec, hrec, hlt⟩
      have hle : rec.ballot ≤ c := hfresh rec hrec
      omega

structure Safe (cl : Cluster ι κ) (s : System ι κ σ) : Prop where
  grounded : ∀ p, Grounded s.acceptors s.Proposed (s.proposers p).state
  holds : ∀ p, (s.proposers p).state.Holds (· ≠ [])
  value : ∀ i b v, s.Proposed i b v → v ≠ []
  safe : ∀ i b v, s.Proposed i b v → SafeAt (IsMajority cl.acceptors) (s.poll i) b v

-- The choice of `proposer_accept`: a majority promised the front instance's ballot.
theorem Safe.choice {cl : Cluster ι κ} {s : System ι κ σ} (hreg : Regular cl s) (h : Safe cl s)
    {p : ι} {inst : Instance} (hm : inst ∈ (s.proposers p).state.prepareInstances)
    (hreached : quorumReached inst.quorum = true) {value : Value}
    (hvalue : inst.value = some value ∨ inst.value = none) :
    SafeAt (IsMajority cl.acceptors) (s.poll inst.iid) inst.ballot value := by
  have hsized := ((hreg.lawful p).booked.preparing inst hm).2
  obtain ⟨group, hmaj, hg⟩ := ((h.grounded p).promised inst hm).majority hsized hreached
  apply safeAt_of_promises (s.Proposed inst.iid) inst.valueBallot group hmaj
  · exact fun a c w hw => hreg.proposed_of_accepted hw
  · exact fun c w w' hw hw' => hreg.proposed_unique hw hw'
  · intro a ha c hc
    obtain ⟨⟨rec, hrec, hle⟩, _⟩ := hg a ha
    exact ⟨rec, hrec, Nat.lt_of_lt_of_le hc hle⟩
  · exact fun a ha c w hw => (hg a ha).2 _ hw rfl
  · rcases (h.grounded p).rootPrepare inst hm with h0 | ⟨v, hv, hprop⟩
    · right
      intro c w hw
      have := hreg.proposed_ballot hw
      omega
    · left
      obtain rfl : v = value := by
        rcases hvalue with hsome | hnone
        · exact Option.some.inj (hv.symm.trans hsome)
        · rw [hnone] at hv
          cases hv
      exact ⟨hprop, h.safe _ _ _ hprop⟩

-- A new proposal is made by the accept branch. A retransmission repeats an old one.
theorem Safe.proposed {cl : Cluster ι κ} {s : System ι κ σ} (hreg : Regular cl s) (h : Safe cl s)
    {p : ι} {c : ProposerCall} {p' : Proposer} {r : AcceptReq}
    (hm : Move (s.proposers p).state c p' (.acceptReq r)) :
    SafeAt (IsMajority cl.acceptors) (s.poll r.iid) r.ballot r.value := by
  cases hm with
  | accept inst rest value values hfront hreached hvalue =>
      have hinst : inst ∈ (s.proposers p).state.prepareInstances := by simp [hfront]
      exact h.choice hreg hinst hreached (hvalue.imp And.left And.left)
  | timeoutAccept iter pre post inst value hsplit hvalue =>
      have hinst : inst ∈ (s.proposers p).state.acceptInstances := by simp [hsplit]
      obtain ⟨⟨v, hv, hemit⟩, _⟩ := (hreg.lawful p).emitting.accepting inst hinst
      obtain rfl : v = value := Option.some.inj (hv.symm.trans hvalue)
      exact h.safe _ _ _ (hreg.proposed_of_emitted hemit)

-- A step of acceptors and learners only.
theorem Safe.quiet {cl : Cluster ι κ} {s s' : System ι κ σ} (h : Safe cl s) (hg : s.Grows s')
    (hp : ∀ i b v, s.Proposed i b v ↔ s'.Proposed i b v) (hsame : s'.proposers = s.proposers) :
    Safe cl s' := by
  refine ⟨fun p => ?_, hsame ▸ h.holds, fun i b v hv => h.value i b v ((hp i b v).mpr hv),
    fun i b v hv => ?_⟩
  · rw [hsame]
    exact (h.grounded p).mono hg fun i b v => (hp i b v).mp
  · exact (h.safe i b v ((hp i b v).mpr hv)).mono (hg.poll i)

-- In a safe state all choices for an instance agree.
theorem Safe.agree {cl : Cluster ι κ} {s : System ι κ σ} (hreg : Regular cl s) (h : Safe cl s)
    {i b b' : Nat} {v w : Value} (hv : s.ChosenAt cl i b v) (hw : s.ChosenAt cl i b' w) :
    v = w := by
  have hvotes (a c : Nat) (u : Value) (hu : (s.poll i).voted a c u) : s.Proposed i c u :=
    hreg.proposed_of_accepted hu
  have hunique (c : Nat) (u u' : Value) (hu : s.Proposed i c u) (hu' : s.Proposed i c u') :
      u = u' :=
    hreg.proposed_unique hu hu'
  exact Chosen.agree IsMajority.meet hvotes hunique (h.safe i) hv hw

variable [DecidableEq ι] [DecidableEq κ]

omit [DecidableEq ι] [DecidableEq κ] in
theorem Safe.start (cl : Cluster ι κ) :
    Safe cl (System.start cl : System ι κ σ) := by
  refine ⟨fun p => .new _ _ _ _, fun p => .new _ _ _, ?_, ?_⟩
  · rintro i b v ⟨src, hm⟩
    cases hm
  · rintro i b v ⟨src, hm⟩
    cases hm

-- A call of a proposer leaves its state to be grounded in the same acceptors.
theorem Safe.call {cl : Cluster ι κ} {s : System ι κ σ} (hreg : Regular cl s) (h : Safe cl s)
    {p : ι} {c : ProposerCall} {pr : ProposerProc} {out : ProposerOutput}
    (hoffer : c.offered s.net p = true)
    (hcall : (s.proposers p).call (cl.proposerConfig p) c = (pr, out))
    (hvalue : ∀ value, c = .propose value → value ≠ []) :
    Grounded s.acceptors s.Proposed pr.state ∧ pr.state.Holds (· ≠ []) ∧
      ∀ r, out = .acceptReq r →
        r.value ≠ [] ∧ SafeAt (IsMajority cl.acceptors) (s.poll r.iid) r.ballot r.value := by
  have hvotes : Votes s.acceptors s.Proposed := by
    intro a r hr
    have hp : s.Proposed r.iid r.ballot r.value := (hreg.honest.saved a r hr).2
    exact ⟨hp, hreg.proposed_ballot hp, h.value _ _ _ hp⟩
  have hack (ack : PrepareAck) (now : Timeval) (hc : c = .receivePrepareAck ack now) :
      PromiseOf s.acceptors ack := by
    rw [hc] at hoffer
    obtain ⟨rec, he, _, hseen⟩ := hreg.honest.prepareAck p ack (prepareAck_of_offered hoffer)
    exact ⟨⟨rec, he, hseen⟩⟩
  rcases (hreg.lawful p).booked.call_cases hcall with ⟨_, _, rfl, rfl⟩ | ⟨p', hm, rfl⟩
  · exact ⟨h.grounded p, h.holds p, nofun⟩
  · obtain ⟨hholds, hout⟩ := (h.holds p).move hm hvalue fun _ _ _ hne => hne
    exact ⟨(h.grounded p).move hvotes hm hack, hholds,
      fun r hr => ⟨hout r hr, h.proposed hreg (hr ▸ hm)⟩⟩

theorem Safe.step {cl : Cluster ι κ} {s s' : System ι κ σ} {e : Event ι κ} (hreg : Regular cl s)
    (h : Safe cl s) (hs : Steps cl s e s') (hrestart : e.noRestart) (hvalue : e.nonEmpty) :
    Safe cl s' := by
  have hgrow := hs.grows hreg.honest
  have hold {i b : Nat} {v : Value} (hp : s.Proposed i b v) : s'.Proposed i b v := hs.proposed hp
  have hquiet (hne : ∀ p c, e ≠ .call p c) (hsame : s'.proposers = s.proposers) : Safe cl s' :=
    h.quiet hgrow (fun i b v => ⟨hold, hs.proposed_before hreg.honest hne⟩) hsame
  cases hs with
  | handle | learn | checkHoles => exact hquiet nofun rfl
  | restart p => exact hrestart.elim
  | call p c pr out hlive hoffer hcall =>
      have hval (value : Value) (hc : c = .propose value) : value ≠ [] := by
        rw [hc] at hvalue
        exact hvalue
      obtain ⟨hground, hholds, hprop⟩ := h.call hreg hoffer hcall hval
      have hall (i b : Nat) (v : Value)
          (hp : System.Proposed { s with
            proposers := Function.update s.proposers p pr, net := s.net ++ out.packets p } i b v) :
          v ≠ [] ∧ SafeAt (IsMajority cl.acceptors) (s.poll i) b v := by
        rcases proposed_of_call hp with hp | hout
        · exact ⟨h.value i b v hp, h.safe i b v hp⟩
        · exact hprop _ hout
      refine ⟨?_, ?_, fun i b v hp => (hall i b v hp).1, fun i b v hp => (hall i b v hp).2⟩
      · have hground (q : ι) :
            Grounded s.acceptors s.Proposed (Function.update s.proposers p pr q).state :=
          (Function.forall_update_iff s.proposers fun _ (proc : ProposerProc) =>
            Grounded s.acceptors s.Proposed proc.state).mpr ⟨hground, fun q _ => h.grounded q⟩ q
        exact fun q => (hground q).mono hgrow fun i b v hp => hold hp
      · exact (Function.forall_update_iff s.proposers fun _ (proc : ProposerProc) =>
          proc.state.Holds (· ≠ [])).mpr ⟨hholds, fun q _ => h.holds q⟩

theorem Safe.of_reachable {cl : Cluster ι κ} {guard : System ι κ σ → Event ι κ → Prop}
    {s : System ι κ σ} (hr : (paxos σ cl).Reachable guard s)
    (hg : ∀ s e, guard s e → (e.noRestart ∧ e.noWrap s) ∧ e.nonEmpty) : Safe cl s := by
  refine hr.invariant (Safe cl) (.start cl) fun s e s' hr h hw hs => ?_
  have hreg := Regular.of_reachable hr fun s e h => (hg s e h).1
  obtain ⟨⟨hrestart, _⟩, hvalue⟩ := hg s e hw
  exact h.step hreg (step_steps hs) hrestart hvalue

-- Agreement, in every run without restarts and without a wrapped ballot or iid.
theorem chosen_values_agree (cl : Cluster ι κ) (s : System ι κ σ)
    (hr : (paxos σ cl).Reachable (fun s e => (e.noRestart ∧ e.noWrap s) ∧ e.nonEmpty) s)
    (i b b' : Nat) (v w : Value) (hv : s.ChosenAt cl i b v) (hw : s.ChosenAt cl i b' w) : v = w :=
  (Safe.of_reachable hr fun _ _ h => h).agree (Regular.of_reachable hr fun _ _ h => h.1) hv hw

-- Proposer `q` takes an instance over: acceptor 1 reports the value that acceptors 0
-- and 1 accepted, and acceptors 1 and 2 accept it again.
def takeover {ι : Type} (p q : ι) : List (Event ι Empty) :=
  [.call p (.propose [7]), .call q (.propose [8]),
    .call p (.prepare (fun _ => 0) ⟨0, 0⟩), .call q (.prepare (fun _ => 0) ⟨0, 0⟩),
    .handle 0 (.prepareReq p ⟨1, 10⟩), .handle 1 (.prepareReq p ⟨1, 10⟩),
    .call p (.receivePrepareAck ⟨0, 1, 10, 0, []⟩ ⟨0, 0⟩),
    .call p (.receivePrepareAck ⟨1, 1, 10, 0, []⟩ ⟨0, 0⟩), .call p .accept,
    .handle 0 (.acceptReq p ⟨1, 10, [7]⟩), .handle 1 (.acceptReq p ⟨1, 10, [7]⟩),
    .handle 1 (.prepareReq q ⟨1, 11⟩), .handle 2 (.prepareReq q ⟨1, 11⟩),
    .call q (.receivePrepareAck ⟨2, 1, 11, 0, []⟩ ⟨0, 0⟩),
    .call q (.receivePrepareAck ⟨1, 1, 11, 10, [7]⟩ ⟨0, 0⟩), .call q .accept,
    .handle 1 (.acceptReq q ⟨1, 11, [7]⟩), .handle 2 (.acceptReq q ⟨1, 11, [7]⟩)]

theorem chosen_values_agree_takeover : ∃ s : System (Fin 2) Empty BdbStorage,
    (paxos BdbStorage (.numbered Empty 2 3)).run (System.start (.numbered Empty 2 3))
        (takeover 0 1) = some s ∧
      s.ChosenAt (.numbered Empty 2 3) 1 10 [7] ∧ s.ChosenAt (.numbered Empty 2 3) 1 11 [7] ∧
      ∀ b w, s.ChosenAt (.numbered Empty 2 3) 1 b w → [7] = w := by
  obtain ⟨s, hrun, h0, h1, h1', h2⟩ : ∃ s : System (Fin 2) Empty BdbStorage,
      (paxos BdbStorage (.numbered Empty 2 3)).run (System.start (.numbered Empty 2 3))
        (takeover 0 1) = some s ∧
        s.Accepted 0 1 10 [7] ∧ s.Accepted 1 1 10 [7] ∧ s.Accepted 1 1 11 [7] ∧
        s.Accepted 2 1 11 [7] :=
    ⟨_, rfl, by decide, by decide, by decide, by decide⟩
  have hr := TransitionSystem.reachable_of_run
    (fun s e => (e.noRestart ∧ e.noWrap s) ∧ e.nonEmpty) (by decide) hrun
  have hv : s.ChosenAt (.numbered Empty 2 3) 1 10 [7] :=
    ⟨{0, 1}, ⟨by decide, by decide⟩, by simp [h0, h1]⟩
  have hv' : s.ChosenAt (.numbered Empty 2 3) 1 11 [7] :=
    ⟨{1, 2}, ⟨by decide, by decide⟩, by simp [h1', h2]⟩
  exact ⟨s, hrun, hv, hv', fun b w hw => chosen_values_agree _ s hr 1 10 b [7] w hv hw⟩

end LibPaxos
