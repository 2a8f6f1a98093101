import LibPaxos.Storage.Bdb
import LibPaxos.System.Theorems

namespace LibPaxos

open MapStorage

section

variable {ι κ σ : Type} [DecidableEq ι] [DecidableEq κ] [MapStorage σ]

variable {cl : Cluster ι κ} {guard : System ι κ σ → Event ι κ → Prop} {s : System ι κ σ}

-- A call of a proposer as a step of a run.
theorem exists_call (hr : (paxos σ cl).Reachable guard s) {p : ι} {c : ProposerCall}
    (hg : guard s (.call p c)) {pr : ProposerProc} {out : ProposerOutput}
    (hlive : (s.proposers p).halted = false) (hoffer : c.offered s.net p = true)
    (hcall : (s.proposers p).call (cl.proposerConfig p) c = (pr, out)) :
    ∃ s', (paxos σ cl).Reachable guard s' ∧ s'.proposers p = pr ∧
      (∀ q ≠ p, s'.proposers q = s.proposers q) ∧ s'.acceptors = s.acceptors ∧
      s'.net = s.net ++ out.packets p := by
  have hs := (Steps.call p c pr out hlive hoffer hcall).enabled
  refine ⟨_, hr.step hg hs, ?_, fun q hq => ?_, rfl, rfl⟩
  · exact Function.update_self p pr s.proposers
  · exact Function.update_of_ne hq pr s.proposers

-- The ballot of the acceptor's record, or 0.
def promised (s : Logged σ) (i : Nat) : Nat := ((records s.store i).map AcceptAck.ballot).getD 0

-- An acceptor that has accepted nothing in an instance handles a prepare request for it.
theorem exists_promise (hr : (paxos σ cl).Reachable guard s) {a : Nat} {src : ι} {i b : Nat}
    (hg : guard s (.handle a (.prepareReq src ⟨i, b⟩))) (ha : a < cl.acceptors)
    (hfresh : ∀ r ∈ (s.acceptors a).saved, r.iid ≠ i) (hm : .prepareReq src ⟨i, b⟩ ∈ s.net) :
    ∃ s', (paxos σ cl).Reachable guard s' ∧ s'.proposers = s.proposers ∧
      (∀ a' ≠ a, s'.acceptors a' = s.acceptors a') ∧
      (s'.acceptors a).saved = (s.acceptors a).saved ∧
      promised (s'.acceptors a) =
        Function.update (promised (s.acceptors a)) i (max b (promised (s.acceptors a) i)) ∧
      s'.net = s.net ++ [.prepareAck src ⟨a, i, max b (promised (s.acceptors a) i), 0, []⟩] := by
  have hvoter := (Honest.of_reachable hr).voter a
  obtain ⟨next, rec, he, _, hgrow, hseen, hid, hiid, hsaved', hstore, hcase⟩ :=
    hvoter.prepare ⟨i, b⟩
  have hmax : rec.ballot = max b (promised (s.acceptors a) i) := by
    unfold promised
    rcases hcase with h | ⟨h, hlt⟩
    · cases hold : records (s.acceptors a).store i with
      | none => simpa using h
      | some old =>
          obtain ⟨now, hnow, hle⟩ := hgrow.ballot i old hold
          rw [hstore, Function.update_self, Option.some.injEq] at hnow
          rw [← hnow, h] at hle
          simpa [h] using hle
    · simp only at h hlt
      simp [h, Nat.max_eq_right (Nat.le_of_lt hlt)]
  have hack : rec.toPrepareAck = ⟨a, i, max b (promised (s.acceptors a) i), 0, []⟩ := by
    rcases hseen.truth.vote with ⟨hvb, hvalue⟩ | h
    · rw [AcceptAck.toPrepareAck, hid, hiid, hmax, hvb, hvalue]
    · rw [hsaved'] at h
      exact absurd hiid (hfresh _ h)
  have hreply : handleReq (s.acceptors a) (.prepareReq src ⟨i, b⟩) =
      some (next, [(.prepareAck src rec.toPrepareAck : Packet ι κ)]) := by
    simp [handleReq, handlePrepareReq, he]
  have hs : Steps cl s (.handle a (.prepareReq src ⟨i, b⟩)) _ := .handle a _ next _ ha hm hreply
  have hself : Function.update s.acceptors a next a = next := Function.update_self ..
  refine ⟨_, hr.step hg hs.enabled, rfl, fun a' hne => ?_, ?_,
    funext fun j => ?_, by rw [hack]⟩
  · exact Function.update_of_ne hne next s.acceptors
  · dsimp only
    rw [hself, hsaved']
  · dsimp only
    rw [hself]
    by_cases hj : j = i
    · subst hj
      rw [Function.update_self]
      unfold promised at hmax ⊢
      rw [hstore, Function.update_self]
      exact hmax
    · rw [Function.update_of_ne hj]
      unfold promised
      rw [hstore, Function.update_of_ne hj]

-- An acceptor that has promised no higher ballot accepts a request and tells everyone.
theorem exists_accepted (hr : (paxos σ cl).Reachable guard s) {a : Nat} {src : ι} {i b : Nat}
    {v : Value} (hg : guard s (.handle a (.acceptReq src ⟨i, b, v⟩))) (ha : a < cl.acceptors)
    (hlow : promised (s.acceptors a) i ≤ b) (hm : .acceptReq src ⟨i, b, v⟩ ∈ s.net) :
    ∃ s', (paxos σ cl).Reachable guard s' ∧ s'.proposers = s.proposers ∧
      (s'.acceptors a).saved = (s.acceptors a).saved ++ [⟨i, b, v⟩] ∧
      promised (s'.acceptors a) = Function.update (promised (s.acceptors a)) i b ∧
      s'.net = s.net ++ [.acceptAck .everyone ⟨a, i, b, b, false, v⟩] := by
  have hvoter := (Honest.of_reachable hr).voter a
  obtain ⟨next, rec, he, _, _, _, _, _, hstore, hcase⟩ := hvoter.accept ⟨i, b, v⟩
  obtain ⟨hrec, hsaved⟩ : rec = acceptRecord a ⟨i, b, v⟩ ∧
      next.saved = (s.acceptors a).saved ++ [⟨i, b, v⟩] := by
    rcases hcase with h | ⟨hold, hlt, _⟩
    · exact h
    · simp only [promised] at hlow hold hlt
      rw [hold] at hlow
      exact absurd hlow (Nat.not_le_of_lt hlt)
  subst hrec
  have hreply : handleReq (s.acceptors a) (.acceptReq src ⟨i, b, v⟩) =
      some (next, [(.acceptAck .everyone (acceptRecord a ⟨i, b, v⟩) : Packet ι κ)]) := by
    simp [handleReq, handleAcceptReq, he, acceptRecord]
  have hs : Steps cl s (.handle a (.acceptReq src ⟨i, b, v⟩)) _ := .handle a _ next _ ha hm hreply
  have hself : Function.update s.acceptors a next a = next := Function.update_self ..
  refine ⟨_, hr.step hg hs.enabled, rfl, ?_, funext fun j => ?_, rfl⟩
  · dsimp only
    rw [hself, hsaved]
  · dsimp only
    rw [hself]
    unfold promised
    rw [hstore]
    by_cases hj : j = i
    · subst hj
      rw [Function.update_self, Function.update_self]
      rfl
    · rw [Function.update_of_ne hj, Function.update_of_ne hj]

end

theorem uint32_succ (k : Nat) : uint32 (uint32 k + 1) = uint32 (k + 1) := by
  unfold uint32
  omega

-- A lone proposer with id 0 of a deployment with one acceptor.
def soloProc (values submitted : List Value) (next : Nat)
    (preparing pending finished : List Instance) (emitted : List AcceptReq) : ProposerProc where
  state := ⟨0, 1, values, next, preparing, pending⟩
  halted := false
  submitted := submitted
  finished := finished
  emitted := emitted
  past := []

def soloInstance (iid : Nat) : Instance := instanceNew iid 10 1 (fun _ => 0) ⟨0, 0⟩

def soloPromised (iid : Nat) : Instance := { soloInstance iid with quorum := ⟨1, 1, 1, [1]⟩ }

def soloSent (iid : Nat) (v : Value) : Instance :=
  { soloPromised iid with value := some v, quorum := quorumClear ⟨1, 1, 1, [1]⟩ }

def soloClosed (iid : Nat) (v : Value) : Instance :=
  { soloSent iid v with quorum := ⟨1, 1, 1, [1]⟩ }

section

variable (values submitted : List Value) (next : Nat) (pending finished : List Instance)
variable (emitted : List AcceptReq)

theorem soloProc_propose (v : Value) :
    (soloProc values submitted next [] pending finished emitted).call {} (.propose v) =
      (soloProc (values ++ [v]) (submitted ++ [v]) next [] pending finished emitted,
        .none) := by
  simp [ProposerProc.call, proposerCall, soloProc, proposerPropose, ProposerProc.after,
    ProposerCall.submits, ProposerOutput.emits, ProposerOutput.finishes]

theorem soloProc_prepare :
    (soloProc values submitted next [] pending finished emitted).call {}
        (.prepare (fun _ => 0) ⟨0, 0⟩) =
      (soloProc values submitted (uint32 (next + 1)) [soloInstance (uint32 (next + 1))] pending
        finished emitted, .prepareReq ⟨uint32 (next + 1), 10⟩) := by
  have hballot (p : Proposer) (hp : p.id = 0) : proposerNextBallot p 0 = 10 := by
    simp [proposerNextBallot, hp, MAX_N_OF_PROPOSERS, uint32]
  simp [ProposerProc.call, proposerCall, soloProc, proposerPrepare, ProposerProc.after, hballot,
    soloInstance, instanceNew, ProposerCall.submits, ProposerOutput.emits,
    ProposerOutput.finishes]

theorem soloProc_promise (i : Nat) :
    (soloProc values submitted next [soloInstance i] pending finished emitted).call {}
        (.receivePrepareAck ⟨0, i, 10, 0, []⟩ ⟨0, 0⟩) =
      (soloProc values submitted next [soloPromised i] pending finished emitted, .none) := by
  have hfind : instanceFind [soloInstance i] i = some (soloInstance i) := by
    simp [instanceFind, soloInstance, instanceNew]
  have hadd : quorumAdd (soloInstance i).quorum 0 = .ok (⟨1, 1, 1, [1]⟩, true) := rfl
  have hwrite (inst : Instance) : instanceWrite [soloInstance i] i inst = [inst] := by
    simp [instanceWrite, soloInstance, instanceNew]
  have hack : proposerReceivePrepareAck ⟨0, 1, values, next, [soloInstance i], pending⟩
      ⟨0, i, 10, 0, []⟩ ⟨0, 0⟩ =
        .ok (⟨0, 1, values, next, [soloPromised i], pending⟩, none) := by
    simp [proposerReceivePrepareAck, hfind, hadd, hwrite, promiseValue, soloPromised,
      show (soloInstance i).ballot = 10 from rfl]
  simp [ProposerProc.call, proposerCall, soloProc, hack, Except.map, ProposerOutput.ofPrepare,
    ProposerProc.after, ProposerCall.submits, ProposerOutput.emits, ProposerOutput.finishes]

theorem soloProc_accept (i : Nat) (v : Value) :
    (soloProc (v :: values) submitted next [soloPromised i] pending finished emitted).call {}
        .accept =
      (soloProc values submitted next [] (pending ++ [soloSent i v]) finished
        (emitted ++ [⟨i, 10, v⟩]), .acceptReq ⟨i, 10, v⟩) := by
  have haccept : proposerAccept ⟨0, 1, v :: values, next, [soloPromised i], pending⟩ =
      (⟨0, 1, values, next, [], pending ++ [soloSent i v]⟩, some ⟨i, 10, v⟩) := rfl
  simp [ProposerProc.call, proposerCall, soloProc, haccept, ProposerOutput.ofAccept,
    ProposerProc.after, ProposerCall.submits, ProposerOutput.emits, ProposerOutput.finishes]

-- The ack of its one acceptor closes an instance, and the others stay.
theorem soloProc_ack (i : Nat) (v : Value) (hother : ∀ inst ∈ pending, inst.iid ≠ i) :
    (soloProc values submitted next [] (pending ++ [soloSent i v]) finished emitted).call {}
        (.receiveAcceptAck ⟨0, i, 10, 10, false, v⟩ ⟨0, 0⟩) =
      (soloProc values submitted next [] pending (finished ++ [soloClosed i v]) emitted,
        .closed (soloClosed i v)) := by
  have hiid : (soloSent i v).iid = i := rfl
  have hfind : instanceFind (pending ++ [soloSent i v]) i = some (soloSent i v) := by
    have hnone : pending.find? (fun inst => inst.iid = i) = none := by simpa using hother
    simp [instanceFind, List.find?_append, hnone, hiid]
  have hadd : quorumAdd (soloSent i v).quorum 0 = .ok (⟨1, 1, 1, [1]⟩, true) := rfl
  have hremove : instanceRemove (pending ++ [soloSent i v]) (soloClosed i v) = pending := by
    have hkeep : pending.filter (fun item => !instanceMatch (soloClosed i v) item) = pending :=
      List.filter_eq_self.mpr fun inst hm => by
        simp [instanceMatch, show (soloClosed i v).iid = i from rfl, Ne.symm (hother inst hm)]
    rw [instanceRemove, List.filter_append, hkeep]
    simp [instanceMatch, hiid, show (soloClosed i v).iid = i from rfl]
  have hack : proposerReceiveAcceptAck ⟨0, 1, values, next, [], pending ++ [soloSent i v]⟩
      ⟨0, i, 10, 10, false, v⟩ ⟨0, 0⟩ =
        .ok (⟨0, 1, values, next, [], pending⟩, .closed (soloClosed i v)) := by
    simp only [proposerReceiveAcceptAck, hfind, hadd, show (soloSent i v).ballot = 10 from rfl,
      if_true, ne_eq, not_true, if_false]
    exact congrArg (fun list => Except.ok (Proposer.mk 0 1 values next [] list, _)) hremove
  simp [ProposerProc.call, proposerCall, soloProc, hack, Except.map, ProposerOutput.ofResult,
    ProposerProc.after, ProposerCall.submits, ProposerOutput.emits, ProposerOutput.finishes]

end

-- Each lap submits a value, prepares an instance, collects the promise and sends
-- the value. The request of the first lap stays on the way, and every other lap ends
-- when its instance is closed.
section

variable {σ : Type} [MapStorage σ]

-- The state after `k` laps with the values `f 0`, ..., `f (k - 1)`.
structure Lap (f : Nat → Value) (k : Nat) (pending : List Instance) (s : System (Fin 1) Empty σ) :
    Prop where
  proc : ∃ finished, s.proposers 0 = soloProc [] ((List.range k).map f) (uint32 k) [] pending
    finished ((List.range k).map fun j => ⟨uint32 (j + 1), 10, f j⟩)
  saved : ∀ r ∈ (s.acceptors 0).saved, ∃ j, 0 < j ∧ j < k ∧ r.iid = uint32 (j + 1)
  low : ∀ i, promised (s.acceptors 0) i ≤ 10

theorem Lap.zero (f : Nat → Value) :
    Lap f 0 [] (System.start (.solo Empty) : System (Fin 1) Empty σ) := by
  refine ⟨⟨[], rfl⟩, fun r hm => (List.not_mem_nil hm).elim, fun i => ?_⟩
  have hrec := (MapStorage.open_eq (σ := σ) 0).2.2
  change ((records (storageOpen 0 : σ) i).map AcceptAck.ballot).getD 0 ≤ 10
  rw [hrec]
  exact Nat.zero_le 10

-- The next iid is new to the acceptor for 2 ^ 32 laps, and then it is that of the first.
theorem Lap.fresh {f : Nat → Value} {k : Nat} {pending : List Instance}
    {s : System (Fin 1) Empty σ} (h : Lap f k pending s) (hk : k ≤ 2 ^ 32) :
    ∀ r ∈ (s.acceptors 0).saved, r.iid ≠ uint32 (k + 1) := by
  intro r hm
  obtain ⟨j, hj, hlt, hiid⟩ := h.saved r hm
  rw [hiid, uint32, uint32]
  omega

theorem Lap.send {f : Nat → Value} {k : Nat} {pending : List Instance}
    {s : System (Fin 1) Empty σ}
    (hr : (paxos σ (.solo Empty)).Reachable (fun _ e => e.noRestart) s) (h : Lap f k pending s)
    (hk : k ≤ 2 ^ 32) :
    ∃ s', (paxos σ (.solo Empty)).Reachable (fun _ e => e.noRestart) s' ∧
      Lap f (k + 1) (pending ++ [soloSent (uint32 (k + 1)) (f k)]) s' := by
  have hfresh := h.fresh hk
  obtain ⟨⟨finished, hproc⟩, hsaved, hlow⟩ := h
  obtain ⟨s1, hr1, hp1, _, ha1, _⟩ := exists_call hr (c := .propose (f k)) trivial
    (by rw [hproc]; rfl) rfl (hproc ▸ soloProc_propose ..)
  obtain ⟨s2, hr2, hp2, _, ha2, hn2⟩ := exists_call hr1
    (c := .prepare (fun _ => 0) ⟨0, 0⟩) trivial (by rw [hp1]; rfl) rfl (hp1 ▸ soloProc_prepare ..)
  rw [uint32_succ] at hp2 hn2
  have hm2 : .prepareReq 0 ⟨uint32 (k + 1), 10⟩ ∈ s2.net := by
    rw [hn2]
    exact List.mem_append_right _ (List.mem_singleton.mpr rfl)
  obtain ⟨s3, hr3, hp3, _, hsaved3, hpromised, hn3⟩ := exists_promise (a := 0) hr2
    trivial (by decide) (by rw [ha2, ha1]; exact hfresh) hm2
  rw [ha2, ha1] at hsaved3
  rw [ha2, ha1, Nat.max_eq_left (hlow _)] at hpromised hn3
  rw [← hp3] at hp2
  obtain ⟨s4, hr4, hp4, _, ha4, _⟩ := exists_call hr3
    (c := .receivePrepareAck ⟨0, uint32 (k + 1), 10, 0, []⟩ ⟨0, 0⟩) trivial
    (by rw [hp2]; rfl) (by simp [ProposerCall.offered, hn3]) (hp2 ▸ soloProc_promise ..)
  obtain ⟨s5, hr5, hp5, _, ha5, _⟩ := exists_call hr4 (c := .accept) trivial (by rw [hp4]; rfl) rfl
    (hp4 ▸ soloProc_accept ..)
  refine ⟨s5, hr5, ⟨finished, ?_⟩, fun r hm => ?_, fun i => ?_⟩
  · rw [hp5, List.range_succ, List.map_append, List.map_append]
    rfl
  · rw [ha5, ha4, hsaved3] at hm
    obtain ⟨j, hj, hlt, hiid⟩ := hsaved r hm
    exact ⟨j, hj, by omega, hiid⟩
  · rw [ha5, ha4, hpromised]
    by_cases hi : i = uint32 (k + 1)
    · rw [hi, Function.update_self]
    · rw [Function.update_of_ne hi]
      exact hlow i

theorem Lap.sent {f : Nat → Value} {k : Nat} {pending : List Instance}
    {s : System (Fin 1) Empty σ}
    (hr : (paxos σ (.solo Empty)).Reachable (fun _ e => e.noRestart) s) (h : Lap f k pending s)
    {j : Nat} (hj : j < k) : .acceptReq 0 ⟨uint32 (j + 1), 10, f j⟩ ∈ s.net := by
  obtain ⟨finished, hproc⟩ := h.proc
  refine ((Honest.of_reachable hr).request 0 _).mpr ⟨_, List.mem_cons_self, ?_⟩
  rw [hproc]
  exact List.mem_map.mpr ⟨j, List.mem_range.mpr hj, rfl⟩

-- The acceptor accepts what was sent last, and its ack closes the instance.
theorem Lap.close {f : Nat → Value} {k : Nat} {pending : List Instance}
    {s : System (Fin 1) Empty σ}
    (hr : (paxos σ (.solo Empty)).Reachable (fun _ e => e.noRestart) s)
    (h : Lap f (k + 1) (pending ++ [soloSent (uint32 (k + 1)) (f k)]) s) (hk : 0 < k)
    (hother : ∀ inst ∈ pending, inst.iid ≠ uint32 (k + 1)) :
    ∃ s', (paxos σ (.solo Empty)).Reachable (fun _ e => e.noRestart) s' ∧
      Lap f (k + 1) pending s' := by
  have hm := h.sent hr (Nat.lt_succ_self k)
  obtain ⟨⟨finished, hproc⟩, hsaved, hlow⟩ := h
  obtain ⟨s1, hr1, hp1, hsaved1, hpromised, hn1⟩ := exists_accepted (a := 0) hr trivial
    (by decide) (hlow _) hm
  rw [← hp1] at hproc
  obtain ⟨s2, hr2, hp2, _, ha2, _⟩ := exists_call hr1
    (c := .receiveAcceptAck ⟨0, uint32 (k + 1), 10, 10, false, f k⟩ ⟨0, 0⟩) trivial
    (by rw [hproc]; rfl) (by simp [ProposerCall.offered, hn1])
    (hproc ▸ soloProc_ack _ _ _ _ _ _ _ _ hother)
  refine ⟨s2, hr2, ⟨_, hp2⟩, fun r hr => ?_, fun i => ?_⟩
  · rw [ha2, hsaved1] at hr
    rcases List.mem_append.mp hr with hr | hr
    · exact hsaved r hr
    · rw [List.mem_singleton.mp hr]
      exact ⟨k, hk, Nat.lt_succ_self k, rfl⟩
  · rw [ha2, hpromised]
    by_cases hi : i = uint32 (k + 1)
    · rw [hi, Function.update_self]
    · rw [Function.update_of_ne hi]
      exact hlow i

-- At no time are more than two instances open.
theorem exists_lap (f : Nat → Value) (k : Nat) (hk : k + 1 ≤ 2 ^ 32) :
    ∃ s : System (Fin 1) Empty σ, (paxos σ (.solo Empty)).Reachable (fun _ e => e.noRestart) s ∧
      Lap f (k + 1) [soloSent 1 (f 0)] s := by
  induction k with
  | zero => exact (Lap.zero f).send .init (Nat.zero_le _)
  | succ k ih =>
      obtain ⟨s, hr, h⟩ := ih (by omega)
      obtain ⟨s1, hr1, h1⟩ := h.send hr (by omega)
      refine h1.close hr1 (Nat.succ_pos k) fun inst hm => ?_
      rw [List.mem_singleton.mp hm]
      change 1 ≠ uint32 (k + 1 + 1)
      rw [uint32]
      omega

-- Lap 2 ^ 32 + 1 prepares instance 1 for the second time.
theorem exists_iid_reused (f : Nat → Value) :
    ∃ (s : System (Fin 1) Empty σ) (pending : List Instance),
      (paxos σ (.solo Empty)).Reachable (fun _ e => e.noRestart) s ∧
      Lap f (2 ^ 32 + 1) pending s ∧
      .acceptReq 0 ⟨1, 10, f 0⟩ ∈ s.net ∧ .acceptReq 0 ⟨1, 10, f (2 ^ 32)⟩ ∈ s.net := by
  obtain ⟨s, hr, h⟩ := exists_lap (σ := σ) f (2 ^ 32 - 1) (by decide)
  obtain ⟨s', hr', h'⟩ := h.send hr (by decide)
  have hwrap : uint32 (2 ^ 32 + 1) = 1 := by decide
  have hlast := h'.sent hr' (j := 2 ^ 32) (by decide)
  rw [hwrap] at hlast
  exact ⟨s', _, hr', h', h'.sent hr' (Nat.succ_pos _), hlast⟩

end

-- A proposer that prepares instance 1 with three acceptors and has no promise yet.
def contender (id ballot : Nat) (values : List Value) : ProposerProc where
  state := ⟨id, 3, values, 1, [instanceNew 1 ballot 3 (fun _ => 0) ⟨0, 0⟩], []⟩
  halted := false
  submitted := values
  finished := []
  emitted := []
  past := []

theorem contender_preempt (id : Nat) {b c : Nat} (values : List Value) (hb : 0 < b) (hc : b < c) :
    (contender id b values).call {} (.receivePrepareAck ⟨0, 1, c, 0, []⟩ ⟨0, 0⟩) =
      (contender id (uint32 (10 + b)) values, .prepareReq ⟨1, uint32 (10 + b)⟩) := by
  have hnext (p : Proposer) : proposerNextBallot p b = uint32 (10 + b) := if_pos hb
  have hclear : quorumClear (quorumInit 3 fun _ => 0) = quorumInit 3 fun _ => 0 := rfl
  have hnl : ¬c < b := by omega
  have hne : c ≠ b := by omega
  simp [ProposerProc.call, proposerCall, contender, proposerReceivePrepareAck, instanceFind,
    instanceNew, instanceWrite, hnl, hne, preparePreempt, hnext, hclear, Except.map,
    ProposerOutput.ofPrepare, ProposerProc.after, ProposerCall.submits, ProposerOutput.emits,
    ProposerOutput.finishes]

-- Proposers `p` and `q` outbid each other at acceptor 0, while acceptors 1 and 2
-- have only heard of proposer 4.
section

variable {σ : Type} [MapStorage σ]

def quintet : Cluster (Fin 5) Empty := .numbered Empty 5 3

structure Standoff (p q : Fin 5) (b c : Nat) (v w : List Value) (s : System (Fin 5) Empty σ) :
    Prop where
  low : s.proposers p = contender p b v
  high : s.proposers q = contender q c w
  saved : ∀ a < 3, (s.acceptors a).saved = []
  top : promised (s.acceptors 0) 1 = c
  rest : ∀ a ∈ [1, 2], promised (s.acceptors a) 1 = 14
  asked : .prepareReq p ⟨1, b⟩ ∈ s.net
  askedHigh : .prepareReq q ⟨1, c⟩ ∈ s.net
  rival : .acceptReq 4 ⟨1, 14, [8]⟩ ∈ s.net

theorem Standoff.fresh {p q : Fin 5} {b c : Nat} {v w : List Value} {s : System (Fin 5) Empty σ}
    (h : Standoff p q b c v w s) (a : Nat) (ha : a < 3) :
    ∀ r ∈ (s.acceptors a).saved, r.iid ≠ 1 := by
  rw [h.saved a ha]
  exact fun r hm => (List.not_mem_nil hm).elim

-- The lower one learns that it is outbid.
theorem Standoff.outbid {p q : Fin 5} {b c : Nat} {v w : List Value}
    {s : System (Fin 5) Empty σ}
    (hr : (paxos σ quintet).Reachable (fun s e => e.noRestart ∧ e.noIidWrap s) s)
    (h : Standoff p q b c v w s) (hpq : p ≠ q) (hb : 0 < b) (hc : b < c) :
    ∃ s', (paxos σ quintet).Reachable (fun s e => e.noRestart ∧ e.noIidWrap s) s' ∧
      Standoff p q (uint32 (10 + b)) c v w s' ∧ .prepareAck p ⟨0, 1, c, 0, []⟩ ∈ s'.net := by
  obtain ⟨s1, hr1, hp1, hother, hsaved, hpromised, hn1⟩ :=
    exists_promise hr ⟨trivial, trivial⟩ (by decide) (h.fresh 0 (by decide)) h.asked
  rw [h.top, Nat.max_eq_right (Nat.le_of_lt hc)] at hpromised hn1
  have hack : .prepareAck p ⟨0, 1, c, 0, []⟩ ∈ s1.net := by simp [hn1]
  have hlow : s1.proposers p = contender p b v := hp1 ▸ h.low
  obtain ⟨s2, hr2, hp2, hq2, ha2, hn2⟩ := exists_call hr1
    (c := .receivePrepareAck ⟨0, 1, c, 0, []⟩ ⟨0, 0⟩) ⟨trivial, trivial⟩ (by rw [hlow]; rfl)
    (by simpa [ProposerCall.offered] using hack) (hlow ▸ contender_preempt p v hb hc)
  have hkept {packet : Packet (Fin 5) Empty} (hm : packet ∈ s.net) : packet ∈ s2.net := by
    rw [hn2, hn1]
    exact List.mem_append_left _ (List.mem_append_left _ hm)
  refine ⟨s2, hr2, ⟨hp2, ?_, fun a ha => ?_, ?_, fun a ha => ?_, ?_, hkept h.askedHigh,
    hkept h.rival⟩, ?_⟩
  · rw [hq2 q hpq.symm, hp1]
    exact h.high
  · rw [ha2]
    by_cases h0 : a = 0
    · rw [h0, hsaved]
      exact h.saved 0 (by decide)
    · rw [hother a h0]
      exact h.saved a ha
  · rw [ha2, hpromised, Function.update_self]
  · rw [ha2, hother a (by rintro rfl; simp at ha)]
    exact h.rest a ha
  · rw [hn2]
    exact List.mem_append_right _ (List.mem_singleton.mpr rfl)
  · rw [hn2]
    exact List.mem_append_left _ hack

-- Its next ballot outbids the other one.
theorem Standoff.raise {p q : Fin 5} {b c : Nat} {v w : List Value} {s : System (Fin 5) Empty σ}
    (hr : (paxos σ quintet).Reachable (fun s e => e.noRestart ∧ e.noIidWrap s) s)
    (h : Standoff p q b c v w s) (hc : c < b) :
    ∃ s', (paxos σ quintet).Reachable (fun s e => e.noRestart ∧ e.noIidWrap s) s' ∧
      Standoff q p c b w v s' := by
  obtain ⟨s1, hr1, hp1, hother, hsaved, hpromised, hn1⟩ :=
    exists_promise hr ⟨trivial, trivial⟩ (by decide) (h.fresh 0 (by decide)) h.asked
  rw [h.top, Nat.max_eq_left (Nat.le_of_lt hc)] at hpromised
  have hkept {packet : Packet (Fin 5) Empty} (hm : packet ∈ s.net) : packet ∈ s1.net := by
    rw [hn1]
    exact List.mem_append_left _ hm
  refine ⟨s1, hr1, hp1 ▸ h.high, hp1 ▸ h.low, fun a ha => ?_, ?_, fun a ha => ?_,
    hkept h.askedHigh, hkept h.asked, hkept h.rival⟩
  · by_cases h0 : a = 0
    · rw [h0, hsaved]
      exact h.saved 0 (by decide)
    · rw [hother a h0]
      exact h.saved a ha
  · rw [hpromised, Function.update_self]
  · rw [hother a (by rintro rfl; simp at ha)]
    exact h.rest a ha

theorem Standoff.round {b : Nat} {v w : List Value} {s : System (Fin 5) Empty σ}
    (hr : (paxos σ quintet).Reachable (fun s e => e.noRestart ∧ e.noIidWrap s) s)
    (h : Standoff 0 1 b (b + 1) v w s) (hb : 0 < b) (hw : b + 11 < 2 ^ 32) :
    ∃ s', (paxos σ quintet).Reachable (fun s e => e.noRestart ∧ e.noIidWrap s) s' ∧
      Standoff 0 1 (b + 10) (b + 10 + 1) v w s' := by
  have hlow : uint32 (10 + b) = b + 10 := by rw [uint32_of_lt (by omega), Nat.add_comm]
  have hhigh : uint32 (10 + (b + 1)) = b + 10 + 1 := by
    rw [uint32_of_lt (by omega)]
    omega
  obtain ⟨s1, hr1, h1, _⟩ := h.outbid hr (by decide) hb (by omega)
  rw [hlow] at h1
  obtain ⟨s2, hr2, h2⟩ := h1.raise hr1 (by omega)
  obtain ⟨s3, hr3, h3, _⟩ := h2.outbid hr2 (by decide) (by omega) (by omega)
  rw [hhigh] at h3
  exact h3.raise hr3 (by omega)

end

-- Proposer 4 sends its value at ballot 14. Proposers 0 and 1 prepare the same
-- instance, and acceptor 0 promises to the latter.
def standoffStart : List (Event (Fin 5) Empty) :=
  [.call 4 (.propose [8]), .call 4 (.prepare (fun _ => 0) ⟨0, 0⟩),
    .handle 1 (.prepareReq 4 ⟨1, 14⟩), .handle 2 (.prepareReq 4 ⟨1, 14⟩),
    .call 4 (.receivePrepareAck ⟨1, 1, 14, 0, []⟩ ⟨0, 0⟩),
    .call 4 (.receivePrepareAck ⟨2, 1, 14, 0, []⟩ ⟨0, 0⟩), .call 4 .accept,
    .call 0 (.propose [7]), .call 0 (.prepare (fun _ => 0) ⟨0, 0⟩),
    .call 1 (.prepare (fun _ => 0) ⟨0, 0⟩), .handle 0 (.prepareReq 1 ⟨1, 11⟩)]

theorem exists_standoff (k : Nat) (hk : 10 * k + 11 < 2 ^ 32) :
    ∃ s : System (Fin 5) Empty BdbStorage,
      (paxos BdbStorage quintet).Reachable (fun s e => e.noRestart ∧ e.noIidWrap s) s ∧
        Standoff 0 1 (10 * k + 10) (10 * k + 10 + 1) [[7]] [] s := by
  induction k with
  | zero =>
      obtain ⟨s, hrun, h⟩ : ∃ s : System (Fin 5) Empty BdbStorage,
          (paxos BdbStorage quintet).run (System.start quintet) standoffStart = some s ∧
            Standoff 0 1 10 11 [[7]] [] s :=
        ⟨_, rfl, rfl, rfl, by decide, by decide, by decide, by decide, by decide, by decide⟩
      exact ⟨s, TransitionSystem.reachable_of_run _ (by decide) hrun, h⟩
  | succ k ih =>
      obtain ⟨s, hr, h⟩ := ih (by omega)
      exact h.round hr (by omega) (by omega)

-- The next ballot of proposer 0 wraps, and the one after that is proposer 4's.
theorem exists_ballot_reused : ∃ s : System (Fin 5) Empty BdbStorage,
    (paxos BdbStorage quintet).Reachable (fun s e => e.noRestart ∧ e.noIidWrap s) s ∧
      .acceptReq 0 ⟨1, 14, [7]⟩ ∈ s.net ∧ .acceptReq 4 ⟨1, 14, [8]⟩ ∈ s.net := by
  obtain ⟨s, hr, h⟩ := exists_standoff 429496728 (by decide)
  obtain ⟨s1, hr1, h1, hack⟩ := h.outbid hr (by decide) (by decide) (by decide)
  rw [show uint32 (10 + (10 * 429496728 + 10)) = 4 by decide] at h1
  -- The same ack outbids it again.
  obtain ⟨s2, hr2, hp2, _, ha2, hn2⟩ := exists_call hr1
    (c := .receivePrepareAck ⟨0, 1, 10 * 429496728 + 10 + 1, 0, []⟩ ⟨0, 0⟩) ⟨trivial, trivial⟩
    (by rw [h1.low]; rfl) (by simpa [ProposerCall.offered] using hack)
    (h1.low ▸ contender_preempt _ _ (by decide) (by decide))
  have hasked : .prepareReq 0 ⟨1, 14⟩ ∈ s2.net := by
    rw [hn2]
    exact List.mem_append_right _ (List.mem_singleton.mpr rfl)
  have hfar (a : Nat) (ha : a ∈ [1, 2]) : promised (s2.acceptors a) 1 = 14 := by
    rw [ha2]
    exact h1.rest a ha
  have hempty (a : Nat) (ha : a < 3) : ∀ r ∈ (s2.acceptors a).saved, r.iid ≠ 1 := by
    rw [ha2]
    exact h1.fresh a ha
  obtain ⟨s3, hr3, hp3, hother3, _, _, hn3⟩ :=
    exists_promise (a := 1) hr2 ⟨trivial, trivial⟩ (by decide) (hempty 1 (by decide)) hasked
  rw [hfar 1 (by simp)] at hn3
  have h32 := hother3 2 (by decide)
  obtain ⟨s4, hr4, hp4, _, _, _, hn4⟩ :=
    exists_promise (a := 2) hr3 ⟨trivial, trivial⟩ (by decide) (h32 ▸ hempty 2 (by decide))
      (by rw [hn3]; exact List.mem_append_left _ hasked)
  rw [h32, hfar 2 (by simp)] at hn4
  rw [← hp3, ← hp4] at hp2
  obtain ⟨s5, hr5, hp5, _, _, hn5⟩ := exists_call hr4
    (c := .receivePrepareAck ⟨1, 1, 14, 0, []⟩ ⟨0, 0⟩) ⟨trivial, trivial⟩ (by rw [hp2]; rfl)
    (by simp [ProposerCall.offered, hn4, hn3]) (by rw [hp2])
  obtain ⟨s6, hr6, hp6, _, _, hn6⟩ := exists_call hr5
    (c := .receivePrepareAck ⟨2, 1, 14, 0, []⟩ ⟨0, 0⟩) ⟨trivial, trivial⟩ (by rw [hp5]; rfl)
    (by simp [ProposerCall.offered, hn5, hn4]) (by rw [hp5])
  obtain ⟨s7, hr7, _, _, _, hn7⟩ := exists_call hr6 (c := .accept) ⟨trivial, trivial⟩
    (by rw [hp6]; rfl) rfl (by rw [hp6])
  refine ⟨s7, hr7, ?_, ?_⟩
  · rw [hn7]
    exact List.mem_append_right _ (List.mem_singleton.mpr rfl)
  · simp [hn7, hn6, hn5, hn4, hn3, hn2, h1.rival]

end LibPaxos
