import LibPaxos.Deployment.Pipes

namespace LibPaxos

open Wire

variable {ι κ σ : Type}

-- The connections an acceptor writes its broadcasts to.
def Status.held : Status → Bool
  | .accepted => true
  | .broken => true
  | _ => false

-- The table of an acceptor lists its connections: each one that was accepted and not
-- freed, once.
def Deployment.Listed (d : Deployment ι κ σ) (a : Nat) (list : List (Connection ι κ)) : Prop :=
  (d.acceptors a).bevs.Deque (list.map some) ∧ list.Nodup ∧
    ∀ c, c ∈ list ↔ c.acceptor = a ∧ (d.status c).held = true

-- Most calls leave the tables and the connections alone.
structure Deployment.SameTables (d d' : Deployment ι κ σ) : Prop where
  bevs : ∀ a, (d'.acceptors a).bevs = (d.acceptors a).bevs
  status : d'.status = d.status

theorem Deployment.SameTables.refl (d : Deployment ι κ σ) : d.SameTables d := ⟨fun _ => rfl, rfl⟩

theorem Deployment.SameTables.trans {d d' d'' : Deployment ι κ σ} (h : d.SameTables d')
    (h' : d'.SameTables d'') : d.SameTables d'' :=
  ⟨fun a => (h'.bevs a).trans (h.bevs a), h'.status.trans h.status⟩

theorem Deployment.Listed.of_same {d d' : Deployment ι κ σ} {a : Nat}
    {list : List (Connection ι κ)} (h : d.Listed a list) (hsame : d.SameTables d') :
    d'.Listed a list := by
  rw [Deployment.Listed, hsame.bevs, hsame.status]
  exact h

namespace Deployment

variable {d d' : Deployment ι κ σ}

theorem sameTables_setAcceptor (d : Deployment ι κ σ) (a : Nat) (state : Except FrameFault σ) :
    d.SameTables (d.setAcceptor a state) := by
  refine ⟨fun b => ?_, rfl⟩
  dsimp only [setAcceptor]
  by_cases hb : b = a
  · subst hb
    rw [Function.update_self]
  · rw [Function.update_of_ne hb]

theorem sameTables_foldl {α : Type} {f : Deployment ι κ σ → α → Deployment ι κ σ}
    (hf : ∀ (d : Deployment ι κ σ) x, d.SameTables (f d x)) (xs : List α)
    (d : Deployment ι κ σ) : d.SameTables (xs.foldl f d) := by
  induction xs generalizing d with
  | nil => exact .refl d
  | cons x xs ih => exact (hf d x).trans (ih (f d x))

variable [DecidableEq ι] [DecidableEq κ]

theorem sameTables_setInput (d : Deployment ι κ σ) (way : Way ι κ) (input : Evbuffer) :
    d.SameTables (d.setInput way input) := ⟨fun _ => rfl, rfl⟩

omit [DecidableEq κ] in
theorem sameTables_setProposer (d : Deployment ι κ σ) (p : ι)
    (state : Except FrameFault Proposer) : d.SameTables (d.setProposer p state) :=
  ⟨fun _ => rfl, rfl⟩

theorem sameTables_sendAll (cl : Layout ι κ) (peer : Peer ι κ) (frames : List Frame)
    (d : Deployment ι κ σ) : d.SameTables (d.sendAll cl peer frames) := by
  apply sameTables_foldl
  intro d f
  apply sameTables_foldl
  intro d i
  exact ⟨fun _ => rfl, rfl⟩

-- The pipes after a frame is written to the acceptor's end of some connections.
def writeTo (list : List (Connection ι κ)) (f : Frame) (pipes : Way ι κ → Pipe) : Way ι κ → Pipe
  | .down c => if c ∈ list then (pipes (.down c)).write f else pipes (.down c)
  | way => pipes way

theorem writeTo_nil (f : Frame) (pipes : Way ι κ → Pipe) : writeTo [] f pipes = pipes := by
  funext way
  cases way <;> simp [writeTo]

-- One more connection that is not among them.
theorem writeTo_append {list : List (Connection ι κ)} {c : Connection ι κ} (hc : c ∉ list)
    (f : Frame) (pipes : Way ι κ → Pipe) :
    Function.update (writeTo list f pipes) (.down c) ((writeTo list f pipes (.down c)).write f) =
      writeTo (list ++ [c]) f pipes := by
  funext way
  cases way with
  | up c' => simp [writeTo]
  | client p number => simp [writeTo]
  | down c' =>
      by_cases he : c' = c
      · subst he
        rw [Function.update_self]
        simp [writeTo, hc]
      · rw [Function.update_of_ne (fun h => he (Way.down.inj h))]
        simp [writeTo, he]

-- The loop over the table writes the frame to each connection in it, once.
theorem sendToBevs_listed {a : Nat} {list : List (Connection ι κ)} (h : d.Listed a list)
    (f : Frame) : d.sendToBevs (d.acceptors a).bevs f =
      .ok { d with pipes := writeTo list f d.pipes } := by
  obtain ⟨hdeque, hnodup, _⟩ := h
  obtain ⟨d', hrun, hd'⟩ := foldlM_range_invariant
    (f := sendToBev (d.acceptors a).bevs f)
    (fun k d' => d' = { d with pipes := writeTo (list.take k) f d.pipes })
    (n := carrayCount (d.acceptors a).bevs) (s := d) (by rw [List.take_zero, writeTo_nil]) (by
      rintro k hk _ rfl
      obtain ⟨item, hitem, hat⟩ := hdeque.at_of_lt hk
      rw [List.getElem?_map] at hitem
      obtain ⟨c, hc, rfl⟩ := Option.map_eq_some_iff.mp hitem
      have hnew : c ∉ list.take k := by
        obtain ⟨hlt, rfl⟩ := List.getElem?_eq_some_iff.mp hc
        intro hm
        obtain ⟨i, hi, he⟩ := List.mem_take_iff_getElem.mp hm
        have hsame : i = k := (hnodup.getElem_inj_iff).mp he
        omega
      refine ⟨Deployment.write { d with pipes := writeTo (list.take k) f d.pipes } (.down c) f,
        by simp only [sendToBev, hat, ok_bind], ?_⟩
      rw [List.take_add_one, hc, Option.toList_some, ← writeTo_append hnew]
      rfl)
  rw [carrayCount, hdeque.count, List.length_map, List.take_length] at hd'
  rw [← hd']
  exact hrun

variable {cl : Layout ι κ}

omit [DecidableEq ι] [DecidableEq κ] in
theorem listed_start [Storage σ] (cl : Layout ι κ) (a : Nat) :
    (start cl : Deployment ι κ σ).Listed a [] :=
  ⟨.new (by decide), List.nodup_nil, by simp [start, Status.held]⟩

theorem listed_onAccept (h : ∀ a, ∃ list, d.Listed a list) {c : Connection ι κ}
    (hstep : d.onAccept cl c = some d') (a : Nat) : ∃ list, d'.Listed a list := by
  unfold onAccept at hstep
  split_ifs at hstep with hg
  obtain ⟨list, hdeque, hnodup, hmem⟩ := h c.acceptor
  obtain ⟨bevs, hpush, hbevs⟩ := hdeque.pushBack (some c)
  rw [carrayPushBack, hpush] at hstep
  cases hstep
  have hnew : c ∉ list := by
    rw [hmem, hg.2]
    simp [Status.held]
  by_cases ha : a = c.acceptor
  · subst ha
    refine ⟨list ++ [c], ?_, ?_, fun c' => ?_⟩
    · simpa [setBevs, setStatus] using hbevs
    · exact List.nodup_append.mpr ⟨hnodup, List.nodup_singleton c, by
        intro x hx y hy
        cases List.mem_singleton.mp hy
        exact fun he => hnew (he ▸ hx)⟩
    · by_cases hc : c' = c
      · subst hc
        simp [setStatus, Status.held]
      · simp [setStatus, setBevs, hc, hmem]
  · obtain ⟨others, hdeque', hnodup', hmem'⟩ := h a
    refine ⟨others, ?_, hnodup', fun c' => ?_⟩
    · simpa [setBevs, setStatus, ha] using hdeque'
    · by_cases hc : c' = c
      · subst hc
        simp [hmem', Ne.symm ha]
      · simp [setStatus, setBevs, hc, hmem']

theorem listed_onError (h : ∀ a, ∃ list, d.Listed a list) {c : Connection ι κ} {eof : Bool}
    (hstep : d.onError c eof = some d') (a : Nat) : ∃ list, d'.Listed a list := by
  unfold onError at hstep
  split_ifs at hstep with hg
  · obtain ⟨list, hdeque, hnodup, hmem⟩ := h c.acceptor
    obtain ⟨bevs, hreject, hbevs⟩ := hdeque.map matchBufferevent c 0
    rw [carrayReject, hreject] at hstep
    cases hstep
    rw [filter_matchBufferevent] at hbevs
    by_cases ha : a = c.acceptor
    · subst ha
      refine ⟨list.filter (· ≠ c), ?_, hnodup.filter _, fun c' => ?_⟩
      · simpa [setBevs, setStatus] using hbevs
      · by_cases hc : c' = c
        · subst hc
          simp [setStatus, Status.held]
        · simp [setStatus, setBevs, hc, hmem]
    · obtain ⟨others, hdeque', hnodup', hmem'⟩ := h a
      refine ⟨others, ?_, hnodup', fun c' => ?_⟩
      · simpa [setBevs, setStatus, ha] using hdeque'
      · by_cases hc : c' = c
        · subst hc
          simp [hmem', Ne.symm ha]
        · simp [setStatus, setBevs, hc, hmem']
  · -- The bufferevent of a broken connection stays in the table.
    cases hstep
    obtain ⟨list, hdeque, hnodup, hmem⟩ := h a
    refine ⟨list, hdeque, hnodup, fun c' => ?_⟩
    by_cases hc : c' = c
    · subst hc
      simp [setStatus, hmem, hg, Status.held]
    · simp [setStatus, hc, hmem]

omit [DecidableEq ι] [DecidableEq κ] in
-- A new process has an empty table, and its old connections are gone.
theorem listed_restart [DurableStorage σ] (h : ∀ a, ∃ list, d.Listed a list) (b : Nat) (state : σ)
    (a : Nat) : ∃ list, (d.restartAcceptor b state).Listed a list := by
  by_cases ha : a = b
  · subst ha
    refine ⟨[], ?_, List.nodup_nil, fun c => ?_⟩
    · simp only [restartAcceptor, Function.update_self]
      exact .new (by decide)
    · simp only [restartAcceptor, List.not_mem_nil, false_iff]
      rintro ⟨hc, hheld⟩
      by_cases hp : d.status c = .pending
      · simp [hc, hp, Status.held] at hheld
      · simp [hc, hp, Status.held] at hheld
  · obtain ⟨list, hdeque, hnodup, hmem⟩ := h a
    refine ⟨list, ?_, hnodup, fun c => ?_⟩
    · simpa [restartAcceptor, Function.update_of_ne ha] using hdeque
    · by_cases hc : c.acceptor = a
      · have hcb : c.acceptor ≠ b := fun he => ha (hc.symm.trans he)
        simp [restartAcceptor, hcb, hmem]
      · simp [hmem, hc]

theorem sameTables_reply (h : ∀ a, ∃ list, d.Listed a list) (c : Connection ι κ)
    (pad : List UInt8) (reply : AcceptorReply) : d.SameTables (d.reply c pad reply) := by
  cases reply with
  | none => exact .refl d
  | prepareAck rec => exact ⟨fun _ => rfl, rfl⟩
  | acceptAck rec => exact ⟨fun _ => rfl, rfl⟩
  | acceptAckToAll rec =>
      obtain ⟨list, hlist⟩ := h c.acceptor
      rw [reply, sendToBevs_listed hlist]
      exact ⟨fun _ => rfl, rfl⟩

omit [DecidableEq ι] [DecidableEq κ] in
theorem listed_of_same (h : ∀ a, ∃ list, d.Listed a list) (hsame : d.SameTables d') (a : Nat) :
    ∃ list, d'.Listed a list := by
  obtain ⟨list, hlist⟩ := h a
  exact ⟨list, hlist.of_same hsame⟩

theorem sameTables_readProposer {p : ι} {way : Way ι κ} {now : Timeval} {junk : Nat → Nat → Int}
    (hstep : d.readProposer cl p way now junk = some d') : d.SameTables d' := by
  unfold readProposer at hstep
  cases hd : d.proposers p with
  | error fault =>
      rw [hd] at hstep
      cases hstep
  | ok state =>
      rw [hd] at hstep
      dsimp only at hstep
      split_ifs at hstep
      generalize evproposerHandleMsg ⟨cl.preexecWindow p, now, junk⟩ state (d.pipes way).input =
        result at hstep
      obtain ⟨outcome, input⟩ := result
      cases outcome with
      | error fault =>
          cases hstep
          exact ⟨fun _ => rfl, rfl⟩
      | ok r =>
          obtain ⟨state', frames⟩ := r
          cases hstep
          exact (sameTables_setInput d way input).trans
            ((sameTables_setProposer _ p _).trans (sameTables_sendAll cl _ frames _))

theorem sameTables_readLearner {l : κ} {way : Way ι κ}
    (hstep : d.readLearner l way = some d') : d.SameTables d' := by
  unfold readLearner at hstep
  cases hd : (d.learners l).state with
  | error fault =>
      rw [hd] at hstep
      cases hstep
  | ok state =>
      rw [hd] at hstep
      dsimp only at hstep
      split_ifs at hstep
      cases hstep
      exact ⟨fun _ => rfl, rfl⟩

theorem sameTables_checkTimeouts {p : ι} {now : Timeval}
    (hstep : d.checkTimeouts cl p now = some d') : d.SameTables d' := by
  unfold checkTimeouts at hstep
  cases hd : d.proposers p with
  | error fault =>
      rw [hd] at hstep
      cases hstep
  | ok state =>
      rw [hd] at hstep
      dsimp only at hstep
      split at hstep
      · cases hstep
        exact ⟨fun _ => rfl, rfl⟩
      · cases hstep
      · cases hstep
        exact (sameTables_setProposer d p _).trans (sameTables_sendAll cl _ _ _)

theorem sameTables_checkHoles {l : κ} (hstep : d.checkHoles cl l = some d') : d.SameTables d' := by
  unfold checkHoles at hstep
  cases hd : (d.learners l).state with
  | error fault =>
      rw [hd] at hstep
      cases hstep
  | ok state =>
      rw [hd] at hstep
      cases hstep
      exact sameTables_sendAll cl _ _ _

theorem sameTables_readRequest [Storage σ] (h : ∀ a, ∃ list, d.Listed a list) {c : Connection ι κ}
    {pad : Fin 6 → UInt8} (hstep : d.readRequest cl c pad = some d') : d.SameTables d' := by
  unfold readRequest at hstep
  split at hstep
  · rename_i state reply input _
    cases hstep
    have hset : d.SameTables ((d.setInput (.up c) input).setAcceptor c.acceptor (.ok state)) :=
      (sameTables_setInput d _ _).trans (sameTables_setAcceptor _ _ _)
    exact hset.trans (sameTables_reply (listed_of_same h hset) c _ reply)
  · cases hstep
    exact (sameTables_setInput d _ _).trans (sameTables_setAcceptor _ _ _)
  · cases hstep
  · cases hstep

-- Every event keeps the tables.
theorem listed_step [DurableStorage σ] (h : ∀ a, ∃ list, d.Listed a list)
    {e : DeploymentEvent ι κ} (hstep : step cl d e = some d') : ∀ a, ∃ list, d'.Listed a list := by
  cases e with
  | arrive way size =>
      cases hstep
      exact listed_of_same h ⟨fun _ => rfl, rfl⟩
  | onAccept c => exact listed_onAccept h hstep
  | onError c eof => exact listed_onError h hstep
  | onSocketEvent peer a =>
      cases hstep
      exact listed_of_same h ⟨fun _ => rfl, rfl⟩
  | readRequest c pad => exact listed_of_same h (sameTables_readRequest h hstep)
  | readReply peer a now junk =>
      cases peer with
      | proposer p => exact listed_of_same h (sameTables_readProposer hstep)
      | learner l => exact listed_of_same h (sameTables_readLearner hstep)
  | submit p number value =>
      cases hstep
      exact listed_of_same h ⟨fun _ => rfl, rfl⟩
  | readSubmit p number now junk => exact listed_of_same h (sameTables_readProposer hstep)
  | checkTimeouts p now => exact listed_of_same h (sameTables_checkTimeouts hstep)
  | checkHoles l => exact listed_of_same h (sameTables_checkHoles hstep)
  | crash a =>
      simp only [step, crash] at hstep
      split at hstep
      · cases hstep
      · cases hstep
        exact listed_restart h a _
  | crashAfterCommit c =>
      simp only [step, crashAfterCommit] at hstep
      split at hstep
      · cases hstep
        exact listed_restart h c.acceptor _
      · cases hstep

theorem listed_of_reachable [DurableStorage σ]
    (hr : (deployment σ cl).Reachable (fun _ _ => True) d) (a : Nat) : ∃ list, d.Listed a list :=
  hr.invariant (fun d => ∀ a, ∃ list, d.Listed a list) (fun a => ⟨[], listed_start cl a⟩)
    (fun _ _ _ _ h _ hstep => listed_step h hstep) a

-- What an answer writes to a connection: the ack of an accepted request goes to all
-- that the acceptor holds, any other answer to the connection of the request.
def answerTo (d : Deployment ι κ σ) (c : Connection ι κ) (pad : List UInt8) :
    AcceptorReply → Connection ι κ → Option Frame
  | .none, _ => none
  | .prepareAck rec, c' => if c' = c then some (.prepareAck rec) else none
  | .acceptAck rec, c' => if c' = c then some (.acceptAck rec pad) else none
  | .acceptAckToAll rec, c' =>
      if c'.acceptor = c.acceptor ∧ (d.status c').held then some (.acceptAck rec pad) else none

theorem reply_pipes (h : ∀ a, ∃ list, d.Listed a list) (c : Connection ι κ) (pad : List UInt8)
    (reply : AcceptorReply) (c' : Connection ι κ) :
    (d.reply c pad reply).pipes (.down c') =
      (d.answerTo c pad reply c').elim (d.pipes (.down c')) (d.pipes (.down c')).write := by
  have hone (f : Frame) : (d.write (.down c) f).pipes (.down c') =
      (if c' = c then some f else none).elim (d.pipes (.down c')) (d.pipes (.down c')).write := by
    dsimp only [write]
    by_cases hc : c' = c
    · subst hc
      simp
    · rw [Function.update_of_ne (fun he => hc (Way.down.inj he))]
      simp [hc]
  cases reply with
  | none => rfl
  | prepareAck rec => exact hone _
  | acceptAck rec => exact hone _
  | acceptAckToAll rec =>
      obtain ⟨list, hlist⟩ := h c.acceptor
      rw [reply, sendToBevs_listed hlist]
      dsimp only [writeTo, answerTo]
      by_cases hm : c' ∈ list
      · rw [if_pos hm, if_pos ((hlist.2.2 c').mp hm)]
        rfl
      · rw [if_neg hm, if_neg (fun hheld => hm ((hlist.2.2 c').mpr hheld))]
        rfl

end Deployment

variable [DecidableEq ι] [DecidableEq κ]

-- In every run the table of an acceptor lists the connections it holds, and a request
-- that is handled is answered on the right ones, once on each.
theorem requests_answered_once [DurableStorage σ] (cl : Layout ι κ) (d : Deployment ι κ σ)
    (hr : (deployment σ cl).Reachable (fun _ _ => True) d) :
    (∀ a, ∃ list, d.Listed a list) ∧
    ∀ c pad state reply input d',
      d.handleRequest cl c = some (.ok (some (state, reply)), input) →
      d.readRequest cl c pad = some d' →
      ∀ c', d'.pipes (.down c') = (d.answerTo c (List.ofFn pad) reply c').elim
        (d.pipes (.down c')) (d.pipes (.down c')).write := by
  have hlisted := Deployment.listed_of_reachable hr
  refine ⟨hlisted, fun c pad state reply input d' hreq hstep c' => ?_⟩
  rw [Deployment.readRequest, hreq] at hstep
  cases hstep
  have hset : d.SameTables ((d.setInput (.up c) input).setAcceptor c.acceptor (.ok state)) :=
    (Deployment.sameTables_setInput d _ _).trans (Deployment.sameTables_setAcceptor _ _ _)
  rw [Deployment.reply_pipes (Deployment.listed_of_same hlisted hset)]
  have hpipe : ((d.setInput (.up c) input).setAcceptor c.acceptor (.ok state)).pipes (.down c') =
      d.pipes (.down c') := by
    simp [Deployment.setAcceptor, Deployment.setInput]
  rw [hpipe]
  cases reply <;> rfl

-- One proposer, one acceptor and two learners.
def smallLayout : Layout (Fin 1) (Fin 2) where
  toCluster := .solo (Fin 2) ⟨4, true, 1⟩
  preexecWindow _ := 1

-- The answer to the request that a connection starts with.
def Deployment.pendingReply [Storage σ] (cl : Layout ι κ) (d : Deployment ι κ σ)
    (c : Connection ι κ) : Option AcceptorReply :=
  match d.handleRequest cl c with
  | some (.ok (some (_, reply)), _) => some reply
  | _ => none

omit [DecidableEq ι] [DecidableEq κ] in
theorem Deployment.handleRequest_of_pendingReply [Storage σ] {cl : Layout ι κ}
    {d : Deployment ι κ σ} {c : Connection ι κ} {reply : AcceptorReply}
    (h : d.pendingReply cl c = some reply) :
    ∃ state input, d.handleRequest cl c = some (.ok (some (state, reply)), input) := by
  unfold Deployment.pendingReply at h
  split at h
  · rename_i state _ input hreq
    cases h
    exact ⟨state, input, hreq⟩
  · cases h

-- The connection of a learner breaks before its acceptor accepts a request.
def acceptPending : List (DeploymentEvent (Fin 1) (Fin 2)) :=
  [.onAccept ⟨.proposer 0, 0, 0⟩, .onAccept ⟨.learner 0, 0, 0⟩, .onError ⟨.learner 0, 0, 0⟩ false,
    .submit 0 0 [7], .arrive (.client 0 0) 100, .readSubmit 0 0 ⟨0, 0⟩ (fun _ _ => 0),
    .arrive (.up ⟨.proposer 0, 0, 0⟩) 200, .readRequest ⟨.proposer 0, 0, 0⟩ (fun _ => 0),
    .arrive (.down ⟨.proposer 0, 0, 0⟩) 200, .readReply (.proposer 0) 0 ⟨0, 0⟩ (fun _ _ => 0),
    .arrive (.up ⟨.proposer 0, 0, 0⟩) 200]

-- The connections are accepted and a value goes through both phases. The acceptor is
-- killed before the second learner reads its ack.
def valueToLearners : List (DeploymentEvent (Fin 1) (Fin 2)) :=
  [.onAccept ⟨.proposer 0, 0, 0⟩, .onAccept ⟨.learner 0, 0, 0⟩, .onAccept ⟨.learner 1, 0, 0⟩,
    .submit 0 0 [7], .arrive (.client 0 0) 100, .readSubmit 0 0 ⟨0, 0⟩ (fun _ _ => 0),
    .arrive (.up ⟨.proposer 0, 0, 0⟩) 200, .readRequest ⟨.proposer 0, 0, 0⟩ (fun _ => 0),
    .arrive (.down ⟨.proposer 0, 0, 0⟩) 200, .readReply (.proposer 0) 0 ⟨0, 0⟩ (fun _ _ => 0),
    .arrive (.up ⟨.proposer 0, 0, 0⟩) 200, .readRequest ⟨.proposer 0, 0, 0⟩ (fun _ => 0),
    .arrive (.down ⟨.learner 0, 0, 0⟩) 200, .readReply (.learner 0) 0 ⟨0, 0⟩ (fun _ _ => 0),
    .crash 0, .arrive (.down ⟨.learner 1, 0, 0⟩) 200,
    .readReply (.learner 1) 0 ⟨0, 0⟩ (fun _ _ => 0)]

theorem requests_answered_once_broken : ∃ d d' : Deployment (Fin 1) (Fin 2) BdbStorage,
    d.status ⟨.learner 0, 0, 0⟩ = .broken ∧
      d.readRequest smallLayout ⟨.proposer 0, 0, 0⟩ (fun _ => 0) = some d' ∧
      d'.pipes (.down ⟨.learner 0, 0, 0⟩) = (d.pipes (.down ⟨.learner 0, 0, 0⟩)).write
        (.acceptAck ⟨0, 1, 10, 10, false, [7]⟩ [0, 0, 0, 0, 0, 0]) ∧
      d'.pipes (.down ⟨.learner 1, 0, 0⟩) = d.pipes (.down ⟨.learner 1, 0, 0⟩) := by
  obtain ⟨d, hd⟩ := Option.isSome_iff_exists.mp (show
    ((deployment BdbStorage smallLayout).run (Deployment.start smallLayout)
      acceptPending).isSome = true by decide +kernel)
  have hstate : ((deployment BdbStorage smallLayout).run (Deployment.start smallLayout)
      acceptPending).map (fun d => (d.pendingReply smallLayout ⟨.proposer 0, 0, 0⟩,
        d.status ⟨.learner 0, 0, 0⟩, d.status ⟨.learner 1, 0, 0⟩)) =
      some (some (.acceptAckToAll ⟨0, 1, 10, 10, false, [7]⟩), .broken, .pending) := by
    decide +kernel
  rw [hd, Option.map_some, Option.some.injEq, Prod.mk.injEq, Prod.mk.injEq] at hstate
  obtain ⟨hreply, hbroken, hpending⟩ := hstate
  obtain ⟨state, input, hreq⟩ := Deployment.handleRequest_of_pendingReply hreply
  have hr := TransitionSystem.reachable_of_run (fun _ _ => True) (.of_forall (by simp) _) hd
  have hstep : ∃ d', d.readRequest smallLayout ⟨.proposer 0, 0, 0⟩ (fun _ => 0) = some d' := by
    rw [Deployment.readRequest, hreq]
    exact ⟨_, rfl⟩
  obtain ⟨d', hstep⟩ := hstep
  have hpipe := (requests_answered_once smallLayout d hr).2 _ _ _ _ _ _ hreq hstep
  refine ⟨d, d', hbroken, hstep, ?_, ?_⟩
  · rw [hpipe, Deployment.answerTo, hbroken]
    rfl
  · rw [hpipe, Deployment.answerTo, hpending]
    rfl

end LibPaxos
