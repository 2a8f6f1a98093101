import LibPaxos.Deployment.Pipes

namespace LibPaxos

open Wire

-- The calls a proposer's handler makes on its own account, behind the one that
-- takes in a message.
def ProposerCall.Internal : ProposerCall → Prop
  | .prepare _ _ => True
  | .accept => True
  | .timeoutPrepare _ => True
  | .timeoutAccept _ => True
  | _ => False

-- What is written for the output of a call.
def ProposerOutput.frames : ProposerOutput → List Frame
  | .prepareReq req => [.prepareReq req]
  | .acceptReq req => [.acceptReq req]
  | _ => []

-- A sequence of internal calls none of which wraps a counter, and what they hand
-- out.
inductive Acts (cfg : PaxosConfig) : Proposer → List ProposerOutput → Proposer → Prop
  | done (p : Proposer) : Acts cfg p [] p
  | call {p mid p' : Proposer} {c : ProposerCall} {out : ProposerOutput}
      {outs : List ProposerOutput} (hc : c.Internal) (hw : c.NoWrap p)
      (hcall : proposerCall cfg p c = .ok (mid, out)) (hrest : Acts cfg mid outs p') :
      Acts cfg p (out :: outs) p'

-- The frames of such a sequence.
def Writes (cfg : PaxosConfig) (p : Proposer) (frames : List Frame) (p' : Proposer) : Prop :=
  ∃ outs, Acts cfg p outs p' ∧ outs.flatMap ProposerOutput.frames = frames

section

variable {cfg : PaxosConfig} {p mid p' : Proposer}

theorem Acts.trans {outs outs' : List ProposerOutput} (h : Acts cfg p outs mid)
    (h' : Acts cfg mid outs' p') : Acts cfg p (outs ++ outs') p' := by
  induction h with
  | done p => exact h'
  | call hc hw hcall _ ih => exact .call hc hw hcall (ih h')

theorem Writes.done (p : Proposer) : Writes cfg p [] p := ⟨[], .done p, rfl⟩

theorem Writes.trans {frames frames' : List Frame} (h : Writes cfg p frames mid)
    (h' : Writes cfg mid frames' p') : Writes cfg p (frames ++ frames') p' := by
  obtain ⟨outs, hacts, rfl⟩ := h
  obtain ⟨outs', hacts', rfl⟩ := h'
  exact ⟨outs ++ outs', hacts.trans hacts', List.flatMap_append⟩

theorem Writes.call {c : ProposerCall} {out : ProposerOutput} {frames : List Frame}
    (hc : c.Internal) (hw : c.NoWrap p) (hcall : proposerCall cfg p c = .ok (mid, out))
    (h : Writes cfg mid frames p') : Writes cfg p (out.frames ++ frames) p' := by
  obtain ⟨outs, hacts, rfl⟩ := h
  exact ⟨out :: outs, .call hc hw hcall hacts, rfl⟩

theorem proposerAccept_nextPrepareIid (p : Proposer) :
    (proposerAccept p).1.nextPrepareIid = p.nextPrepareIid := by
  unfold proposerAccept
  dsimp only
  split
  · rfl
  · split
    · rfl
    · split <;> rfl

-- The loop of `try_accept` is a sequence of `proposer_accept`, up to the call that
-- returns NULL.
theorem tryAcceptAll_writes (cfg : PaxosConfig) (p : Proposer) :
    Writes cfg p ((tryAcceptAll p).2.map .acceptReq) (tryAcceptAll p).1 ∧
      (tryAcceptAll p).1.nextPrepareIid = p.nextPrepareIid := by
  have hcall (p : Proposer) : proposerCall cfg p .accept =
      .ok ((proposerAccept p).1, .ofAccept (proposerAccept p).2) := rfl
  fun_induction tryAcceptAll p with
  | case1 p p' hnone =>
      have hsame := proposerAccept_nextPrepareIid p
      rw [hnone] at hsame
      have hone := hcall p
      rw [hnone] at hone
      exact ⟨Writes.call (c := .accept) trivial trivial hone (.done p'), hsame⟩
  | case2 p p' ar hsome q sent hq ih =>
      have hsame := proposerAccept_nextPrepareIid p
      rw [hsome] at hsame
      have hone := hcall p
      rw [hsome] at hone
      rw [hq] at ih
      exact ⟨Writes.call (c := .accept) trivial trivial hone ih.1, ih.2.trans hsame⟩

-- So is that of `proposer_preexecute`, of `proposer_prepare`.
theorem preexecute_writes (cfg : PaxosConfig) (env : ProposerEnv) (rounds : List Nat) (p : Proposer)
    (sent : List PrepareReq) (hroom : p.nextPrepareIid + rounds.length < 2 ^ 32) :
    ∃ reqs, (rounds.foldl (preexecuteOne env) (p, sent)).2 = sent ++ reqs ∧
      Writes cfg p (reqs.map .prepareReq) (rounds.foldl (preexecuteOne env) (p, sent)).1 := by
  induction rounds generalizing p sent with
  | nil => exact ⟨[], by simp, .done p⟩
  | cons i rounds ih =>
      rw [List.length_cons] at hroom
      have hnext : (proposerPrepare p (env.junk i) env.now).1.nextPrepareIid =
          p.nextPrepareIid + 1 := uint32_of_lt (by omega)
      obtain ⟨reqs, hsent, hwrites⟩ := ih (proposerPrepare p (env.junk i) env.now).1
        (sent ++ [(proposerPrepare p (env.junk i) env.now).2]) (by rw [hnext]; omega)
      refine ⟨(proposerPrepare p (env.junk i) env.now).2 :: reqs, ?_, ?_⟩
      · rw [List.foldl_cons]
        exact hsent.trans (by simp)
      · have hw : (ProposerCall.prepare (env.junk i) env.now).NoWrap p :=
          show p.nextPrepareIid + 1 < 2 ^ 32 by omega
        exact Writes.call (c := .prepare (env.junk i) env.now) trivial hw rfl hwrites

theorem tryAccept_writes (cfg : PaxosConfig) (env : ProposerEnv) (p : Proposer)
    (out : Option PrepareReq) (hroom : p.nextPrepareIid + env.preexecWindow < 2 ^ 32) :
    ∃ frames, (tryAccept env p out).2.frames = out.toList.map .prepareReq ++ frames ∧
      Writes cfg p frames (tryAccept env p out).1 := by
  obtain ⟨haccepts, hsame⟩ := tryAcceptAll_writes cfg p
  obtain ⟨reqs, hsent, hprepares⟩ := preexecute_writes cfg env
    (List.range (env.preexecWindow - proposerPreparedCount (tryAcceptAll p).1))
    (tryAcceptAll p).1 [] (by rw [hsame, List.length_range]; omega)
  refine ⟨(tryAcceptAll p).2.map .acceptReq ++ reqs.map .prepareReq, ?_,
    haccepts.trans hprepares⟩
  rw [List.nil_append] at hsent
  simp only [tryAccept, ProposerSent.frames, proposerPreexecute, hsent, List.append_assoc]

-- The sweeps of `proposer_check_timeouts`. The iterator only picks what comes next.
theorem timeoutPrepares_writes {fuel : Nat} {iter : TimeoutIterator}
    {t : Proposer × TimeoutIterator} {sent : List PrepareReq}
    (h : timeoutPrepares cfg fuel p iter = .ok (some (t, sent))) :
    Writes cfg p (sent.map .prepareReq) t.1 := by
  have hcall (s : Proposer × TimeoutIterator) : proposerCall cfg s.1 (.timeoutPrepare s.2) =
      .ok ((timeoutIteratorPrepare cfg s.1 s.2).1.1,
        .ofPrepare (timeoutIteratorPrepare cfg s.1 s.2).2) := rfl
  refine drain_induction (P := fun s sent s' => Writes cfg s.1 (sent.map .prepareReq) s'.1)
    (fun s s' hnext => ?_) (fun s mid o os s' hnext hrest => ?_) h
  · have hone := hcall s
    rw [Except.ok.inj hnext] at hone
    exact Writes.call (c := .timeoutPrepare s.2) trivial trivial hone (.done s'.1)
  · have hone := hcall s
    rw [Except.ok.inj hnext] at hone
    exact Writes.call (c := .timeoutPrepare s.2) trivial trivial hone hrest

theorem timeoutAccepts_writes {fuel : Nat} {iter : TimeoutIterator}
    {t : Proposer × TimeoutIterator} {sent : List AcceptReq}
    (h : timeoutAccepts cfg fuel p iter = .ok (some (t, sent))) :
    Writes cfg p (sent.map .acceptReq) t.1 := by
  have hcall {s s' : Proposer × TimeoutIterator} {req : Option AcceptReq}
      (hnext : timeoutIteratorAccept cfg s.1 s.2 = .ok (s', req)) :
      proposerCall cfg s.1 (.timeoutAccept s.2) = .ok (s'.1, .ofAccept req) := by
    simp only [proposerCall, hnext]
    rfl
  refine drain_induction (P := fun s sent s' => Writes cfg s.1 (sent.map .acceptReq) s'.1)
    (fun s s' hnext => ?_) (fun s mid o os s' hnext hrest => ?_) h
  · exact Writes.call (c := .timeoutAccept s.2) trivial trivial (hcall hnext) (.done s'.1)
  · exact Writes.call (c := .timeoutAccept s.2) trivial trivial (hcall hnext) hrest

theorem proposerCheckTimeouts_writes {fuel : Nat} {now : Timeval} {prepares : List PrepareReq}
    {accepts : List AcceptReq}
    (h : proposerCheckTimeouts cfg fuel p now = .ok (some (p', prepares, accepts))) :
    Writes cfg p (prepares.map .prepareReq ++ accepts.map .acceptReq) p' := by
  obtain ⟨first, hfirst, h⟩ := except_bind_ok h
  cases first with
  | none => cases h
  | some r =>
      obtain ⟨second, hsecond, h⟩ := except_bind_ok h
      cases second with
      | none => cases h
      | some r' =>
          cases h
          exact (timeoutPrepares_writes hfirst).trans (timeoutAccepts_writes hsecond)

end

end LibPaxos
