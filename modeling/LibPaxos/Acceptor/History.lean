import LibPaxos.Acceptor.Theorems
import LibPaxos.Storage.Bdb

namespace LibPaxos

open MapStorage

variable {σ : Type} [MapStorage σ]

-- The ballot a prepare or accept request brings to instance `i`.
def AcceptorReq.ballotFor (i : Nat) : AcceptorReq → Option Nat
  | .prepare req => if req.iid = i then some req.ballot else none
  | .accept req => if req.iid = i then some req.ballot else none
  | .repeat _ => none

def ballotsFor (i : Nat) (reqs : List AcceptorReq) : List Nat :=
  reqs.filterMap (AcceptorReq.ballotFor i)

-- An accept request for `i` whose ballot is at least every ballot received for
-- `i` before it.
def Tops (i : Nat) (before : List AcceptorReq) (ar : AcceptReq) : Prop :=
  ar.iid = i ∧ ∀ b ∈ ballotsFor i before, b ≤ ar.ballot

-- The last such request of a history, if there is one.
def LastTop (i : Nat) (reqs : List AcceptorReq) : Option AcceptReq → Prop
  | none => ∀ before ar after, reqs = before ++ .accept ar :: after → ¬Tops i before ar
  | some ar => ∃ before after, reqs = before ++ .accept ar :: after ∧ Tops i before ar ∧
      ∀ middle ar' after', after = middle ++ .accept ar' :: after' →
        ¬Tops i (before ++ .accept ar :: middle) ar'

-- What an accepted request leaves in the record, and what no request leaves there.
def acceptedPart : Option AcceptReq → Nat × Value
  | none => (0, [])
  | some ar => (ar.ballot, ar.value)

-- The answer to the next request after a history, and its effect.
structure NextContract (reqs : List AcceptorReq) (s : Logged σ) (req : AcceptorReq)
    (s' : Logged σ) (out : Option AcceptorRecord) : Prop where
  frame : ∀ i, req.ballotFor i = none → records s'.store i = records s.store i
  grows : ∀ i rec, records s.store i = some rec → ∃ rec', records s'.store i = some rec' ∧
    rec.ballot ≤ rec'.ballot ∧ rec.valueBallot ≤ rec'.valueBallot
  prepare : ∀ pr, req = .prepare pr → ∃ rec, out = some rec ∧ pr.ballot ≤ rec.ballot ∧
    (rec.ballot = pr.ballot ↔ ∀ b ∈ ballotsFor pr.iid reqs, b ≤ pr.ballot)
  accept : ∀ ar, req = .accept ar → ∃ rec, out = some rec ∧
    (rec.ballot = ar.ballot ↔ s'.saved = s.saved ++ [ar])
  again : ∀ i, req = .repeat i → out = records s.store i

structure HistoryContract (reqs : List AcceptorReq) (s : Logged σ) : Prop where
  recorded : ∀ i, (records s.store i).isSome ↔ ∃ req ∈ reqs, (req.ballotFor i).isSome
  ballot : ∀ i rec, records s.store i = some rec →
    rec.ballot ∈ ballotsFor i reqs ∧ ∀ b ∈ ballotsFor i reqs, b ≤ rec.ballot
  value : ∀ i rec, records s.store i = some rec → ∃ last, LastTop i reqs last ∧
    (rec.valueBallot, rec.value) = acceptedPart last
  valueBallot_le : ∀ i rec, records s.store i = some rec → rec.valueBallot ≤ rec.ballot
  next : ∀ req, ∃ s' out, acceptorReceive s req = some (s', out) ∧ NextContract reqs s req s' out

theorem append_singleton_eq {α : Type*} {l before after : List α} {x y : α}
    (h : l ++ [x] = before ++ y :: after) :
    (before = l ∧ y = x ∧ after = []) ∨
      ∃ after', after = after' ++ [x] ∧ l = before ++ y :: after' := by
  rcases List.eq_nil_or_concat' after with rfl | ⟨after', z, rfl⟩
  · obtain ⟨rfl, he⟩ := List.append_inj' h rfl
    exact .inl ⟨rfl, (List.cons.inj he).1.symm, rfl⟩
  · rw [← List.cons_append, ← List.append_assoc] at h
    obtain ⟨hl, he⟩ := List.append_inj' h rfl
    exact .inr ⟨after', by rw [(List.cons.inj he).1], hl⟩

theorem LastTop.append_other {i : Nat} {reqs : List AcceptorReq} {last : Option AcceptReq}
    (h : LastTop i reqs last) (req : AcceptorReq)
    (hreq : ∀ ar, req = .accept ar → ¬Tops i reqs ar) : LastTop i (reqs ++ [req]) last := by
  cases last with
  | none =>
      intro before ar after he ht
      rcases append_singleton_eq he with ⟨rfl, hr, _⟩ | ⟨after', _, hl⟩
      · exact hreq ar hr.symm ht
      · exact h before ar after' hl ht
  | some ar =>
      obtain ⟨before, after, rfl, ht, hlast⟩ := h
      refine ⟨before, after ++ [req], by simp, ht, fun middle ar' after' he ht' => ?_⟩
      rcases append_singleton_eq he with ⟨rfl, hr, _⟩ | ⟨rest, _, hl⟩
      · exact hreq ar' hr.symm ht'
      · exact hlast middle ar' rest hl ht'

theorem LastTop.append_top {i : Nat} {reqs : List AcceptorReq} {ar : AcceptReq}
    (h : Tops i reqs ar) : LastTop i (reqs ++ [.accept ar]) (some ar) := by
  refine ⟨reqs, [], rfl, h, fun middle ar' after' he => ?_⟩
  simp at he

-- The record of instance `i` after a history. This is what one request keeps.
def RecordOf (id i : Nat) (reqs : List AcceptorReq) : Option AcceptorRecord → Prop
  | none => ballotsFor i reqs = [] ∧ LastTop i reqs none
  | some rec => rec.acceptorId = id ∧ rec.iid = i ∧ rec.isFinal = false ∧
      rec.ballot ∈ ballotsFor i reqs ∧ (∀ b ∈ ballotsFor i reqs, b ≤ rec.ballot) ∧
      rec.valueBallot ≤ rec.ballot ∧
      ∃ last, LastTop i reqs last ∧ (rec.valueBallot, rec.value) = acceptedPart last

theorem RecordOf.append_other {id i : Nat} {reqs : List AcceptorReq} {rec : Option AcceptorRecord}
    (h : RecordOf id i reqs rec) (req : AcceptorReq) (hreq : req.ballotFor i = none) :
    RecordOf id i (reqs ++ [req]) rec := by
  have hb : ballotsFor i (reqs ++ [req]) = ballotsFor i reqs := by simp [ballotsFor, hreq]
  have ht (ar : AcceptReq) (he : req = .accept ar) : ¬Tops i reqs ar := by
    rintro ⟨hi, _⟩
    simp [he, AcceptorReq.ballotFor, hi] at hreq
  cases rec with
  | none => exact ⟨by rw [hb]; exact h.1, h.2.append_other req ht⟩
  | some rec =>
      obtain ⟨hid, hiid, hf, hm, hmax, hle, last, hlast, hv⟩ := h
      refine ⟨hid, hiid, hf, by rw [hb]; exact hm, by rw [hb]; exact hmax, hle, last, ?_, hv⟩
      exact hlast.append_other req ht

theorem onPrepare_recordOf {id : Nat} {pr : PrepareReq} {reqs : List AcceptorReq}
    {rec : Option AcceptorRecord} (h : RecordOf id pr.iid reqs rec) :
    RecordOf id pr.iid (reqs ++ [.prepare pr]) (some (onPrepare id pr rec)) := by
  have hb : ballotsFor pr.iid (reqs ++ [.prepare pr]) = ballotsFor pr.iid reqs ++ [pr.ballot] := by
    simp [ballotsFor, AcceptorReq.ballotFor]
  have ht (ar : AcceptReq) (he : AcceptorReq.prepare pr = .accept ar) : ¬Tops pr.iid reqs ar := by
    cases he
  cases rec with
  | none =>
      obtain ⟨hnil, hlast⟩ := h
      refine ⟨rfl, rfl, rfl, ?_, ?_, Nat.zero_le _, none, hlast.append_other _ ht, rfl⟩
      · simp [hb, onPrepare, prepareRecord]
      · simp [hb, hnil, onPrepare, prepareRecord]
  | some r =>
      obtain ⟨hid, hiid, hf, hm, hmax, hle, last, hlast, hv⟩ := h
      by_cases hge : pr.ballot ≤ r.ballot
      · simp only [onPrepare, hge, true_or, if_true]
        refine ⟨hid, hiid, hf, by simp [hb, hm], ?_, hle, last, hlast.append_other _ ht, hv⟩
        intro b hbm
        rw [hb, List.mem_append, List.mem_singleton] at hbm
        rcases hbm with hold | rfl
        · exact hmax b hold
        · exact hge
      · simp only [onPrepare, hge, hf, Bool.false_eq_true, or_self, if_false, prepareRecord]
        refine ⟨hid, hiid, rfl, by simp [hb], ?_, by dsimp only; omega, last,
          hlast.append_other _ ht, hv⟩
        intro b hbm
        rw [hb, List.mem_append, List.mem_singleton] at hbm
        rcases hbm with hold | rfl
        · have := hmax b hold
          dsimp only
          omega
        · exact Nat.le_refl _

theorem onAccept_recordOf {id : Nat} {ar : AcceptReq} {reqs : List AcceptorReq}
    {rec : Option AcceptorRecord} (h : RecordOf id ar.iid reqs rec) :
    RecordOf id ar.iid (reqs ++ [.accept ar]) (some (onAccept id ar rec)) := by
  have hb : ballotsFor ar.iid (reqs ++ [.accept ar]) = ballotsFor ar.iid reqs ++ [ar.ballot] := by
    simp [ballotsFor, AcceptorReq.ballotFor]
  have haccept (hmax : ∀ b ∈ ballotsFor ar.iid reqs, b ≤ ar.ballot) :
      RecordOf id ar.iid (reqs ++ [.accept ar]) (some (acceptRecord id ar)) := by
    refine ⟨rfl, rfl, rfl, by simp [hb, acceptRecord], ?_, Nat.le_refl _, some ar,
      LastTop.append_top ⟨rfl, hmax⟩, rfl⟩
    intro b hbm
    rw [hb, List.mem_append, List.mem_singleton] at hbm
    rcases hbm with hold | rfl
    · exact hmax b hold
    · exact Nat.le_refl _
  cases rec with
  | none => exact haccept (by simp [h.1])
  | some r =>
      obtain ⟨hid, hiid, hf, hm, hmax, hle, last, hlast, hv⟩ := h
      by_cases hr : r.ballot ≤ ar.ballot
      · simp only [onAccept, accepts, hr, decide_true, if_true]
        exact haccept fun b hbm => Nat.le_trans (hmax b hbm) hr
      · simp only [onAccept, accepts, hr, decide_false, Bool.false_eq_true, if_false,
          Option.getD_some]
        refine ⟨hid, hiid, hf, by simp [hb, hm], ?_, hle, last, hlast.append_other _ ?_, hv⟩
        · intro b hbm
          rw [hb, List.mem_append, List.mem_singleton] at hbm
          rcases hbm with hold | rfl
          · exact hmax b hold
          · omega
        · intro ar' he ht
          obtain rfl : ar = ar' := AcceptorReq.accept.inj he
          exact hr (ht.2 r.ballot hm)

theorem RecordOf.isSome_iff {id i : Nat} {reqs : List AcceptorReq} {rec : Option AcceptorRecord}
    (h : RecordOf id i reqs rec) : rec.isSome ↔ ∃ req ∈ reqs, (req.ballotFor i).isSome := by
  have hmem : (∃ req ∈ reqs, (req.ballotFor i).isSome) ↔ ∃ b, b ∈ ballotsFor i reqs := by
    simp only [ballotsFor, List.mem_filterMap, Option.isSome_iff_exists]
    constructor
    · rintro ⟨req, hm, b, hb⟩
      exact ⟨b, req, hm, hb⟩
    · rintro ⟨b, req, hm, hb⟩
      exact ⟨req, hm, b, hb⟩
  rw [hmem]
  cases rec with
  | none => simp [h.1]
  | some rec => exact ⟨fun _ => ⟨rec.ballot, h.2.2.2.1⟩, fun _ => rfl⟩

structure Kept (id : Nat) (reqs : List AcceptorReq) (s : Logged σ) : Prop where
  wf : wf s.store
  acceptorId : acceptorId s.store = id
  record : ∀ i, RecordOf id i reqs (records s.store i)

theorem Kept.open (id : Nat) : Kept id [] (storageOpen id : Logged σ) := by
  obtain ⟨hwf, hid, hrec⟩ := MapStorage.open_eq (σ := σ) id
  refine ⟨hwf, hid, fun i => ?_⟩
  change RecordOf id i [] (records (storageOpen id : σ) i)
  rw [hrec]
  exact ⟨rfl, fun before ar after he => by simp at he⟩

-- A request changes the record of its own instance only, and the new record is
-- that of the longer history.
theorem Kept.becomes {id iid : Nat} {reqs : List AcceptorReq} {s s' : Logged σ}
    {rec : Option AcceptorRecord} {added : List AcceptReq} (h : Kept id reqs s) (req : AcceptorReq)
    (hb : s.Becomes s' iid rec added) (hrec : RecordOf id iid (reqs ++ [req]) rec)
    (hother : ∀ i, i ≠ iid → req.ballotFor i = none) : Kept id (reqs ++ [req]) s' := by
  refine ⟨hb.wf, hb.acceptorId.trans h.acceptorId, fun i => ?_⟩
  rw [hb.records]
  by_cases hi : i = iid
  · subst hi
    rw [Function.update_self]
    exact hrec
  · rw [Function.update_of_ne hi]
    exact (h.record i).append_other req (hother i hi)

theorem onPrepare_grows (id : Nat) (pr : PrepareReq) (r : AcceptorRecord) :
    r.ballot ≤ (onPrepare id pr (some r)).ballot ∧
      r.valueBallot ≤ (onPrepare id pr (some r)).valueBallot := by
  simp only [onPrepare]
  split
  · exact ⟨Nat.le_refl _, Nat.le_refl _⟩
  · simp only [prepareRecord]
    omega

theorem onAccept_grows (id : Nat) (ar : AcceptReq) (r : AcceptorRecord)
    (hle : r.valueBallot ≤ r.ballot) :
    r.ballot ≤ (onAccept id ar (some r)).ballot ∧
      r.valueBallot ≤ (onAccept id ar (some r)).valueBallot := by
  by_cases hr : r.ballot ≤ ar.ballot
  · have ha : accepts ar (some r) = true := by simp [accepts, hr]
    rw [onAccept, if_pos ha]
    exact ⟨hr, Nat.le_trans hle hr⟩
  · simp [onAccept, accepts, hr]

theorem onPrepare_ballot {id : Nat} {pr : PrepareReq} {reqs : List AcceptorReq}
    {rec : Option AcceptorRecord} (h : RecordOf id pr.iid reqs rec) :
    pr.ballot ≤ (onPrepare id pr rec).ballot ∧
      ((onPrepare id pr rec).ballot = pr.ballot ↔ ∀ b ∈ ballotsFor pr.iid reqs, b ≤ pr.ballot) := by
  cases rec with
  | none => simp [onPrepare, prepareRecord, h.1]
  | some r =>
      obtain ⟨_, _, hf, hm, hmax, _⟩ := h
      by_cases hge : pr.ballot ≤ r.ballot
      · simp only [onPrepare, hge, true_or, if_true, true_and]
        constructor
        · intro he b hb
          exact he ▸ hmax b hb
        · intro hall
          exact Nat.le_antisymm (hall r.ballot hm) hge
      · simp only [onPrepare, hge, hf, Bool.false_eq_true, or_self, if_false, prepareRecord,
          Nat.le_refl, true_and, true_iff]
        intro b hb
        have := hmax b hb
        omega

theorem onAccept_ballot (id : Nat) (ar : AcceptReq) (rec : Option AcceptorRecord) :
    (onAccept id ar rec).ballot = ar.ballot ↔ accepts ar rec = true := by
  cases rec with
  | none => simp [onAccept, accepts, acceptRecord]
  | some r =>
      by_cases hr : r.ballot ≤ ar.ballot
      · simp [onAccept, accepts, hr, acceptRecord]
      · simp only [onAccept, accepts, hr, decide_false, Bool.false_eq_true, if_false,
          Option.getD_some, iff_false]
        omega

private theorem frame_of_becomes {iid : Nat} {s s' : Logged σ} {rec : Option AcceptorRecord}
    {added : List AcceptReq} (hb : s.Becomes s' iid rec added) {i : Nat} (hi : i ≠ iid) :
    records s'.store i = records s.store i := by
  rw [hb.records, Function.update_of_ne hi]

private theorem grows_of_becomes {iid : Nat} {s s' : Logged σ} {rec : AcceptorRecord}
    {added : List AcceptReq} (hb : s.Becomes s' iid (some rec) added)
    (hrec : ∀ r, records s.store iid = some r →
      r.ballot ≤ rec.ballot ∧ r.valueBallot ≤ rec.valueBallot) (i : Nat) (r : AcceptorRecord)
    (hr : records s.store i = some r) : ∃ r', records s'.store i = some r' ∧
      r.ballot ≤ r'.ballot ∧ r.valueBallot ≤ r'.valueBallot := by
  by_cases hi : i = iid
  · subst hi
    exact ⟨rec, by rw [hb.records, Function.update_self], hrec r hr⟩
  · exact ⟨r, (frame_of_becomes hb hi).trans hr, Nat.le_refl _, Nat.le_refl _⟩

theorem Kept.next {id : Nat} {reqs : List AcceptorReq} {s : Logged σ} (h : Kept id reqs s)
    (req : AcceptorReq) : ∃ s' out, acceptorReceive s req = some (s', out) ∧
      NextContract reqs s req s' out ∧ Kept id (reqs ++ [req]) s' := by
  have hid := h.acceptorId
  cases req with
  | prepare pr =>
      obtain ⟨s', he, hb⟩ := acceptorReceivePrepare_eq s pr h.wf
      rw [hid] at he hb
      refine ⟨s', some (onPrepare id pr (records s.store pr.iid)), by simp [acceptorReceive, he],
        ⟨?_, ?_, ?_, by simp, by simp⟩,
        h.becomes _ hb (onPrepare_recordOf (h.record pr.iid)) ?_⟩
      · intro i hi
        apply frame_of_becomes hb
        rintro rfl
        simp [AcceptorReq.ballotFor] at hi
      · exact grows_of_becomes hb fun r hr => hr ▸ onPrepare_grows id pr r
      · rintro _ ⟨⟩
        exact ⟨_, rfl, onPrepare_ballot (h.record pr.iid)⟩
      · intro i hi
        simp [AcceptorReq.ballotFor, Ne.symm hi]
  | accept ar =>
      obtain ⟨s', he, hb⟩ := acceptorReceiveAccept_eq s ar h.wf
      rw [hid] at he hb
      refine ⟨s', some (onAccept id ar (records s.store ar.iid)), by simp [acceptorReceive, he],
        ⟨?_, ?_, by simp, ?_, by simp⟩,
        h.becomes _ hb (onAccept_recordOf (h.record ar.iid)) ?_⟩
      · intro i hi
        apply frame_of_becomes hb
        rintro rfl
        simp [AcceptorReq.ballotFor] at hi
      · refine grows_of_becomes hb fun r hr => ?_
        have hrec := h.record ar.iid
        rw [hr] at hrec ⊢
        exact onAccept_grows id ar r hrec.2.2.2.2.2.1
      · rintro _ ⟨⟩
        refine ⟨_, rfl, ?_⟩
        rw [onAccept_ballot, hb.saved]
        by_cases ha : accepts ar (records s.store ar.iid) = true <;> simp [ha]
      · intro i hi
        simp [AcceptorReq.ballotFor, Ne.symm hi]
  | «repeat» iid =>
      obtain ⟨s', he, hb⟩ := acceptorReceiveRepeat_eq s iid h.wf
      have hsame : records s'.store = records s.store := by
        rw [hb.records, Function.update_eq_self]
      refine ⟨s', records s.store iid, he, ⟨fun i _ => by rw [hsame], ?_, by simp, by simp, ?_⟩,
        h.becomes _ hb ((h.record iid).append_other _ rfl) fun _ _ => rfl⟩
      · intro i r hr
        exact ⟨r, by rw [hsame]; exact hr, Nat.le_refl _, Nat.le_refl _⟩
      · rintro _ ⟨⟩
        rfl

-- The run lemma: from a state kept along `done`, the rest of the history is
-- processed without a fault and its state is kept along the whole.
theorem Kept.run {id : Nat} {done : List AcceptorReq} {s : Logged σ} (h : Kept id done s)
    (rest : List AcceptorReq) :
    ∃ s', acceptorRun s rest = some s' ∧ Kept id (done ++ rest) s' := by
  induction rest generalizing done s with
  | nil => exact ⟨s, rfl, by simpa using h⟩
  | cons req rest ih =>
      obtain ⟨mid, out, he, _, hk⟩ := h.next req
      obtain ⟨s', hr, hk'⟩ := ih hk
      exact ⟨s', by simp [acceptorRun, he, hr], by simpa using hk'⟩

-- An acceptor over any storage that behaves as a map, after any sequence of
-- requests.
theorem acceptor_history_contract (σ : Type) [MapStorage σ] (id : Nat) (reqs : List AcceptorReq) :
    ∃ s : Logged σ, acceptorRun (storageOpen id) reqs = some s ∧ HistoryContract reqs s := by
  obtain ⟨s, hrun, hk⟩ := (Kept.open (σ := σ) id).run reqs
  rw [List.nil_append] at hk
  have hsome {i : Nat} {rec : AcceptorRecord} (hr : records s.store i = some rec) :
      RecordOf id i reqs (some rec) := hr ▸ hk.record i
  refine ⟨s, hrun, ?_, ?_, ?_, ?_, ?_⟩
  · exact fun i => (hk.record i).isSome_iff
  · intro i rec hr
    obtain ⟨_, _, _, hm, hmax, _⟩ := hsome hr
    exact ⟨hm, hmax⟩
  · intro i rec hr
    exact (hsome hr).2.2.2.2.2.2
  · intro i rec hr
    exact (hsome hr).2.2.2.2.2.1
  · intro req
    obtain ⟨s', out, he, hn, _⟩ := hk.next req
    exact ⟨s', out, he, hn⟩

example :
    ((acceptorRun (storageOpen 2 : Logged BdbStorage)
      [.prepare ⟨1, 101⟩, .accept ⟨1, 101, [7]⟩, .prepare ⟨1, 201⟩, .accept ⟨1, 150, [8]⟩]).bind
        fun s => records s.store 1) = some ⟨2, 1, 201, 101, false, [7]⟩ := by
  decide

end LibPaxos
