import LibPaxos.Acceptor.Theorems

namespace LibPaxos

open MapStorage

variable {σ : Type} [MapStorage σ]

-- What a record tells about the requests that were saved: its value is one of
-- them, and none of them lies between its value ballot and its ballot.
structure Truthful (saved : List AcceptReq) (rec : AcceptorRecord) : Prop where
  final : rec.isFinal = false
  le : rec.valueBallot ≤ rec.ballot
  vote : rec.valueBallot = 0 ∧ rec.value = [] ∨
    (⟨rec.iid, rec.valueBallot, rec.value⟩ : AcceptReq) ∈ saved
  gap : ∀ r ∈ saved, r.iid = rec.iid → r.ballot ≤ rec.valueBallot ∨ rec.ballot ≤ r.ballot

-- The invariant of acceptor `a` over a storage that behaves as a map.
structure Voter (a : Nat) (s : Logged σ) : Prop where
  wf : wf s.store
  acceptorId : acceptorId s.store = a
  record : ∀ i rec, records s.store i = some rec →
    rec.acceptorId = a ∧ rec.iid = i ∧ Truthful s.saved rec ∧
      ∀ r ∈ s.saved, r.iid = i → r.ballot ≤ rec.valueBallot
  saved : ∀ r ∈ s.saved, (records s.store r.iid).isSome = true

theorem Voter.open (a : Nat) : Voter a (storageOpen a : Logged σ) := by
  obtain ⟨hwf, hid, hrec⟩ := MapStorage.open_eq (σ := σ) a
  refine ⟨hwf, hid, fun i rec h => ?_, fun r hr => ?_⟩
  · change records (storageOpen a : σ) i = some rec at h
    rw [hrec] at h
    cases h
  · cases hr

-- One acceptor state is later than another: saved requests stay, ballots do not
-- fall, and a request is saved only at or above the ballot of the record it finds.
structure Logged.Grows (s s' : Logged σ) : Prop where
  saved : ∀ r ∈ s.saved, r ∈ s'.saved
  fresh : ∀ r ∈ s'.saved, r ∈ s.saved ∨
    ∀ rec, records s.store r.iid = some rec → rec.ballot ≤ r.ballot
  ballot : ∀ i rec, records s.store i = some rec →
    ∃ rec', records s'.store i = some rec' ∧ rec.ballot ≤ rec'.ballot

theorem Logged.Grows.refl (s : Logged σ) : s.Grows s :=
  ⟨fun _ hr => hr, fun _ hr => .inl hr, fun _ rec h => ⟨rec, h, Nat.le_refl _⟩⟩

-- A record that the acceptor had at some earlier moment.
structure Seen (s : Logged σ) (rec : AcceptorRecord) : Prop where
  bar : ∃ now, records s.store rec.iid = some now ∧ rec.ballot ≤ now.ballot
  truth : Truthful s.saved rec

theorem Voter.seen {a : Nat} {s : Logged σ} (h : Voter a s) {i : Nat} {rec : AcceptorRecord}
    (hr : records s.store i = some rec) : Seen s rec := by
  obtain ⟨_, hiid, htruth, _⟩ := h.record i rec hr
  exact ⟨⟨rec, hiid ▸ hr, Nat.le_refl _⟩, htruth⟩

theorem Seen.mono {s s' : Logged σ} {rec : AcceptorRecord} (h : Seen s rec) (hg : s.Grows s') :
    Seen s' rec := by
  obtain ⟨now, hnow, hle⟩ := h.bar
  obtain ⟨later, hlater, hle'⟩ := hg.ballot rec.iid now hnow
  refine ⟨⟨later, hlater, Nat.le_trans hle hle'⟩, h.truth.final, h.truth.le, ?_, ?_⟩
  · rcases h.truth.vote with hzero | hvote
    · exact .inl hzero
    · exact .inr (hg.saved _ hvote)
  · intro r hr hiid
    rcases hg.fresh r hr with hold | hfresh
    · exact h.truth.gap r hold hiid
    · exact .inr (Nat.le_trans hle (hfresh now (hiid ▸ hnow)))

-- How one request changes an acceptor that keeps its invariant.
theorem Voter.becomes {a iid : Nat} {s s' : Logged σ} {rec : AcceptorRecord}
    {added : List AcceptReq} (h : Voter a s) (hb : s.Becomes s' iid (some rec) added)
    (hid : rec.acceptorId = a) (hiid : rec.iid = iid) (hfinal : rec.isFinal = false)
    (hle : rec.valueBallot ≤ rec.ballot)
    (hvote : rec.valueBallot = 0 ∧ rec.value = [] ∨
      (⟨iid, rec.valueBallot, rec.value⟩ : AcceptReq) ∈ s.saved ++ added)
    (htop : ∀ r ∈ s.saved ++ added, r.iid = iid → r.ballot ≤ rec.valueBallot)
    (hadded : ∀ r ∈ added, r.iid = iid ∧
      ∀ old, records s.store iid = some old → old.ballot ≤ r.ballot)
    (hgrow : ∀ old, records s.store iid = some old → old.ballot ≤ rec.ballot) :
    Voter a s' ∧ s.Grows s' ∧ Seen s' rec := by
  have hself : records s'.store iid = some rec := by rw [hb.records, Function.update_self]
  have hother {i : Nat} (hi : i ≠ iid) : records s'.store i = records s.store i := by
    rw [hb.records, Function.update_of_ne hi]
  have hvoter : Voter a s' := by
    refine ⟨hb.wf, hb.acceptorId.trans h.acceptorId, fun i item hr => ?_, fun r hr => ?_⟩
    · rw [hb.saved]
      by_cases hi : i = iid
      · subst hi
        rw [hself, Option.some.injEq] at hr
        subst hr
        subst hiid
        exact ⟨hid, rfl, ⟨hfinal, hle, hvote, fun r hr he => .inl (htop r hr he)⟩, htop⟩
      · rw [hother hi] at hr
        obtain ⟨hrid, hriid, htruth, hmax⟩ := h.record i item hr
        have hmax' (r : AcceptReq) (hm : r ∈ s.saved ++ added) (he : r.iid = i) :
            r.ballot ≤ item.valueBallot := by
          rcases List.mem_append.mp hm with hm | hm
          · exact hmax r hm he
          · exact absurd (he.symm.trans (hadded r hm).1) hi
        refine ⟨hrid, hriid, ⟨htruth.final, htruth.le, ?_, fun r hm he =>
          .inl (hmax' r hm (he.trans hriid))⟩, hmax'⟩
        exact htruth.vote.imp_right (List.mem_append_left _)
    · rw [hb.saved] at hr
      by_cases hi : r.iid = iid
      · rw [hi, hself]
        rfl
      · rw [hother hi]
        rcases List.mem_append.mp hr with hr | hr
        · exact h.saved r hr
        · exact absurd (hadded r hr).1 hi
  refine ⟨hvoter, ⟨?_, ?_, ?_⟩, hvoter.seen hself⟩
  · intro r hr
    rw [hb.saved]
    exact List.mem_append_left _ hr
  · intro r hr
    rw [hb.saved] at hr
    rcases List.mem_append.mp hr with hr | hr
    · exact .inl hr
    · obtain ⟨hi, hold⟩ := hadded r hr
      exact .inr (hi ▸ hold)
  · intro i old hold
    by_cases hi : i = iid
    · subst hi
      exact ⟨rec, hself, hgrow old hold⟩
    · exact ⟨old, (hother hi).trans hold, Nat.le_refl _⟩

-- A prepare raises the ballot of the record or finds one at least as high.
theorem Voter.prepare {a : Nat} {s : Logged σ} (h : Voter a s) (req : PrepareReq) :
    ∃ s' rec, acceptorReceivePrepare s req = some (s', rec) ∧ Voter a s' ∧ s.Grows s' ∧
      Seen s' rec ∧ rec.acceptorId = a ∧ rec.iid = req.iid ∧ s'.saved = s.saved ∧
      records s'.store = Function.update (records s.store) req.iid (some rec) ∧
      (rec.ballot = req.ballot ∨ records s.store req.iid = some rec ∧ req.ballot < rec.ballot) := by
  obtain ⟨s', he, hb⟩ := acceptorReceivePrepare_eq s req h.wf
  rw [h.acceptorId] at he hb
  have hsaved : s'.saved = s.saved := by rw [hb.saved, List.append_nil]
  cases hr : records s.store req.iid with
  | none =>
      rw [hr] at he hb
      have hempty (r : AcceptReq) (hm : r ∈ s.saved ++ []) (hi : r.iid = req.iid) : False := by
        rw [List.append_nil] at hm
        have := h.saved r hm
        rw [hi, hr] at this
        cases this
      obtain ⟨hv, hg, hs⟩ := h.becomes hb rfl rfl rfl (Nat.zero_le _) (.inl ⟨rfl, rfl⟩)
        (fun r hm hi => (hempty r hm hi).elim) (by simp) (by simp [hr])
      exact ⟨s', _, he, hv, hg, hs, rfl, rfl, hsaved, hb.records, .inl rfl⟩
  | some old =>
      rw [hr] at he hb
      obtain ⟨hid, hiid, htruth, hmax⟩ := h.record req.iid old hr
      have hmax' (r : AcceptReq) (hm : r ∈ s.saved ++ []) (hi : r.iid = req.iid) :
          r.ballot ≤ old.valueBallot := hmax r (by simpa using hm) hi
      have hvote : old.valueBallot = 0 ∧ old.value = [] ∨
          (⟨req.iid, old.valueBallot, old.value⟩ : AcceptReq) ∈ s.saved ++ [] := by
        rw [List.append_nil, ← hiid]
        exact htruth.vote
      by_cases hge : req.ballot ≤ old.ballot
      · have hsame : onPrepare a req (some old) = old := by simp [onPrepare, hge]
        rw [hsame] at he hb
        obtain ⟨hv, hg, hs⟩ := h.becomes hb hid hiid htruth.final htruth.le hvote hmax' (by simp)
          (by simp [hr])
        refine ⟨s', old, he, hv, hg, hs, hid, hiid, hsaved, hb.records, ?_⟩
        by_cases heq : old.ballot = req.ballot
        · exact .inl heq
        · exact .inr ⟨rfl, by omega⟩
      · have hnew : onPrepare a req (some old) = { old with ballot := req.ballot } := by
          simp [onPrepare, hge, htruth.final, prepareRecord]
        rw [hnew] at he hb
        have hle := htruth.le
        obtain ⟨hv, hg, hs⟩ := h.becomes hb hid hiid htruth.final (by dsimp only; omega) hvote hmax'
          (by simp) (by simp only [hr, Option.some.injEq, forall_eq']; omega)
        exact ⟨s', _, he, hv, hg, hs, hid, hiid, hsaved, hb.records, .inl rfl⟩

-- An accept request is saved, or refused by a record of a higher ballot.
theorem Voter.accept {a : Nat} {s : Logged σ} (h : Voter a s) (req : AcceptReq) :
    ∃ s' rec, acceptorReceiveAccept s req = some (s', rec) ∧ Voter a s' ∧ s.Grows s' ∧
      Seen s' rec ∧ rec.acceptorId = a ∧ rec.iid = req.iid ∧
      records s'.store = Function.update (records s.store) req.iid (some rec) ∧
      ((rec = acceptRecord a req ∧ s'.saved = s.saved ++ [req]) ∨
        (records s.store req.iid = some rec ∧ req.ballot < rec.ballot ∧ s'.saved = s.saved)) := by
  obtain ⟨s', he, hb⟩ := acceptorReceiveAccept_eq s req h.wf
  rw [h.acceptorId] at he hb
  by_cases hacc : accepts req (records s.store req.iid) = true
  · have hrec : onAccept a req (records s.store req.iid) = acceptRecord a req := by
      simp [onAccept, hacc]
    rw [hrec] at he hb
    rw [if_pos hacc] at hb
    have hold (old : AcceptorRecord) (ho : records s.store req.iid = some old) :
        old.ballot ≤ req.ballot := by simpa [accepts, ho] using hacc
    have htop (r : AcceptReq) (hm : r ∈ s.saved ++ [req]) (hi : r.iid = req.iid) :
        r.ballot ≤ req.ballot := by
      rcases List.mem_append.mp hm with hm | hm
      · obtain ⟨old, ho⟩ := Option.isSome_iff_exists.mp (h.saved r hm)
        rw [hi] at ho
        obtain ⟨_, _, htruth, hmax⟩ := h.record req.iid old ho
        have := hmax r hm hi
        have := htruth.le
        have := hold old ho
        omega
      · exact List.mem_singleton.mp hm ▸ Nat.le_refl _
    obtain ⟨hv, hg, hs⟩ := h.becomes hb rfl rfl rfl (Nat.le_refl _) (.inr (by simp [acceptRecord]))
      htop (by simpa using hold) hold
    exact ⟨s', _, he, hv, hg, hs, rfl, rfl, hb.records, .inl ⟨rfl, hb.saved⟩⟩
  · cases hr : records s.store req.iid with
    | none => simp [hr, accepts] at hacc
    | some old =>
        rw [if_neg hacc] at hb
        rw [hr] at he hb hacc
        have hlt : req.ballot < old.ballot := by simpa [accepts] using hacc
        have hrec : onAccept a req (some old) = old := by simp [onAccept, hacc]
        rw [hrec] at he hb
        obtain ⟨hid, hiid, htruth, hmax⟩ := h.record req.iid old hr
        have hvote : old.valueBallot = 0 ∧ old.value = [] ∨
            (⟨req.iid, old.valueBallot, old.value⟩ : AcceptReq) ∈ s.saved ++ [] := by
          rw [List.append_nil, ← hiid]
          exact htruth.vote
        obtain ⟨hv, hg, hs⟩ := h.becomes hb hid hiid htruth.final htruth.le hvote
          (fun r hm hi => hmax r (by simpa using hm) hi) (by simp) (by simp [hr])
        exact ⟨s', old, he, hv, hg, hs, hid, hiid, hb.records,
          .inr ⟨rfl, hlt, by rw [hb.saved, List.append_nil]⟩⟩

theorem Voter.again {a : Nat} {s : Logged σ} (h : Voter a s) (iid : Nat) :
    ∃ s', acceptorReceiveRepeat s iid = some (s', records s.store iid) ∧ Voter a s' ∧
      s.Grows s' ∧ s'.saved = s.saved ∧ records s'.store = records s.store := by
  obtain ⟨s', he, hb⟩ := acceptorReceiveRepeat_eq s iid h.wf
  have hsame : records s'.store = records s.store := by
    rw [hb.records, Function.update_eq_self]
  have hsaved : s'.saved = s.saved := by rw [hb.saved, List.append_nil]
  refine ⟨s', he, ⟨hb.wf, hb.acceptorId.trans h.acceptorId, ?_, ?_⟩, ⟨?_, ?_, ?_⟩, hsaved, hsame⟩
  · rw [hsame, hsaved]
    exact h.record
  · rw [hsame, hsaved]
    exact h.saved
  · exact fun r hr => hsaved ▸ hr
  · exact fun r hr => .inl (hsaved ▸ hr)
  · exact fun i rec hr => ⟨rec, by rw [hsame]; exact hr, Nat.le_refl _⟩

end LibPaxos
