import LibPaxos.Messages

namespace LibPaxos

-- `acceptorIds` is the malloc'ed flag array, one `int` for each acceptor.
structure Quorum where
  count : Nat
  quorum : Nat
  acceptors : Nat
  acceptorIds : List Int
  deriving Repr, DecidableEq

-- The clearing loop runs to `quorum`, not to `acceptors`.
def quorumClear (q : Quorum) : Quorum :=
  { q with
    count := 0
    acceptorIds := (List.range q.quorum).foldl (fun ids i => ids.set i 0) q.acceptorIds }

-- `junk` is what the fresh memory happens to hold.
def quorumInit (acceptors : Nat) (junk : Nat → Int) : Quorum :=
  quorumClear
    { count := 0
      quorum := paxosQuorum acceptors
      acceptors := acceptors
      acceptorIds := (List.range acceptors).map junk }

def quorumAdd (q : Quorum) (id : Nat) : Except Fault (Quorum × Bool) :=
  match q.acceptorIds[id]? with
  | none => .error .outOfBounds
  | some flag =>
      if flag = 0 then
        .ok ({ q with count := q.count + 1, acceptorIds := q.acceptorIds.set id 1 }, true)
      else
        .ok (q, false)

def quorumReached (q : Quorum) : Bool := q.quorum ≤ q.count

@[simp] theorem quorumClear_count (q : Quorum) : (quorumClear q).count = 0 := rfl

@[simp] theorem quorumClear_quorum (q : Quorum) : (quorumClear q).quorum = q.quorum := rfl

@[simp] theorem quorumClear_length (q : Quorum) :
    (quorumClear q).acceptorIds.length = q.acceptorIds.length := by
  have hfold (ids : List Int) (l : List Nat) :
      (l.foldl (fun ids i => ids.set i 0) ids).length = ids.length := by
    induction l generalizing ids with
    | nil => rfl
    | cons i rest ih => simp [ih]
  exact hfold _ _

-- A quorum made for `n` acceptors: an `int` for each of them, a majority asked for.
def Quorum.Sized (n : Nat) (q : Quorum) : Prop :=
  q.quorum = paxosQuorum n ∧ q.acceptorIds.length = n

theorem quorumClear_sized {n : Nat} {q : Quorum} (h : q.Sized n) : (quorumClear q).Sized n :=
  ⟨h.1, (quorumClear_length q).trans h.2⟩

theorem quorumInit_sized (n : Nat) (junk : Nat → Int) : (quorumInit n junk).Sized n := by
  apply quorumClear_sized
  exact ⟨rfl, by simp⟩

theorem quorumClear_reached {n : Nat} {q : Quorum} (h : q.Sized n) :
    quorumReached (quorumClear q) = false := by
  simp [quorumReached, h.1, paxosQuorum]

theorem quorumAdd_ok {n : Nat} {q : Quorum} (h : q.Sized n) {id : Nat} (hid : id < n) :
    quorumAdd q id = .ok (q, false) ∨
      quorumAdd q id =
        .ok ({ q with count := q.count + 1, acceptorIds := q.acceptorIds.set id 1 }, true) := by
  have hlt : id < q.acceptorIds.length := h.2 ▸ hid
  unfold quorumAdd
  rw [List.getElem?_eq_getElem hlt]
  by_cases hf : q.acceptorIds[id] = 0
  · right; simp [hf]
  · left; simp [hf]

theorem quorumAdd_true {q q' : Quorum} {id : Nat} (h : quorumAdd q id = .ok (q', true)) :
    q.acceptorIds[id]? = some 0 ∧
      q' = { q with count := q.count + 1, acceptorIds := q.acceptorIds.set id 1 } := by
  unfold quorumAdd at h
  split at h
  · cases h
  · rename_i flag hflag
    split at h
    · rename_i hzero
      simp only [Except.ok.injEq, Prod.mk.injEq, and_true] at h
      exact ⟨hzero ▸ hflag, h.symm⟩
    · simp at h

theorem quorumAdd_false {q q' : Quorum} {id : Nat} (h : quorumAdd q id = .ok (q', false)) :
    q' = q := by
  unfold quorumAdd at h
  split at h
  · cases h
  · split at h
    · simp at h
    · simp only [Except.ok.injEq, Prod.mk.injEq, and_true] at h
      exact h.symm

theorem quorumAdd_sized {n : Nat} {q q' : Quorum} {id : Nat} {added : Bool} (hq : q.Sized n)
    (h : quorumAdd q id = .ok (q', added)) : q'.Sized n := by
  cases added with
  | false => exact quorumAdd_false h ▸ hq
  | true =>
      obtain ⟨_, rfl⟩ := quorumAdd_true h
      exact ⟨hq.1, by simpa using hq.2⟩

-- `count` never exceeds the number of distinct acceptors with property `p` that
-- were added since the last clear. It may be lower than the number that
-- answered: a flag the clearing loop left set makes `quorumAdd` drop its acceptor.
def Quorum.CountedBy (q : Quorum) (p : Nat → Prop) : Prop :=
  ∃ group : Finset Nat, group.card = q.count ∧
    ∀ a ∈ group, (∃ flag, q.acceptorIds[a]? = some flag ∧ flag ≠ 0) ∧ p a

theorem Quorum.countedBy_clear (q : Quorum) (p : Nat → Prop) : (quorumClear q).CountedBy p :=
  ⟨∅, by simp, by simp⟩

theorem Quorum.CountedBy.mono {q : Quorum} {p p' : Nat → Prop} (h : q.CountedBy p)
    (hp : ∀ a, p a → p' a) : q.CountedBy p' := by
  obtain ⟨group, hcard, hg⟩ := h
  exact ⟨group, hcard, fun a ha => ⟨(hg a ha).1, hp a (hg a ha).2⟩⟩

theorem Quorum.CountedBy.add {q q' : Quorum} {p : Nat → Prop} {id : Nat} {added : Bool}
    (hc : q.CountedBy p) (hp : p id) (h : quorumAdd q id = .ok (q', added)) : q'.CountedBy p := by
  cases added with
  | false => exact quorumAdd_false h ▸ hc
  | true =>
      obtain ⟨hzero, rfl⟩ := quorumAdd_true h
      obtain ⟨group, hcard, hg⟩ := hc
      have hlt : id < q.acceptorIds.length := (List.getElem?_eq_some_iff.mp hzero).1
      have hnew : id ∉ group := by
        intro hm
        obtain ⟨flag, hf, hne⟩ := (hg id hm).1
        rw [hzero, Option.some.injEq] at hf
        exact hne hf.symm
      refine ⟨insert id group, by rw [Finset.card_insert_of_notMem hnew, hcard], ?_⟩
      intro a ha
      rcases Finset.mem_insert.mp ha with rfl | hm
      · exact ⟨⟨1, by simp [hlt], by decide⟩, hp⟩
      · obtain ⟨⟨flag, hf, hne⟩, hpa⟩ := hg a hm
        have hia : id ≠ a := fun he => hnew (he ▸ hm)
        exact ⟨⟨flag, by simpa [List.getElem?_set, hia] using hf, hne⟩, hpa⟩

-- A reached quorum is a majority of acceptors with the property.
theorem Quorum.CountedBy.majority {n : Nat} {q : Quorum} {p : Nat → Prop} (hc : q.CountedBy p)
    (hs : q.Sized n) (hr : quorumReached q = true) :
    ∃ group : Finset Nat, (group ⊆ Finset.range n ∧ n / 2 + 1 ≤ group.card) ∧ ∀ a ∈ group, p a := by
  obtain ⟨group, hcard, hg⟩ := hc
  refine ⟨group, ⟨fun a ha => ?_, ?_⟩, fun a ha => (hg a ha).2⟩
  · obtain ⟨flag, hf, _⟩ := (hg a ha).1
    rw [Finset.mem_range, ← hs.2]
    exact (List.getElem?_eq_some_iff.mp hf).1
  · have hle : q.quorum ≤ q.count := of_decide_eq_true hr
    rw [hs.1, paxosQuorum] at hle
    omega

end LibPaxos
