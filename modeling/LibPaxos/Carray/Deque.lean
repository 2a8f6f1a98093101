import LibPaxos.Carray
import LibPaxos.Circular
import LibPaxos.Server

namespace LibPaxos

variable {α β : Type}

-- The last round of a counting loop.
theorem foldlM_range_succ {ε σ : Type} {f : σ → Nat → Except ε σ} {n : Nat} {s mid s' : σ}
    (hrun : (List.range n).foldlM f s = .ok mid) (hlast : f mid n = .ok s') :
    (List.range (n + 1)).foldlM f s = .ok s' := by
  rw [List.range_succ, List.foldlM_append, hrun]
  change List.foldlM f mid [n] = Except.ok s'
  rw [List.foldlM_cons, hlast]
  rfl

-- A counting loop whose body keeps `P`, indexed by the number of rounds done.
theorem foldlM_range_invariant {ε σ : Type} {f : σ → Nat → Except ε σ} (P : Nat → σ → Prop)
    {n : Nat} {s : σ} (hinit : P 0 s)
    (hstep : ∀ k < n, ∀ s, P k s → ∃ s', f s k = .ok s' ∧ P (k + 1) s') :
    ∃ s', (List.range n).foldlM f s = .ok s' ∧ P n s' := by
  induction n with
  | zero => exact ⟨s, rfl, hinit⟩
  | succ n ih =>
      obtain ⟨mid, hrun, hmid⟩ := ih fun k hk => hstep k (by omega)
      obtain ⟨s', hlast, hs'⟩ := hstep n (by omega) mid hmid
      exact ⟨s', foldlM_range_succ hrun hlast, hs'⟩

-- The list that is read off an array.
def carrayElements (a : Carray α) : Except Fault (List (Option α)) :=
  (List.range (carrayCount a)).mapM fun (i : Nat) => carrayAt a i

-- The array holds `list`, from its head on.
structure Carray.Deque (a : Carray α) (list : List (Option α)) : Prop where
  size : a.array.length = a.size
  count : a.count = list.length
  tail : a.tail = (a.head + a.count) % a.size
  view : Circular a.array a.head list

theorem Carray.Deque.new {size : Nat} (h : 1 ≤ size) :
    (carrayNew size : Carray α).Deque [] := by
  refine ⟨by simp [carrayNew], rfl, by simp [carrayNew], .nil ?_⟩
  simp only [carrayNew, List.length_replicate]
  omega

variable {a : Carray α} {list : List (Option α)}

theorem Carray.Deque.bounds (h : a.Deque list) :
    a.head < a.size ∧ a.tail < a.size ∧ a.count ≤ a.size := by
  have hhead := h.view.head_lt
  have hlen := h.view.length_le
  rw [h.size] at hhead hlen
  refine ⟨hhead, ?_, h.count ▸ hlen⟩
  rw [h.tail]
  exact Circular.index_lt hhead

theorem Carray.Deque.empty_iff (h : a.Deque list) : carrayEmpty a = true ↔ list = [] := by
  rw [carrayEmpty, decide_eq_true_iff, h.count, List.length_eq_zero_iff]

theorem Carray.Deque.at_eq (h : a.Deque list) {i : Nat} {p : Option α} (hp : list[i]? = some p) :
    carrayAt a i = .ok p := by
  obtain ⟨hi, _⟩ := List.getElem?_eq_some_iff.mp hp
  have hempty : ¬carrayEmpty a = true := by
    rw [h.empty_iff]
    rintro rfl
    exact Nat.not_lt_zero i hi
  have hindex : carrayIndex a i = (((a.head + i) % a.size : Nat) : Int) := by
    rw [carrayIndex, Int.tmod_eq_emod_of_nonneg (by omega)]
    simp
  have hnonneg : ¬(((a.head + i) % a.size : Nat) : Int) < 0 := by omega
  have hget := h.view.get i hi
  rw [h.size, hp] at hget
  rw [carrayAt, if_neg hempty, hindex, if_neg hnonneg, Int.toNat_natCast, hget]

theorem Carray.Deque.at_of_lt (h : a.Deque list) {i : Nat} (hi : i < carrayCount a) :
    ∃ p, list[i]? = some p ∧ carrayAt a i = .ok p := by
  rw [carrayCount, h.count] at hi
  exact ⟨list[i], List.getElem?_eq_getElem hi, h.at_eq (List.getElem?_eq_getElem hi)⟩

theorem Carray.Deque.elements (h : a.Deque list) : carrayElements a = .ok list := by
  have hread (n : Nat) (hn : n ≤ list.length) :
      (List.range n).mapM (fun (i : Nat) => carrayAt a i) = .ok (list.take n) := by
    induction n with
    | zero => rfl
    | succ n ih =>
        obtain ⟨p, hp, hat⟩ := h.at_of_lt (i := n) (by rw [carrayCount, h.count]; omega)
        have hlast : [n].mapM (fun (i : Nat) => carrayAt a i) = .ok [p] := by
          rw [List.mapM_cons, hat]
          rfl
        rw [List.range_succ, List.mapM_append, ih (by omega), hlast, List.take_add_one, hp]
        rfl
  rw [carrayElements, carrayCount, h.count, hread _ (Nat.le_refl _), List.take_length]

theorem Carray.Deque.put (h : a.Deque list) (hroom : a.count < a.size) (p : Option α) :
    ∃ a', carrayPut a p = .ok a' ∧ a'.Deque (list ++ [p]) ∧ a'.size = a.size ∧
      a'.head = a.head := by
  obtain ⟨_, htail, _⟩ := h.bounds
  refine ⟨_, if_pos (by rwa [h.size]), ⟨?_, ?_, ?_, ?_⟩, rfl, rfl⟩
  · simp [h.size]
  · simp [h.count]
  · change (a.tail + 1) % a.size = (a.head + (a.count + 1)) % a.size
    rw [h.tail, Nat.mod_add_mod, Nat.add_assoc]
  · have hview := h.view.push_back (by rwa [← h.count, h.size]) p
    rw [← h.count, h.size, ← h.tail] at hview
    exact hview

-- The loop of `carray_grow`. The source pushes with `carray_push_back`, which never
-- has to grow the new array in turn.
theorem Carray.Deque.grow_loop (h : a.Deque list) :
    ∃ tmp : Carray α,
      (List.range (carrayCount a)).foldlM
        (fun tmp (i : Nat) => do carrayPushBackPointer tmp (← carrayAt a i))
        (carrayNew (a.size * 2)) = .ok tmp ∧
      (List.range (carrayCount a)).foldlM
        (fun tmp (i : Nat) => do carrayPut tmp (← carrayAt a i)) (carrayNew (a.size * 2)) =
          .ok tmp ∧
      tmp.Deque list ∧ tmp.size = a.size * 2 ∧ tmp.head = 0 := by
  obtain ⟨hhead, _, hle⟩ := h.bounds
  obtain ⟨tmp, hpushes, hputs, htmp, hrest⟩ := foldlM_range_invariant
    (f := fun tmp (i : Nat) => do carrayPushBackPointer tmp (← carrayAt a i))
    (fun k (tmp : Carray α) =>
      (List.range k).foldlM (fun tmp (i : Nat) => do carrayPut tmp (← carrayAt a i))
        (carrayNew (a.size * 2)) = .ok tmp ∧
      tmp.Deque (list.take k) ∧ tmp.size = a.size * 2 ∧ tmp.head = 0)
    (n := carrayCount a) (s := carrayNew (a.size * 2))
    ⟨rfl, .new (by omega), rfl, rfl⟩ (fun k hk tmp ⟨hputs, htmp, hsize, hzero⟩ => by
      obtain ⟨p, hp, hat⟩ := h.at_of_lt hk
      have hroom : tmp.count < tmp.size := by
        rw [carrayCount] at hk
        rw [htmp.count, hsize, List.length_take]
        omega
      have hfull : ¬carrayFull tmp = true := by
        rw [carrayFull, decide_eq_true_iff]
        omega
      obtain ⟨tmp', hput, htmp', hsize', hhead'⟩ := htmp.put hroom p
      refine ⟨tmp', ?_, foldlM_range_succ hputs ?_, ?_, by rw [hsize', hsize],
        by rw [hhead', hzero]⟩
      · rw [hat]
        change carrayPushBackPointer tmp p = .ok tmp'
        rw [carrayPushBackPointer, carrayMakeRoom, if_neg hfull]
        exact hput
      · rw [hat]
        exact hput
      · rwa [List.take_add_one, hp])
  rw [carrayCount, h.count, List.take_length] at htmp
  exact ⟨tmp, hpushes, hputs, htmp, hrest⟩

-- Growing moves the elements to the front of an array twice the size.
theorem Carray.Deque.grow (h : a.Deque list) :
    ∃ a', carrayGrow a = .ok a' ∧ a'.Deque list ∧ a'.size = a.size * 2 := by
  obtain ⟨tmp, _, hputs, htmp, hsize, hzero⟩ := h.grow_loop
  refine ⟨{ a with head := 0, tail := tmp.tail, size := tmp.size, array := tmp.array }, ?_,
    ⟨htmp.size, h.count, ?_, hzero ▸ htmp.view⟩, hsize⟩
  · rw [carrayGrow, hputs]
    rfl
  · change tmp.tail = (0 + a.count) % tmp.size
    rw [htmp.tail, hzero, htmp.count, h.count]

theorem Carray.Deque.room (h : a.Deque list) :
    ∃ a', carrayMakeRoom a = .ok a' ∧ a'.Deque list ∧ a'.count < a'.size := by
  unfold carrayMakeRoom
  obtain ⟨hhead, _, hle⟩ := h.bounds
  by_cases hfull : carrayFull a = true
  · obtain ⟨a', hgrow, ha', hsize⟩ := h.grow
    refine ⟨a', by rw [if_pos hfull, hgrow], ha', ?_⟩
    rw [ha'.count, ← h.count, hsize]
    omega
  · refine ⟨a, if_neg hfull, h, ?_⟩
    rw [carrayFull, decide_eq_true_iff] at hfull
    omega

theorem Carray.Deque.pushBack (h : a.Deque list) (p : Option α) :
    ∃ a', carrayPushBackPointer a p = .ok a' ∧ a'.Deque (list ++ [p]) := by
  obtain ⟨mid, hcheck, hmid, hroom⟩ := h.room
  obtain ⟨a', hput, ha', _⟩ := hmid.put hroom p
  refine ⟨a', ?_, ha'⟩
  rw [carrayPushBackPointer, hcheck]
  exact hput

theorem Carray.Deque.putFront (h : a.Deque list) (hroom : a.count < a.size) (p : Option α) :
    ∃ a', carrayPutFront a p = .ok a' ∧ a'.Deque (p :: list) := by
  unfold carrayPutFront
  by_cases hempty : carrayEmpty a = true
  · obtain rfl := h.empty_iff.mp hempty
    rw [if_pos hempty]
    exact h.pushBack p
  · have hview := h.view.push_front (by rwa [← h.count, h.size]) p
    rw [h.size] at hview
    obtain ⟨hhead, _, _⟩ := h.bounds
    rw [if_neg hempty]
    dsimp only
    generalize hfront : (if 1 ≤ a.head then a.head - 1 else a.size - 1) = front at hview ⊢
    have hlt : front < a.size := by
      rw [← hfront]
      split_ifs <;> omega
    refine ⟨_, if_pos (by rwa [h.size]), ⟨by simp [h.size], by simp [h.count], ?_, hview⟩⟩
    -- The tail stays where it is: one place further from the new head.
    change a.tail = (front + (a.count + 1)) % a.size
    rw [h.tail, Circular.mod_eq_ite (by omega), Circular.mod_eq_ite (by omega), ← hfront]
    split_ifs <;> omega

theorem Carray.Deque.pushFront (h : a.Deque list) (p : Option α) :
    ∃ a', carrayPushFront a p = .ok a' ∧ a'.Deque (p :: list) := by
  obtain ⟨mid, hcheck, hmid, hroom⟩ := h.room
  obtain ⟨a', hput, ha'⟩ := hmid.putFront hroom p
  refine ⟨a', ?_, ha'⟩
  rw [carrayPushFront, hcheck]
  exact hput

theorem Carray.Deque.front (h : a.Deque list) : carrayFront a = .ok list.head?.join := by
  unfold carrayFront
  cases list with
  | nil => rw [if_pos (h.empty_iff.mpr rfl), List.head?_nil, Option.join_none]
  | cons p rest =>
      rw [if_neg (by rw [h.empty_iff]; simp), h.view.front]
      rfl

theorem Carray.Deque.popFront (h : a.Deque list) :
    ∃ a', carrayPopFront a = .ok (a', list.head?.join) ∧ a'.Deque list.tail := by
  unfold carrayPopFront
  cases list with
  | nil => exact ⟨a, by rw [if_pos (h.empty_iff.mpr rfl), List.head?_nil, Option.join_none], h⟩
  | cons p rest =>
      have hcount := h.count
      rw [List.length_cons] at hcount
      have hview := h.view.pop_front
      rw [h.size] at hview
      refine ⟨{ a with head := (a.head + 1) % a.size, count := a.count - 1 }, ?_,
        ⟨h.size, ?_, ?_, hview⟩⟩
      · rw [if_neg (by rw [h.empty_iff]; simp), h.view.front]
        rfl
      · change a.count - 1 = rest.length
        omega
      · change a.tail = ((a.head + 1) % a.size + (a.count - 1)) % a.size
        rw [Nat.mod_add_mod, h.tail]
        congr 1
        omega

-- The loops over all elements.
section

variable (matchFn : β → Option α → Int) (arg : β)

theorem Carray.Deque.firstMatch (h : a.Deque list) :
    carrayFirstMatch a matchFn arg = .ok (list.find? fun p => matchFn arg p ≠ 0).join := by
  have hloop (start n : Nat) (hn : start + n = list.length) :
      carrayFirstMatchOf a matchFn arg (List.range' start n) =
        .ok ((list.drop start).find? fun p => matchFn arg p ≠ 0).join := by
    induction n generalizing start with
    | zero =>
        rw [List.drop_eq_nil_of_le (by omega)]
        rfl
    | succ n ih =>
        obtain ⟨p, hp, hat⟩ := h.at_of_lt (i := start) (by rw [carrayCount, h.count]; omega)
        obtain ⟨hlt, rfl⟩ := List.getElem?_eq_some_iff.mp hp
        rw [List.range'_succ, carrayFirstMatchOf, hat, List.drop_eq_getElem_cons hlt]
        change (if matchFn arg list[start] ≠ 0 then Except.ok list[start] else _) = _
        by_cases hm : matchFn arg list[start] = 0
        · rw [if_neg (not_not.mpr hm), ih (start + 1) (by omega)]
          simp [hm]
        · rw [if_pos hm]
          simp [hm]
  rw [carrayFirstMatch, carrayCount, h.count, List.range_eq_range']
  simpa using hloop 0 list.length (by omega)

theorem Carray.Deque.countMatch (h : a.Deque list) :
    carrayCountMatch a matchFn arg = .ok (list.countP fun p => matchFn arg p ≠ 0) := by
  obtain ⟨count, hloop, hcount⟩ := foldlM_range_invariant
    (f := fun count (i : Nat) => do
      let p ← carrayAt a i
      if matchFn arg p ≠ 0 then .ok (count + 1) else .ok count)
    (fun k count => count = (list.take k).countP fun p => matchFn arg p ≠ 0)
    (n := carrayCount a) (s := 0) rfl (fun k hk count hcount => by
      obtain ⟨p, hp, hat⟩ := h.at_of_lt hk
      refine ⟨if matchFn arg p ≠ 0 then count + 1 else count, ?_, ?_⟩
      · rw [hat]
        exact (apply_ite Except.ok _ _ _).symm
      · rw [List.take_add_one, hp, List.countP_append, ← hcount]
        by_cases hm : matchFn arg p = 0 <;> simp [hm])
  rw [carrayCount, h.count, List.take_length] at hcount
  rw [carrayCountMatch, hloop, hcount]

-- The new array is filled by pushes, so it also grows if it has to.
theorem Carray.Deque.map (h : a.Deque list) (target : Int) :
    ∃ new, carrayMap a matchFn arg target = .ok new ∧
      new.Deque (list.filter fun p => matchFn arg p = target) := by
  obtain ⟨hhead, _, _⟩ := h.bounds
  obtain ⟨new, hloop, hnew⟩ := foldlM_range_invariant
    (f := fun new (i : Nat) => do
      let p ← carrayAt a i
      if matchFn arg p = target then carrayPushBackPointer new p else .ok new)
    (fun k new => new.Deque ((list.take k).filter fun p => matchFn arg p = target))
    (n := carrayCount a) (s := carrayNew a.size) (.new (by omega)) (fun k hk new hnew => by
      obtain ⟨p, hp, hat⟩ := h.at_of_lt hk
      rw [hat, List.take_add_one, hp, List.filter_append]
      change ∃ s', (if matchFn arg p = target then _ else _) = Except.ok s' ∧ _
      by_cases hm : matchFn arg p = target
      · obtain ⟨new', hpush, hnew'⟩ := hnew.pushBack p
        exact ⟨new', by rw [if_pos hm, hpush], by simpa [hm] using hnew'⟩
      · exact ⟨new, if_neg hm, by simpa [hm] using hnew⟩)
  rw [carrayCount, h.count, List.take_length] at hnew
  exact ⟨new, hloop, hnew⟩

end

-- The representation invariant. With sizes below 2 ^ 30 every `int` that the
-- operations compute stays below 2 ^ 31.
structure Carray.Invariant (a : Carray α) : Prop where
  head : a.head < a.size
  tail : a.tail < a.size
  count : a.count ≤ a.size
  tail_eq : a.tail = (a.head + a.count) % a.size
  ints : a.size < 2 ^ 30 → a.head + a.count < 2 ^ 31 ∧ a.tail + 1 < 2 ^ 31 ∧ a.size * 2 < 2 ^ 31

theorem Carray.Deque.invariant (h : a.Deque list) : a.Invariant := by
  obtain ⟨hhead, htail, hcount⟩ := h.bounds
  exact ⟨hhead, htail, hcount, h.tail, by omega⟩

inductive CarrayCall (α : Type) where
  | pushBack (p : Option α)
  | pushFront (p : Option α)
  | popFront
  deriving Repr, DecidableEq

-- The calls as a server. Only `carray_pop_front` hands a pointer to its caller.
def carrayServer : Server (Carray α) (CarrayCall α) (Option α)
  | a, .pushBack p => (carrayPushBackPointer a p).toOption.map fun a => (a, none)
  | a, .pushFront p => (carrayPushFront a p).toOption.map fun a => (a, none)
  | a, .popFront => (carrayPopFront a).toOption

-- What they are for.
def dequeServer : Server (List (Option α)) (CarrayCall α) (Option α)
  | list, .pushBack p => some (list ++ [p], none)
  | list, .pushFront p => some (p :: list, none)
  | list, .popFront => some (list.tail, list.head?.join)

theorem carrayServer_follows : (carrayServer (α := α)).Follows dequeServer (fun _ => True)
    (fun _ _ => False) fun _ a list => a.Deque list := by
  refine ⟨fun _ _ _ _ _ _ hstop => hstop.elim, fun _ a list c h _ _ => ?_⟩
  cases c with
  | pushBack p =>
      obtain ⟨a', hpush, ha'⟩ := h.pushBack p
      exact ⟨a', list ++ [p], none, by rw [carrayServer, hpush]; rfl, rfl, ha'⟩
  | pushFront p =>
      obtain ⟨a', hpush, ha'⟩ := h.pushFront p
      exact ⟨a', p :: list, none, by rw [carrayServer, hpush]; rfl, rfl, ha'⟩
  | popFront =>
      obtain ⟨a', hpop, ha'⟩ := h.popFront
      exact ⟨a', list.tail, list.head?.join, by rw [carrayServer, hpop]; rfl, rfl, ha'⟩

-- Any sequence of calls on a new array answers as the deque does and leaves the
-- deque's list. Growing the array at any point changes nothing of it, and the
-- filters read it in order.
theorem carray_is_deque (size : Nat) (hsize : 1 ≤ size) (calls : List (CarrayCall α)) :
    ∃ a list, carrayServer.run (carrayNew size) calls = some a ∧
      dequeServer.run [] calls = some list ∧
      carrayServer.replies (carrayNew size) calls = dequeServer.replies [] calls ∧
      carrayElements a = .ok list ∧ a.Invariant ∧ carrayFront a = .ok list.head?.join ∧
      (∃ grown, carrayGrow a = .ok grown ∧ carrayElements grown = .ok list ∧ grown.Invariant) ∧
      ∀ (β : Type) (matchFn : β → Option α → Int) (arg : β),
        (∀ p, matchFn arg p = 0 ∨ matchFn arg p = 1) →
        (∃ new, carrayReject a matchFn arg = .ok new ∧
          carrayElements new = .ok (list.filter fun p => ¬matchFn arg p ≠ 0)) ∧
        ∃ new, carrayCollect a matchFn arg = .ok new ∧
          carrayElements new = .ok (list.filter fun p => matchFn arg p ≠ 0) := by
  obtain ⟨a, list, hrun, hlist, h, hreplies⟩ := carrayServer_follows.run_some
    [] (Carray.Deque.new hsize) calls (fun _ _ => trivial) fun _ _ => id
  obtain ⟨grown, hgrow, hgrown, _⟩ := h.grow
  refine ⟨a, list, hrun, hlist, hreplies, h.elements, h.invariant, h.front,
    ⟨grown, hgrow, hgrown.elements, hgrown.invariant⟩, fun β matchFn arg hbool => ⟨?_, ?_⟩⟩
  · obtain ⟨new, hmap, hnew⟩ := h.map matchFn arg 0
    refine ⟨new, hmap, ?_⟩
    simpa only [not_not] using hnew.elements
  · obtain ⟨new, hmap, hnew⟩ := h.map matchFn arg 1
    refine ⟨new, hmap, ?_⟩
    have hsame (p : Option α) : matchFn arg p = 1 ↔ matchFn arg p ≠ 0 := by
      have := hbool p
      omega
    simpa only [hsame] using hnew.elements

-- An array of one slot that grows at both ends.
theorem carray_is_deque_grown : ∃ a : Carray Nat,
    carrayServer.run (carrayNew 1) [.pushFront (some 2), .pushBack (some 3), .pushFront (some 1),
      .popFront, .pushFront none, .pushBack (some 4)] = some a ∧
      carrayElements a = .ok [none, some 2, some 3, some 4] := by
  obtain ⟨a, list, hrun, hlist, _, helems, _⟩ := carray_is_deque 1 (by decide)
    [.pushFront (some 2), .pushBack (some 3), .pushFront (some 1), .popFront, .pushFront none,
      .pushBack (some 4)]
  refine ⟨a, hrun, ?_⟩
  rw [helems]
  exact congrArg Except.ok (Option.some.inj hlist).symm

end LibPaxos
