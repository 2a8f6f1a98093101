import LibPaxos.Messages

namespace LibPaxos

-- `array` is the malloc'ed block of pointers. A slot that was never written, or
-- that holds NULL, is `none`.
structure Carray (α : Type) where
  head : Nat
  tail : Nat
  size : Nat
  count : Nat
  array : List (Option α)
  deriving Repr, DecidableEq

variable {α : Type}

def carrayNew (size : Nat) : Carray α where
  head := 0
  tail := 0
  size := size
  count := 0
  array := List.replicate size none

def carrayFull (a : Carray α) : Bool := a.count = a.size

def carrayEmpty (a : Carray α) : Bool := a.count = 0

def carraySize (a : Carray α) : Nat := a.size

def carrayCount (a : Carray α) : Nat := a.count

-- The array index of element `i`. The index is an `int`: for a negative `i` the
-- remainder can be negative too.
def carrayIndex (a : Carray α) (i : Int) : Int := Int.tmod (a.head + i) a.size

def carrayAt (a : Carray α) (i : Int) : Except Fault (Option α) :=
  if carrayEmpty a then .ok none
  else if carrayIndex a i < 0 then .error .outOfBounds
  else
    match a.array[(carrayIndex a i).toNat]? with
    | none => .error .outOfBounds
    | some p => .ok p

-- The part of `carray_push_back` after the check for room.
def carrayPut (a : Carray α) (p : Option α) : Except Fault (Carray α) :=
  if a.tail < a.array.length then
    .ok { a with
      array := a.array.set a.tail p
      tail := (a.tail + 1) % a.size
      count := a.count + 1 }
  else .error .outOfBounds

-- The elements are pushed on an array twice the size, which has room for them all.
def carrayGrow (a : Carray α) : Except Fault (Carray α) := do
  let tmp ← (List.range (carrayCount a)).foldlM
    (fun tmp (i : Nat) => do carrayPut tmp (← carrayAt a i)) (carrayNew (a.size * 2))
  return { a with head := 0, tail := tmp.tail, size := tmp.size, array := tmp.array }

-- The check for room that both pushes start with.
def carrayMakeRoom (a : Carray α) : Except Fault (Carray α) :=
  if carrayFull a then carrayGrow a else .ok a

-- `carray_push_back` of any pointer, NULL included.
def carrayPushBackPointer (a : Carray α) (p : Option α) : Except Fault (Carray α) := do
  let a ← carrayMakeRoom a
  carrayPut a p

def carrayPushBack (a : Carray α) (p : α) : Except Fault (Carray α) :=
  carrayPushBackPointer a (some p)

-- The part of `carray_push_front` after the check for room.
def carrayPutFront (a : Carray α) (p : Option α) : Except Fault (Carray α) :=
  if carrayEmpty a then carrayPushBackPointer a p
  else
    let head := if 1 ≤ a.head then a.head - 1 else a.size - 1
    if head < a.array.length then
      .ok { a with
        head := head
        array := a.array.set head p
        count := a.count + 1 }
    else .error .outOfBounds

def carrayPushFront (a : Carray α) (p : Option α) : Except Fault (Carray α) := do
  let a ← carrayMakeRoom a
  carrayPutFront a p

def carrayFront (a : Carray α) : Except Fault (Option α) :=
  if carrayEmpty a then .ok none
  else
    match a.array[a.head]? with
    | none => .error .outOfBounds
    | some p => .ok p

-- The popped slot keeps its pointer.
def carrayPopFront (a : Carray α) : Except Fault (Carray α × Option α) :=
  if carrayEmpty a then .ok (a, none)
  else
    match a.array[a.head]? with
    | none => .error .outOfBounds
    | some p => .ok ({ a with head := (a.head + 1) % a.size, count := a.count - 1 }, p)

-- The loops over all elements with a callback. It gets `arg` and the element, and
-- returns an `int`.
section

variable {β : Type}

def carrayFirstMatchOf (a : Carray α) (matchFn : β → Option α → Int) (arg : β) :
    List Nat → Except Fault (Option α)
  | [] => .ok none
  | i :: rest => do
      let p ← carrayAt a i
      if matchFn arg p ≠ 0 then return p else carrayFirstMatchOf a matchFn arg rest

def carrayFirstMatch (a : Carray α) (matchFn : β → Option α → Int) (arg : β) :
    Except Fault (Option α) :=
  carrayFirstMatchOf a matchFn arg (List.range (carrayCount a))

def carrayCountMatch (a : Carray α) (matchFn : β → Option α → Int) (arg : β) :
    Except Fault Nat :=
  (List.range (carrayCount a)).foldlM
    (fun count (i : Nat) => do
      let p ← carrayAt a i
      if matchFn arg p ≠ 0 then .ok (count + 1) else .ok count) 0

-- The static `_carray_map`.
def carrayMap (a : Carray α) (matchFn : β → Option α → Int) (arg : β) (target : Int) :
    Except Fault (Carray α) :=
  (List.range (carrayCount a)).foldlM
    (fun new (i : Nat) => do
      let p ← carrayAt a i
      if matchFn arg p = target then carrayPushBackPointer new p else .ok new)
    (carrayNew a.size)

def carrayCollect (a : Carray α) (matchFn : β → Option α → Int) (arg : β) :
    Except Fault (Carray α) :=
  carrayMap a matchFn arg 1

def carrayReject (a : Carray α) (matchFn : β → Option α → Int) (arg : β) :
    Except Fault (Carray α) :=
  carrayMap a matchFn arg 0

end

-- A write through the pointer that `carray_at` returned.
def carrayWrite (a : Carray α) (i : Int) (p : α) : Carray α :=
  { a with array := a.array.set (carrayIndex a i).toNat (some p) }

theorem forall_mem_set {P : α → Prop} {xs : List α} (h : ∀ y ∈ xs, P y) {x : α} (hx : P x)
    (k : Nat) : ∀ y ∈ xs.set k x, P y := by
  intro y hy
  rcases List.mem_or_eq_of_mem_set hy with hy | rfl
  · exact h y hy
  · exact hx

-- An array filled to its size and never popped: a ring indexed by remainders.
structure Carray.Ring (a : Carray α) (slots : List α) : Prop where
  head : a.head = 0
  size : a.size = slots.length
  count : a.count = slots.length
  array : a.array = slots.map some
  pos : 0 < slots.length

theorem Carray.Ring.index {a : Carray α} {slots : List α} (h : a.Ring slots) (i : Nat) :
    carrayIndex a i = ((i % slots.length : Nat) : Int) := by
  unfold carrayIndex
  rw [h.head, h.size, Int.tmod_eq_emod_of_nonneg (by omega)]
  simp

theorem Carray.Ring.at_eq {a : Carray α} {slots : List α} (h : a.Ring slots) (i : Nat) :
    ∃ p, slots[i % slots.length]? = some p ∧ carrayAt a i = .ok (some p) := by
  have hlt : i % slots.length < slots.length := Nat.mod_lt i h.pos
  have hne : ¬slots.length = 0 := by
    have := h.pos
    omega
  refine ⟨slots[i % slots.length], List.getElem?_eq_getElem hlt, ?_⟩
  have hnonneg : ¬((i % slots.length : Nat) : Int) < 0 := by omega
  unfold carrayAt carrayEmpty
  rw [h.index, h.count, h.array, if_neg (by simpa using hne), if_neg hnonneg, Int.toNat_natCast,
    List.getElem?_map, List.getElem?_eq_getElem hlt]
  rfl

theorem Carray.Ring.write {a : Carray α} {slots : List α} (h : a.Ring slots) (i : Nat) (p : α) :
    (carrayWrite a i p).Ring (slots.set (i % slots.length) p) := by
  refine ⟨h.head, by simp [carrayWrite, h.size], by simp [carrayWrite, h.count], ?_,
    by simpa using h.pos⟩
  have hindex : (carrayIndex a i).toNat = i % slots.length := by
    rw [h.index]
    exact Int.toNat_natCast _
  simp [carrayWrite, hindex, h.array, List.map_set]

-- An element is read at the C remainder of its index, if that is not negative.
theorem Carray.Ring.at_iff {a : Carray α} {slots : List α} (h : a.Ring slots) (i : Int) (x : α) :
    carrayAt a i = .ok (some x) ↔
      0 ≤ Int.tmod i slots.length ∧ slots[(Int.tmod i slots.length).toNat]? = some x := by
  have hindex : carrayIndex a i = Int.tmod i slots.length := by
    rw [carrayIndex, h.head, h.size]
    simp
  have hempty : ¬carrayEmpty a = true := by
    have := h.pos
    rw [carrayEmpty, decide_eq_true_iff, h.count]
    omega
  rw [carrayAt, if_neg hempty, hindex, h.array, List.getElem?_map]
  split_ifs with hneg
  · exact iff_of_false (fun h => by cases h) (fun h => by omega)
  · cases slots[(Int.tmod i slots.length).toNat]? with
    | none => simp
    | some y => simp [Int.not_lt.mp hneg]

theorem Carray.Ring.write_int {a : Carray α} {slots : List α} (h : a.Ring slots) (i : Int) (p : α) :
    (carrayWrite a i p).Ring (slots.set (Int.tmod i slots.length).toNat p) := by
  refine ⟨h.head, by simp [carrayWrite, h.size], by simp [carrayWrite, h.count], ?_,
    by simpa using h.pos⟩
  simp [carrayWrite, carrayIndex, h.head, h.size, h.array, List.map_set]

-- A new array while it is filled to its size.
structure Carray.Filling (n : Nat) (pushed : List α) (a : Carray α) : Prop where
  head : a.head = 0
  size : a.size = n
  count : a.count = pushed.length
  tail : a.tail = pushed.length % n
  array : a.array = pushed.map some ++ List.replicate (n - pushed.length) none

theorem Carray.Filling.new (size : Nat) : (carrayNew size : Carray α).Filling size [] :=
  ⟨rfl, rfl, rfl, by simp [carrayNew], by simp [carrayNew]⟩

-- While there is room nothing grows.
theorem Carray.Filling.push {size : Nat} {pushed : List α} {a : Carray α}
    (h : a.Filling size pushed) (hlt : pushed.length < size) (x : α) :
    ∃ a', carrayPushBack a x = .ok a' ∧ a'.Filling size (pushed ++ [x]) := by
  have htail : a.tail = pushed.length := by rw [h.tail, Nat.mod_eq_of_lt hlt]
  have hfull : carrayFull a = false := by
    simp only [carrayFull, h.count, h.size, decide_eq_false_iff_not]
    omega
  have hlen : a.tail < a.array.length := by
    simp only [h.array, htail, List.length_append, List.length_map, List.length_replicate]
    omega
  have hrep : size - pushed.length = (size - (pushed ++ [x]).length) + 1 := by
    simp only [List.length_append, List.length_singleton]
    omega
  refine ⟨{ a with
      array := a.array.set a.tail (some x)
      tail := (a.tail + 1) % a.size
      count := a.count + 1 }, ?_, h.head, h.size, by simp [h.count], ?_, ?_⟩
  · simp only [carrayPushBack, carrayPushBackPointer, carrayMakeRoom, hfull, Bool.false_eq_true,
      if_false]
    exact if_pos hlen
  · simp [htail, h.size]
  · change a.array.set a.tail (some x) = _
    rw [h.array, htail, List.set_append_right _ _ (by simp), hrep, List.replicate_succ]
    simp

theorem Carray.Filling.fill {size : Nat} {pushed : List α} {a : Carray α}
    (h : a.Filling size pushed) (hpos : 0 < size) (xs : List α)
    (hroom : pushed.length + xs.length = size) :
    ∃ a', xs.foldlM carrayPushBack a = .ok a' ∧ a'.Ring (pushed ++ xs) := by
  induction xs generalizing a pushed with
  | nil =>
      rw [List.length_nil, Nat.add_zero] at hroom
      refine ⟨a, rfl, h.head, ?_, ?_, ?_, ?_⟩
      · simp [h.size, hroom]
      · simp [h.count]
      · simp [h.array, hroom]
      · simp [hroom, hpos]
  | cons x rest ih =>
      rw [List.length_cons] at hroom
      obtain ⟨mid, hpush, hmid⟩ := h.push (by omega) x
      have hroom' : (pushed ++ [x]).length + rest.length = size := by
        rw [List.length_append, List.length_singleton]
        omega
      obtain ⟨a', hrun, hring⟩ := ih hmid hroom'
      refine ⟨a', ?_, by simpa using hring⟩
      rw [List.foldlM_cons, hpush]
      exact hrun

end LibPaxos
