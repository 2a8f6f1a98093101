import LibPaxos.Simulation

universe u v

-- The values that are decided, one for an index, and the logs that readers take from
-- them. A reader starts at an index of its own.
structure DecidedLog (κ : Type u) (α : Type v) where
  decided : Nat → Option α
  first : κ → Nat
  log : κ → List α

inductive LogEvent (κ : Type u) (α : Type v) where
  | decide (i : Nat) (x : α)
  | enter (l : κ) (start : Nat)
  | deliver (l : κ)

namespace DecidedLog

variable {κ : Type u} {α : Type v} [DecidableEq κ]

-- An index is decided once, and a reader that has delivered something stays.
def step (s : DecidedLog κ α) : LogEvent κ α → Option (DecidedLog κ α)
  | .decide i x =>
      match s.decided i with
      | none => some { s with decided := Function.update s.decided i (some x) }
      | some _ => none
  | .enter l start =>
      match s.log l with
      | [] => some { s with first := Function.update s.first l start }
      | _ :: _ => none
  | .deliver l =>
      match s.decided (s.first l + (s.log l).length) with
      | none => none
      | some x => some { s with log := Function.update s.log l (s.log l ++ [x]) }

end DecidedLog

def decidedLog (κ : Type u) (α : Type v) [DecidableEq κ] :
    TransitionSystem (DecidedLog κ α) (LogEvent κ α) where
  init := ⟨fun _ => none, fun _ => 1, fun _ => []⟩
  step := DecidedLog.step

-- The values come from those that are allowed.
def LogEvent.Decides {κ : Type u} {α : Type v} (P : α → Prop) : LogEvent κ α → Prop
  | .decide _ x => P x
  | _ => True

namespace DecidedLog

variable {κ : Type u} {α : Type v}

-- A value that nothing speaks against is decided, if it is not yet.
theorem reaches_decide [DecidableEq κ] {P : α → Prop} (s : DecidedLog κ α) {i : Nat} {x : α}
    (hx : P x) (hagree : ∀ y, s.decided i = some y → y = x) :
    ∃ s', (decidedLog κ α).Reaches (fun _ e => e.Decides P) s s' ∧
      (∀ j y, s'.decided j = some y ↔ s.decided j = some y ∨ j = i ∧ y = x) ∧
      s'.log = s.log ∧ s'.first = s.first := by
  cases hd : s.decided i with
  | none =>
      refine ⟨{ s with decided := Function.update s.decided i (some x) },
        .one (e := .decide i x) hx (by simp only [decidedLog, DecidedLog.step, hd]),
        fun j y => ?_, rfl, rfl⟩
      dsimp only
      by_cases hj : j = i
      · subst hj
        rw [Function.update_self, hd]
        simp [eq_comm]
      · rw [Function.update_of_ne hj]
        simp [hj]
  | some y =>
      refine ⟨s, .refl s, fun j z => ⟨.inl, ?_⟩, rfl, rfl⟩
      rintro (hz | ⟨rfl, rfl⟩)
      · exact hz
      · rw [hd, hagree y hd]

-- Every log is what is decided from its start on.
structure Sound (P : α → Prop) (s : DecidedLog κ α) : Prop where
  log : ∀ l (i : Nat) x, (s.log l)[i]? = some x → s.decided (s.first l + i) = some x
  value : ∀ i x, s.decided i = some x → P x

theorem Sound.step [DecidableEq κ] {P : α → Prop} {s s' : DecidedLog κ α} (h : s.Sound P)
    {e : LogEvent κ α} (he : e.Decides P) (hs : s.step e = some s') : s'.Sound P := by
  cases e with
  | decide i x =>
      simp only [DecidedLog.step] at hs
      split at hs
      · rename_i hnone
        cases hs
        have hput (j : Nat) (y : α) (hy : s.decided j = some y) :
            Function.update s.decided i (some x) j = some y := by
          rw [Function.update_of_ne (fun hji => by rw [hji, hnone] at hy; cases hy)]
          exact hy
        refine ⟨fun l j y hy => hput _ y (h.log l j y hy), fun j y hy => ?_⟩
        dsimp only at hy
        by_cases hj : j = i
        · subst hj
          rw [Function.update_self] at hy
          cases hy
          exact he
        · rw [Function.update_of_ne hj] at hy
          exact h.value j y hy
      · cases hs
  | enter l start =>
      simp only [DecidedLog.step] at hs
      split at hs
      · rename_i hnil
        cases hs
        refine ⟨fun m j y hy => ?_, h.value⟩
        dsimp only at hy ⊢
        by_cases hm : m = l
        · subst hm
          simp [hnil] at hy
        · rw [Function.update_of_ne hm]
          exact h.log m j y hy
      · cases hs
  | deliver l =>
      simp only [DecidedLog.step] at hs
      split at hs
      · cases hs
      · rename_i x hx
        cases hs
        refine ⟨fun m j y hy => ?_, h.value⟩
        dsimp only at hy ⊢
        by_cases hm : m = l
        · subst hm
          rw [Function.update_self] at hy
          by_cases hj : j < (s.log m).length
          · rw [List.getElem?_append_left hj] at hy
            exact h.log m j y hy
          · rw [List.getElem?_append_right (by omega), List.getElem?_singleton] at hy
            split_ifs at hy with hzero
            cases hy
            obtain rfl : j = (s.log m).length := by omega
            exact hx
        · rw [Function.update_of_ne hm] at hy
          exact h.log m j y hy

theorem Sound.of_reachable [DecidableEq κ] {P : α → Prop} {s : DecidedLog κ α}
    (hr : (decidedLog κ α).Reachable (fun _ e => e.Decides P) s) : s.Sound P := by
  refine hr.invariant (Sound P) ⟨fun l i x hx => ?_, fun i x hx => ?_⟩
    fun _ _ _ _ h he hs => h.step he hs
  · simp [decidedLog] at hx
  · cases hx

end DecidedLog
