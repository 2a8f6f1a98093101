import Mathlib

universe u v

-- A deterministic machine driven by events. A step that is not enabled gives `none`.
structure TransitionSystem (σ : Type u) (ε : Type v) where
  init : σ
  step : σ → ε → Option σ

namespace TransitionSystem

variable {σ : Type u} {ε : Type v} (m : TransitionSystem σ ε)

-- The states of the runs whose every step meets `guard`. The guard sees the
-- event and the state before the step.
inductive Reachable (guard : σ → ε → Prop) : σ → Prop
  | init : Reachable guard m.init
  | step {s s' : σ} {e : ε} : Reachable guard s → guard s e → m.step s e = some s' →
      Reachable guard s'

def run : σ → List ε → Option σ
  | s, [] => some s
  | s, e :: rest => (m.step s e).bind fun s' => run s' rest

def Meets (guard : σ → ε → Prop) : σ → List ε → Prop
  | _, [] => True
  | s, e :: rest => guard s e ∧ ∀ s' ∈ m.step s e, Meets guard s' rest

variable {m}

theorem Reachable.invariant {guard : σ → ε → Prop} (inv : σ → Prop) (hinit : inv m.init)
    (hstep : ∀ s e s', m.Reachable guard s → inv s → guard s e → m.step s e = some s' → inv s')
    {s : σ} (hr : m.Reachable guard s) : inv s := by
  induction hr with
  | init => exact hinit
  | step hr hg hs ih => exact hstep _ _ _ hr ih hg hs

theorem Reachable.mono {guard guard' : σ → ε → Prop} (hg : ∀ s e, guard s e → guard' s e) {s : σ}
    (hr : m.Reachable guard s) : m.Reachable guard' s := by
  induction hr with
  | init => exact .init
  | step _ h hs ih => exact .step ih (hg _ _ h) hs

-- A condition that every step of such a run meets where it is taken.
theorem Reachable.strengthen {guard guard' : σ → ε → Prop}
    (hg : ∀ s e s', m.Reachable guard s → guard s e → m.step s e = some s' → guard' s e) {s : σ}
    (hr : m.Reachable guard s) : m.Reachable guard' s := by
  induction hr with
  | init => exact .init
  | step hr h hs ih => exact .step ih (hg _ _ _ hr h hs) hs

theorem Reachable.run {guard : σ → ε → Prop} {s s' : σ} (events : List ε)
    (hr : m.Reachable guard s) (hm : m.Meets guard s events) (he : m.run s events = some s') :
    m.Reachable guard s' := by
  induction events generalizing s with
  | nil =>
      simp only [TransitionSystem.run, Option.some.injEq] at he
      exact he ▸ hr
  | cons e rest ih =>
      obtain ⟨next, hs, hrun⟩ := Option.bind_eq_some_iff.mp he
      exact ih (.step hr hm.1 hs) (hm.2 next hs) hrun

theorem reachable_of_run (guard : σ → ε → Prop) {events : List ε} {s : σ}
    (hm : m.Meets guard m.init events) (he : m.run m.init events = some s) : m.Reachable guard s :=
  Reachable.run events .init hm he

theorem Meets.of_forall {guard : σ → ε → Prop} {events : List ε}
    (h : ∀ s, ∀ e ∈ events, guard s e) (s : σ) : m.Meets guard s events := by
  induction events generalizing s with
  | nil => trivial
  | cons e rest ih =>
      exact ⟨h s e List.mem_cons_self, fun s' _ =>
        ih (fun s e he => h s e (List.mem_cons_of_mem _ he)) s'⟩

-- Two conditions on steps that agree wherever an invariant holds admit the same runs.
theorem Meets.iff_of_invariant {guard guard' : σ → ε → Prop} (inv : σ → Prop) {events : List ε}
    (hiff : ∀ s, inv s → ∀ e ∈ events, (guard s e ↔ guard' s e))
    (hstep : ∀ s e s', inv s → e ∈ events → guard' s e → m.step s e = some s' → inv s') {s : σ}
    (hs : inv s) : m.Meets guard s events ↔ m.Meets guard' s events := by
  induction events generalizing s with
  | nil => exact Iff.rfl
  | cons e rest ih =>
      have hrest {s' : σ} (hg : guard' s e) (he : m.step s e = some s') :
          m.Meets guard s' rest ↔ m.Meets guard' s' rest := by
        apply ih
        · exact fun s hs e he => hiff s hs e (List.mem_cons_of_mem _ he)
        · exact fun s e s' hs he => hstep s e s' hs (List.mem_cons_of_mem _ he)
        · exact hstep s e s' hs List.mem_cons_self hg he
      have hhead := hiff s hs e List.mem_cons_self
      constructor
      · intro hm
        have hg := hhead.mp hm.1
        exact ⟨hg, fun s' he => (hrest hg he).mp (hm.2 s' he)⟩
      · intro hm
        exact ⟨hhead.mpr hm.1, fun s' he => (hrest hm.1 he).mpr (hm.2 s' he)⟩

instance Meets.decidable (guard : σ → ε → Prop) [∀ s e, Decidable (guard s e)] :
    ∀ (s : σ) (events : List ε), Decidable (m.Meets guard s events)
  | _, [] => isTrue trivial
  | s, e :: rest =>
      match h : m.step s e with
      | none => decidable_of_iff (guard s e) (by simp [Meets, h])
      | some s' =>
          have := Meets.decidable guard s' rest
          decidable_of_iff (guard s e ∧ m.Meets guard s' rest) (by simp [Meets, h])

end TransitionSystem
