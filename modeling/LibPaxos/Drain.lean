import Mathlib

universe u v w x

-- A caller asks for the next item until there is none. `none` stands for a loop
-- that has not ended within `fuel` calls.
def drain {ε : Type u} {σ : Type v} {ο : Type w} (next : σ → Except ε (σ × Option ο)) :
    Nat → σ → Except ε (Option (σ × List ο))
  | 0, _ => .ok none
  | fuel + 1, s =>
      match next s with
      | .error e => .error e
      | .ok (s, none) => .ok (some (s, []))
      | .ok (s, some o) => (drain next fuel s).map (Option.map fun r => (r.1, o :: r.2))

variable {ε : Type u} {σ : Type v} {ο : Type w} {α : Type x}

-- What holds of the last call and is extended by each call before it holds of the
-- whole loop.
theorem drain_induction {next : σ → Except ε (σ × Option ο)} {P : σ → List ο → σ → Prop}
    (hlast : ∀ s s', next s = .ok (s', none) → P s [] s')
    (hmore : ∀ s mid o os s', next s = .ok (mid, some o) → P mid os s' → P s (o :: os) s')
    {fuel : Nat} {s s' : σ} {os : List ο} (h : drain next fuel s = .ok (some (s', os))) :
    P s os s' := by
  induction fuel generalizing s os with
  | zero => cases h
  | succ fuel ih =>
      rw [drain] at h
      split at h
      · cases h
      · rename_i mid hnext
        cases h
        exact hlast s _ hnext
      · rename_i mid o hnext
        cases hrest : drain next fuel mid with
        | error e =>
            rw [hrest] at h
            cases h
        | ok r =>
            rw [hrest] at h
            cases r with
            | none => cases h
            | some r =>
                cases h
                exact hmore s mid o r.2 r.1 hnext (ih hrest)

-- `next` walks along a list: it passes over what is not due and answers with the
-- first element that is. `rel` tells which elements are still ahead.
structure Walks (next : σ → Except ε (σ × Option ο)) (due : α → Bool) (emits : α → ο → Prop)
    (rel : List α → σ → Prop) : Prop where
  ends : ∀ xs s, rel xs s → (∀ x ∈ xs, due x = false) →
    ∃ s', next s = .ok (s', none) ∧ rel [] s'
  finds : ∀ before x after s, rel (before ++ x :: after) s → (∀ y ∈ before, due y = false) →
    due x = true → ∃ s' o, next s = .ok (s', some o) ∧ emits x o ∧ rel after s'

theorem exists_first (due : α → Bool) (xs : List α) :
    (∀ x ∈ xs, due x = false) ∨
      ∃ before x after, xs = before ++ x :: after ∧ (∀ y ∈ before, due y = false) ∧
        due x = true := by
  induction xs with
  | nil => exact .inl fun _ hx => absurd hx List.not_mem_nil
  | cons x rest ih =>
      cases hx : due x with
      | true => exact .inr ⟨[], x, rest, rfl, fun _ hy => absurd hy List.not_mem_nil, hx⟩
      | false =>
          rcases ih with hnone | ⟨before, y, after, rfl, hbefore, hy⟩
          · exact .inl (List.forall_mem_cons.mpr ⟨hx, hnone⟩)
          · exact .inr ⟨x :: before, y, after, rfl, List.forall_mem_cons.mpr ⟨hx, hbefore⟩, hy⟩

-- Every due element is answered once and in order. The induction is on the fuel,
-- and each round but the last takes a due element off the list.
theorem Walks.drained {next : σ → Except ε (σ × Option ο)} {due : α → Bool} {emits : α → ο → Prop}
    {rel : List α → σ → Prop} (h : Walks next due emits rel) {xs : List α} {s : σ}
    (hr : rel xs s) {fuel : Nat} (hfuel : (xs.filter due).length < fuel) :
    ∃ s' os, drain next fuel s = .ok (some (s', os)) ∧ rel [] s' ∧
      List.Forall₂ emits (xs.filter due) os := by
  induction fuel generalizing xs s with
  | zero => omega
  | succ fuel ih =>
      rcases exists_first due xs with hnone | ⟨before, x, after, rfl, hbefore, hx⟩
      · obtain ⟨s', hnext, hr'⟩ := h.ends xs s hr hnone
        refine ⟨s', [], by rw [drain, hnext], hr', ?_⟩
        rw [List.filter_eq_nil_iff.mpr fun x hx => by simp [hnone x hx]]
        exact .nil
      · obtain ⟨mid, o, hnext, ho, hmid⟩ := h.finds before x after s hr hbefore hx
        have hfilter : (before ++ x :: after).filter due = x :: after.filter due := by
          rw [List.filter_append, List.filter_cons_of_pos hx,
            List.filter_eq_nil_iff.mpr fun y hy => by simp [hbefore y hy], List.nil_append]
        rw [hfilter, List.length_cons] at hfuel
        obtain ⟨s', os, hrest, hr', hos⟩ := ih hmid (by omega)
        refine ⟨s', o :: os, ?_, hr', hfilter ▸ .cons ho hos⟩
        rw [drain, hnext]
        dsimp only
        rw [hrest]
        rfl
