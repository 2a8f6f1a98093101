import LibPaxos.Transition

universe u v u' v' u'' v''

namespace TransitionSystem

variable {σ : Type u} {ε : Type v} {τ : Type u'} {δ : Type v'}

-- One step of a run whose steps meet `guard`.
def Next (n : TransitionSystem τ δ) (guard : τ → δ → Prop) (t t' : τ) : Prop :=
  ∃ e, guard t e ∧ n.step t e = some t'

-- A run of any length.
def Reaches (n : TransitionSystem τ δ) (guard : τ → δ → Prop) : τ → τ → Prop :=
  Relation.ReflTransGen (n.Next guard)

variable {n : TransitionSystem τ δ} {guard : τ → δ → Prop} {t t' t'' : τ}

theorem Reaches.refl (t : τ) : n.Reaches guard t t := Relation.ReflTransGen.refl

theorem Reaches.trans (h : n.Reaches guard t t') (h' : n.Reaches guard t' t'') :
    n.Reaches guard t t'' := Relation.ReflTransGen.trans h h'

theorem Reaches.one {e : δ} (hg : guard t e) (hs : n.step t e = some t') :
    n.Reaches guard t t' := Relation.ReflTransGen.single ⟨e, hg, hs⟩

theorem Reaches.mono {guard' : τ → δ → Prop} (hg : ∀ t e, guard t e → guard' t e)
    (h : n.Reaches guard t t') : n.Reaches guard' t t' := by
  refine Relation.ReflTransGen.mono (fun t t' hnext => ?_) t t' h
  obtain ⟨e, he, hs⟩ := hnext
  exact ⟨e, hg t e he, hs⟩

theorem Reachable.reaches (hr : n.Reachable guard t) (h : n.Reaches guard t t') :
    n.Reachable guard t' := by
  induction h with
  | refl => exact hr
  | tail _ hstep ih =>
      obtain ⟨e, hg, hs⟩ := hstep
      exact .step ih hg hs

-- Every step of `m` is matched by a run of `n`, of any length. The match may use
-- that the state of `n` is one that can be reached.
structure Simulates (m : TransitionSystem σ ε) (guardM : σ → ε → Prop)
    (n : TransitionSystem τ δ) (guardN : τ → δ → Prop) (rel : σ → τ → Prop) : Prop where
  init : rel m.init n.init
  step : ∀ s t e s', n.Reachable guardN t → rel s t → guardM s e → m.step s e = some s' →
    ∃ t', n.Reaches guardN t t' ∧ rel s' t'

variable {m : TransitionSystem σ ε} {guardM : σ → ε → Prop} {guardN : τ → δ → Prop}
  {rel : σ → τ → Prop}

theorem Simulates.reachable (h : m.Simulates guardM n guardN rel) {s : σ}
    (hr : m.Reachable guardM s) : ∃ t, n.Reachable guardN t ∧ rel s t := by
  induction hr with
  | init => exact ⟨n.init, .init, h.init⟩
  | step _ hg hs ih =>
      obtain ⟨t, ht, hrel⟩ := ih
      obtain ⟨t', hreach, hrel'⟩ := h.step _ t _ _ ht hrel hg hs
      exact ⟨t', ht.reaches hreach, hrel'⟩

-- A run of `m` is matched by one of `n`. The induction is on the run.
theorem Simulates.run (h : m.Simulates guardM n guardN rel) {s s' : σ} {t : τ}
    (ht : n.Reachable guardN t) (hrel : rel s t) (hrun : m.Reaches guardM s s') :
    ∃ t', n.Reaches guardN t t' ∧ rel s' t' := by
  induction hrun with
  | refl => exact ⟨t, .refl t, hrel⟩
  | tail _ hnext ih =>
      obtain ⟨e, hg, hs⟩ := hnext
      obtain ⟨mid, hreach, hmid⟩ := ih
      obtain ⟨t', hreach', hrel'⟩ := h.step _ mid e _ (ht.reaches hreach) hmid hg hs
      exact ⟨t', hreach.trans hreach', hrel'⟩

theorem Simulates.trans {υ : Type u''} {ζ : Type v''} {o : TransitionSystem υ ζ}
    {guardO : υ → ζ → Prop} {rel' : τ → υ → Prop} (h : m.Simulates guardM n guardN rel)
    (h' : n.Simulates guardN o guardO rel') :
    m.Simulates guardM o guardO (fun s u => ∃ t, n.Reachable guardN t ∧ rel s t ∧ rel' t u) := by
  refine ⟨⟨n.init, .init, h.init, h'.init⟩, ?_⟩
  rintro s u e s' hu ⟨t, ht, hst, htu⟩ hg hs
  obtain ⟨t', hreach, hst'⟩ := h.step s t e s' ht hst hg hs
  obtain ⟨u', hreach', htu'⟩ := h'.run hu htu hreach
  exact ⟨u', hreach', t', ht.reaches hreach, hst', htu'⟩

end TransitionSystem
