import Mathlib

universe u v w x

-- A server answers a request with a reply and its next state, or stops.
def Server (σ : Type u) (ε : Type v) (ο : Type w) := σ → ε → Option (σ × ο)

namespace Server

variable {σ : Type u} {τ : Type x} {ε : Type v} {ο : Type w}

def run (m : Server σ ε ο) : σ → List ε → Option σ
  | s, [] => some s
  | s, e :: rest => (m s e).bind fun (s', _) => run m s' rest

-- The replies up to the request the server stops at.
def replies (m : Server σ ε ο) : σ → List ε → List ο
  | _, [] => []
  | s, e :: rest => (m s e).elim [] fun (s', o) => o :: replies m s' rest

def StopsAt (m : Server σ ε ο) (s : σ) (before : List ε) (e : ε) : Prop :=
  ∃ s', m.run s before = some s' ∧ m s' e = none

-- A request meets `stop`, and none of those before it did.
def FirstAt (stop : List ε → ε → Prop) (before : List ε) (e : ε) : Prop :=
  stop before e ∧ ∀ b r a, before = b ++ r :: a → ¬stop b r

-- `f` answers as `g` does until a request meets `stop`, where it stops. The
-- relation between the states also sees the requests handled so far.
structure Follows (f : Server σ ε ο) (g : Server τ ε ο) (dom : ε → Prop)
    (stop : List ε → ε → Prop) (rel : List ε → σ → τ → Prop) : Prop where
  stops : ∀ past s t e, rel past s t → dom e → stop past e → f s e = none
  step : ∀ past s t e, rel past s t → dom e → ¬stop past e →
    ∃ s' t' o, f s e = some (s', o) ∧ g t e = some (t', o) ∧ rel (past ++ [e]) s' t'

variable {f : Server σ ε ο} {g : Server τ ε ο} {dom : ε → Prop} {stop : List ε → ε → Prop}
  {rel : List ε → σ → τ → Prop}

theorem Follows.replies_prefix (h : f.Follows g dom stop rel) {past : List ε} {s : σ} {t : τ}
    (hr : rel past s t) (es : List ε) (hes : ∀ e ∈ es, dom e) :
    f.replies s es <+: g.replies t es := by
  induction es generalizing past s t with
  | nil => exact List.nil_prefix
  | cons e rest ih =>
      have he : dom e := hes e List.mem_cons_self
      by_cases hs : stop past e
      · have hnone := h.stops past s t e hr he hs
        simp [replies, hnone]
      · obtain ⟨s', t', o, hf, hg, hr'⟩ := h.step past s t e hr he hs
        simp only [replies, hf, hg, Option.elim_some]
        apply List.cons_prefix_cons.mpr
        exact ⟨rfl, ih hr' fun e' h' => hes e' (List.mem_cons_of_mem e h')⟩

-- The induction runs over the requests still to come, so the requests already
-- handled are general.
private theorem Follows.stopsAt_iff_after (h : f.Follows g dom stop rel) {past : List ε} {s : σ}
    {t : τ} (hr : rel past s t) (before : List ε) (e : ε) (hdom : ∀ r ∈ before, dom r)
    (he : dom e) : f.StopsAt s before e ↔ FirstAt (fun b r => stop (past ++ b) r) before e := by
  induction before generalizing past s t with
  | nil =>
      have hfirst : FirstAt (fun b r => stop (past ++ b) r) [] e ↔ stop past e := by
        simp [FirstAt]
      rw [hfirst]
      constructor
      · rintro ⟨s', hrun, hnone⟩
        simp only [run, Option.some.injEq] at hrun
        subst hrun
        by_contra hs
        obtain ⟨_, _, _, hf, _⟩ := h.step past s t e hr he hs
        rw [hf] at hnone
        cases hnone
      · intro hs
        exact ⟨s, rfl, h.stops past s t e hr he hs⟩
  | cons r rest ih =>
      have hd : dom r := hdom r List.mem_cons_self
      by_cases hs : stop past r
      · have hnone := h.stops past s t r hr hd hs
        constructor
        · rintro ⟨s', hrun, _⟩
          simp [run, hnone] at hrun
        · rintro ⟨_, hnot⟩
          exact absurd (by simpa using hs) (hnot [] r rest rfl)
      · obtain ⟨s', t', o, hf, _, hr'⟩ := h.step past s t r hr hd hs
        have hstep : f.StopsAt s (r :: rest) e ↔ f.StopsAt s' rest e := by
          simp [StopsAt, run, hf]
        rw [hstep, ih hr' fun r' h' => hdom r' (List.mem_cons_of_mem r h')]
        simp only [FirstAt, List.append_assoc, List.singleton_append]
        refine and_congr_right fun _ => ⟨fun hnot b r' a hb => ?_, fun hnot b r' a hb => ?_⟩
        · cases b with
          | nil =>
              obtain ⟨rfl, _⟩ := List.cons.inj hb
              simpa using hs
          | cons x b =>
              obtain ⟨rfl, hb'⟩ := List.cons.inj hb
              exact hnot b r' a hb'
        · exact hnot (r :: b) r' a (by rw [hb, List.cons_append])

theorem Follows.stopsAt_iff (h : f.Follows g dom stop rel) {s : σ} {t : τ} (hr : rel [] s t)
    (before : List ε) (e : ε) (hdom : ∀ r ∈ before, dom r) (he : dom e) :
    f.StopsAt s before e ↔ FirstAt stop before e :=
  h.stopsAt_iff_after hr before e hdom he

-- As long as no request meets `stop` the two go on together.
theorem Follows.run_some (h : f.Follows g dom stop rel) (past : List ε) {s : σ} {t : τ}
    (hr : rel past s t) (es : List ε) (hes : ∀ e ∈ es, dom e) (hgo : ∀ past e, ¬stop past e) :
    ∃ s' t', f.run s es = some s' ∧ g.run t es = some t' ∧ rel (past ++ es) s' t' ∧
      f.replies s es = g.replies t es := by
  induction es generalizing past s t with
  | nil => exact ⟨s, t, rfl, rfl, by rwa [List.append_nil], rfl⟩
  | cons e rest ih =>
      obtain ⟨mid, mid', o, hf, hg, hmid⟩ := h.step past s t e hr (hes e List.mem_cons_self)
        (hgo past e)
      obtain ⟨s', t', hrun, hrun', hr', hreplies⟩ :=
        ih (past ++ [e]) hmid fun e' h' => hes e' (List.mem_cons_of_mem e h')
      refine ⟨s', t', ?_, ?_, ?_, ?_⟩
      · simpa only [run, hf, Option.bind_some] using hrun
      · simpa only [run, hg, Option.bind_some] using hrun'
      · rwa [List.append_assoc, List.singleton_append] at hr'
      · simp only [replies, hf, hg, Option.elim_some, hreplies]

-- A run with its requests and their replies, from the first to the last.
inductive Serves (m : Server σ ε ο) (s : σ) : List (ε × ο) → σ → Prop
  | nil : Serves m s [] s
  | snoc {log : List (ε × ο)} {s' s'' : σ} {e : ε} {o : ο} (h : Serves m s log s')
      (he : m s' e = some (s'', o)) : Serves m s (log ++ [(e, o)]) s''

-- A server that an invariant keeps from stopping answers every request.
theorem replies_length (inv : τ → Prop)
    (hstep : ∀ t e, inv t → ∃ t' o, g t e = some (t', o) ∧ inv t') {t : τ} (ht : inv t)
    (es : List ε) : (g.replies t es).length = es.length := by
  induction es generalizing t with
  | nil => rfl
  | cons e rest ih =>
      obtain ⟨t', o, hg, ht'⟩ := hstep t e ht
      simp [replies, hg, ih ht']

end Server
