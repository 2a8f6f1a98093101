import Mathlib

universe u v w

-- A `while` loop. `none` stands for a loop that has not ended within `fuel` rounds.
def whileLoop {σ : Type u} (test : σ → Bool) (body : σ → Option σ) : Nat → σ → Option σ
  | 0, _ => none
  | fuel + 1, s => if test s then (body s).bind (whileLoop test body fuel) else some s

namespace Stream

variable {α : Type u} {β : Type v} {σ : Type w}

-- A reader is called after each arrival with all that is buffered by then, and
-- leaves what it does not consume.
def arrivals (read : σ × List α → Option (σ × List α)) (s : σ) (chunks : List (List α)) :
    Option (σ × List α) :=
  chunks.foldlM (fun t chunk => read (t.1, t.2 ++ chunk)) (s, [])

-- The first item of the stream is in the buffer as a whole.
def Complete (encode : β → List α) : List β → List α → Prop
  | [], _ => False
  | x :: _, buf => (encode x).length ≤ buf.length

-- From `s` the items `done` have been handled, and the stream goes on with `rest`.
-- Of that `t` holds the start, and `more` is still to come.
structure Advanced (encode : β → List α) (handle : σ → β → σ) (s : σ) (more : List α)
    (done rest : List β) (t : σ × List α) : Prop where
  state : t.1 = done.foldl handle s
  holds : t.2 ++ more = rest.flatMap encode

-- A reader of streams of up to `limit` items: it is ready when the first item is
-- complete, and then handles at least that one.
structure Reads (encode : β → List α) (handle : σ → β → σ) (items : β → Prop) (limit : Nat)
    (ready : σ × List α → Bool) (body : σ × List α → Option (σ × List α)) : Prop where
  ready_iff : ∀ {xs s buf more}, (∀ x ∈ xs, items x) → buf ++ more = xs.flatMap encode →
    (ready (s, buf) = true ↔ Complete encode xs buf)
  body_some : ∀ {xs s buf more}, (∀ x ∈ xs, items x) → buf ++ more = xs.flatMap encode →
    xs.length ≤ limit → Complete encode xs buf → ∃ done rest t, xs = done ++ rest ∧ done ≠ [] ∧
      body (s, buf) = some t ∧ Advanced encode handle s more done rest t

variable {encode : β → List α} {handle : σ → β → σ} {items : β → Prop} {limit : Nat}
  {ready : σ × List α → Bool} {body : σ × List α → Option (σ × List α)} {s : σ} {more : List α}

theorem Advanced.trans {done rest done' rest' : List β} {t t' : σ × List α}
    (h : Advanced encode handle s more done rest t)
    (h' : Advanced encode handle t.1 more done' rest' t') :
    Advanced encode handle s more (done ++ done') rest' t' := by
  refine ⟨?_, h'.holds⟩
  rw [h'.state, h.state, List.foldl_append]

-- With the whole stream in the buffer, an item that is not complete means that
-- there is none.
theorem eq_nil_of_not_complete {xs : List β} (h : ¬Complete encode xs (xs.flatMap encode)) :
    xs = [] := by
  cases xs with
  | nil => rfl
  | cons x rest =>
      refine absurd ?_ h
      rw [Complete, List.flatMap_cons, List.length_append]
      omega

-- The loop handles every complete item. The induction is on the fuel, and each
-- round takes at least one item off the stream.
theorem Reads.loop (h : Reads encode handle items limit ready body) {xs : List β}
    (hxs : ∀ x ∈ xs, items x) {buf : List α} (hbuf : buf ++ more = xs.flatMap encode)
    (hlimit : xs.length ≤ limit) {fuel : Nat} (hfuel : xs.length < fuel) :
    ∃ done rest t, xs = done ++ rest ∧ whileLoop ready body fuel (s, buf) = some t ∧
      Advanced encode handle s more done rest t ∧ ¬Complete encode rest t.2 := by
  induction fuel generalizing xs s buf with
  | zero => omega
  | succ fuel ih =>
      by_cases hc : Complete encode xs buf
      · obtain ⟨done, rest, t, rfl, hne, hbody, hadv⟩ := h.body_some (s := s) hxs hbuf hlimit hc
        have hpos : 0 < done.length := List.length_pos_iff.mpr hne
        rw [List.length_append] at hlimit hfuel
        obtain ⟨done', rest', t', rfl, hloop, hadv', hwait⟩ :=
          ih (fun x hx => hxs x (List.mem_append_right done hx)) hadv.holds (s := t.1)
            (by omega) (by omega)
        refine ⟨done ++ done', rest', t', by rw [List.append_assoc], ?_, hadv.trans hadv', hwait⟩
        rw [whileLoop, if_pos ((h.ready_iff hxs hbuf).mpr hc), hbody, Option.bind_some]
        exact hloop
      · refine ⟨[], xs, (s, buf), rfl, ?_, ⟨rfl, hbuf⟩, hc⟩
        have hready : ¬ready (s, buf) = true := fun hr => hc ((h.ready_iff hxs hbuf).mp hr)
        rw [whileLoop, if_neg hready]

-- A loop can be the body of another loop over the same stream: entered with a
-- complete item, it does not end before it has handled that.
theorem Reads.nested (h : Reads encode handle items limit ready body) {fuel : Nat}
    (hfuel : limit < fuel) :
    Reads encode handle items limit ready (whileLoop ready body fuel) := by
  refine ⟨h.ready_iff, fun {xs s buf more} hxs hbuf hlimit hc => ?_⟩
  obtain ⟨done, rest, t, hsplit, hloop, hadv, hwait⟩ :=
    h.loop (s := s) hxs hbuf hlimit (Nat.lt_of_le_of_lt hlimit hfuel)
  refine ⟨done, rest, t, hsplit, ?_, hloop, hadv⟩
  rintro rfl
  have hsame : t.2 ++ more = buf ++ more := by rw [hadv.holds, hbuf, hsplit, List.nil_append]
  rw [List.append_cancel_right hsame] at hwait
  rw [List.nil_append] at hsplit
  exact hwait (hsplit ▸ hc)

-- Between two arrivals the buffer is the start of a stream whose first item is not
-- complete. The induction is on the arrivals still to come.
private theorem Reads.arrivals_after (h : Reads encode handle items limit ready body) {fuel : Nat}
    (hfuel : limit < fuel) (chunks : List (List α)) {xs : List β} (hxs : ∀ x ∈ xs, items x)
    (hlimit : xs.length ≤ limit) {buf : List α} (hbuf : buf ++ chunks.flatten = xs.flatMap encode)
    (hwait : ¬Complete encode xs buf) :
    chunks.foldlM (fun t chunk => whileLoop ready body fuel (t.1, t.2 ++ chunk)) (s, buf) =
      some (xs.foldl handle s, []) := by
  induction chunks generalizing s buf xs with
  | nil =>
      rw [List.flatten_nil, List.append_nil] at hbuf
      subst hbuf
      rw [eq_nil_of_not_complete hwait]
      rfl
  | cons chunk chunks ih =>
      rw [List.flatten_cons, ← List.append_assoc] at hbuf
      obtain ⟨done, rest, t, rfl, hloop, hadv, hwait'⟩ :=
        h.loop (s := s) hxs hbuf hlimit (Nat.lt_of_le_of_lt hlimit hfuel)
      rw [List.length_append] at hlimit
      have hrest := ih (fun x hx => hxs x (List.mem_append_right done hx)) (by omega)
        hadv.holds hwait' (s := t.1)
      rw [List.foldlM_cons, hloop, Option.bind_eq_bind, Option.bind_some, hrest, hadv.state,
        List.foldl_append]

-- However the stream is cut, every item is handled once and in order, and nothing
-- is left in the buffer.
theorem Reads.arrivals_eq (h : Reads encode handle items limit ready body) {fuel : Nat}
    (hfuel : limit < fuel) {chunks : List (List α)} {xs : List β} (hxs : ∀ x ∈ xs, items x)
    (hne : ∀ x, items x → encode x ≠ []) (hlimit : xs.length ≤ limit)
    (hchunks : chunks.flatten = xs.flatMap encode) :
    arrivals (whileLoop ready body fuel) s chunks = some (xs.foldl handle s, []) := by
  refine h.arrivals_after hfuel chunks hxs hlimit (by rw [List.nil_append, hchunks]) ?_
  cases xs with
  | nil => exact id
  | cons x rest =>
      intro hc
      exact hne x (hxs x List.mem_cons_self) (List.length_eq_zero_iff.mp (Nat.le_zero.mp hc))

end Stream
