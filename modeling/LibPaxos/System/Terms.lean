import LibPaxos.LearnerSoundness
import LibPaxos.System.Sizes

namespace LibPaxos

-- A record with a value of this size fits the buffer of the storage, and an ack that
-- carries it the buffers of its readers.
def MAX_CLIENT_VALUE : Nat := PAXOS_MAX_VALUE_SIZE - 32

-- What is assumed of a run: the values that clients may submit, and whether acceptors
-- repeat only what they accepted.
structure Terms where
  values : Value → Prop
  ne_nil : ∀ value, values value → value ≠ []
  short : ∀ value, values value → value.length ≤ MAX_CLIENT_VALUE
  repeatsAccepted : Prop

-- Clients submit values of one byte.
def oneByte : Terms where
  values value := value.length = 1
  ne_nil value h := List.ne_nil_of_length_eq_add_one h
  short value h := h ▸ (by decide)
  repeatsAccepted := True

instance oneByte.decidableValues : DecidablePred oneByte.values :=
  fun value => inferInstanceAs (Decidable (value.length = 1))

instance oneByte.decidableRepeats : Decidable oneByte.repeatsAccepted :=
  inferInstanceAs (Decidable True)

variable {ι κ σ : Type} [MapStorage σ]

def Event.Submits (T : Terms) : Event ι κ → Prop
  | .call _ (.propose value) => T.values value
  | _ => True

instance Event.Submits.decidable (T : Terms) [DecidablePred T.values] :
    (e : Event ι κ) → Decidable (e.Submits T)
  | .call _ (.propose value) => inferInstanceAs (Decidable (T.values value))
  | .call _ (.prepare _ _) => isTrue trivial
  | .call _ (.receivePrepareAck _ _) => isTrue trivial
  | .call _ .accept => isTrue trivial
  | .call _ (.receiveAcceptAck _ _) => isTrue trivial
  | .call _ (.timeoutPrepare _) => isTrue trivial
  | .call _ (.timeoutAccept _) => isTrue trivial
  | .restart _ => isTrue trivial
  | .handle _ _ => isTrue trivial
  | .learn _ _ => isTrue trivial
  | .checkHoles _ => isTrue trivial

theorem Event.Submits.nonEmpty {T : Terms} {e : Event ι κ} (h : e.Submits T) : e.nonEmpty := by
  cases e with
  | call p c =>
      cases c with
      | propose value => exact T.ne_nil value h
      | _ => trivial
  | _ => trivial

theorem Event.Submits.short {T : Terms} {e : Event ι κ} (h : e.Submits T) :
    e.short MAX_CLIENT_VALUE := by
  cases e with
  | call p c =>
      cases c with
      | propose value => exact T.short value h
      | _ => trivial
  | _ => trivial

-- The steps that keep to what is assumed.
def Event.Matching (T : Terms) (s : System ι κ σ) (e : Event ι κ) : Prop :=
  ((e.noRestart ∧ e.noWrap s) ∧ e.Submits T) ∧ (T.repeatsAccepted → e.RepeatsAccepted s)

instance Event.Matching.decidable (T : Terms) [DecidablePred T.values]
    [Decidable T.repeatsAccepted] (s : System ι κ σ) (e : Event ι κ) : Decidable (e.Matching T s) :=
  inferInstanceAs (Decidable (((_ ∧ _) ∧ _) ∧ (_ → _)))

variable [DecidableEq ι] [DecidableEq κ] {T : Terms} {cl : Cluster ι κ} {s : System ι κ σ}

theorem Compact.of_matching (hr : (paxos σ cl).Reachable (Event.Matching T) s) :
    Compact MAX_CLIENT_VALUE cl s := .of_reachable hr fun _ _ h => h.1.2.short

-- Proposers hold only values that clients may submit.
theorem submitted_values (hr : (paxos σ cl).Reachable (Event.Matching T) s) {value : Value}
    (hv : s.Submitted value) : T.values value := by
  have hinv : ∀ p, ∀ v ∈ (s.proposers p).submitted, T.values v := by
    refine hr.invariant (fun s => ∀ p, ∀ v ∈ (s.proposers p).submitted, T.values v)
      (by simp [paxos, System.start, ProposerProc.start]) ?_
    intro s e s' _ h hg hstep
    refine (step_steps hstep).forall_proposers (P := fun _ pr => ∀ v ∈ pr.submitted, T.values v) h
      ?_ ?_
    · rintro p c pr out rfl _ hcall v hm
      rw [(call_history hcall).2.2] at hm
      rcases List.mem_append.mp hm with hm | hm
      · exact h p v hm
      · cases c with
        | propose value =>
            cases List.mem_singleton.mp hm
            exact hg.1.2
        | _ => cases hm
    · rintro p rfl
      exact hg.1.1.1.elim
  obtain ⟨p, hp⟩ := hv
  exact hinv p value hp

end LibPaxos
