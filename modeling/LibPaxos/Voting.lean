import Mathlib

universe u v w

namespace Voting

variable {α : Type u} {β : Type v} {ν : Type w} [LinearOrder β]

-- The votes of one decision. An acceptor barred from a ballot casts no vote
-- there from now on, though it may have voted there before.
structure Poll (α : Type u) (β : Type v) (ν : Type w) where
  voted : α → β → ν → Prop
  barred : α → β → Prop

def Chosen (quorum : Finset α → Prop) (poll : Poll α β ν) (b : β) (v : ν) : Prop :=
  ∃ group, quorum group ∧ ∀ a ∈ group, poll.voted a b v

def Blocked (quorum : Finset α → Prop) (poll : Poll α β ν) (c : β) (w : ν) : Prop :=
  ∃ group, quorum group ∧ ∀ a ∈ group, poll.barred a c ∧ ¬poll.voted a c w

-- No value but `v` can be chosen below `b`, now or later.
def SafeAt (quorum : Finset α → Prop) (poll : Poll α β ν) (b : β) (v : ν) : Prop :=
  ∀ c < b, ∀ w, w ≠ v → Blocked quorum poll c w

-- One poll is a later state of another: bars stay, and a new vote is cast only
-- where its acceptor was not barred.
structure Poll.Extends (before after : Poll α β ν) : Prop where
  barred : ∀ a c, before.barred a c → after.barred a c
  voted : ∀ a c w, after.voted a c w → before.voted a c w ∨ ¬before.barred a c

variable {quorum : Finset α → Prop} {before after poll : Poll α β ν}

omit [LinearOrder β] in
theorem Blocked.mono (he : before.Extends after) {c : β} {w : ν}
    (hb : Blocked quorum before c w) : Blocked quorum after c w := by
  obtain ⟨group, hq, hg⟩ := hb
  refine ⟨group, hq, fun a ha => ⟨he.barred a c (hg a ha).1, fun hv => ?_⟩⟩
  rcases he.voted a c w hv with hold | hfree
  · exact (hg a ha).2 hold
  · exact hfree (hg a ha).1

theorem SafeAt.mono (he : before.Extends after) {b : β} {v : ν}
    (hs : SafeAt quorum before b v) : SafeAt quorum after b v :=
  fun c hc w hw => (hs c hc w hw).mono he

-- The proposer's choice. A quorum promised `b` and reported no vote strictly
-- between `last` and `b`. Then `v` is safe at `b` if it was proposed at `last`
-- and safe there, or if nobody voted at `last` or below.
theorem safeAt_of_promises (proposed : β → ν → Prop) (last : β) {b : β} {v : ν}
    (group : Finset α) (hq : quorum group)
    (hvotes : ∀ a c w, poll.voted a c w → proposed c w)
    (hunique : ∀ c w w', proposed c w → proposed c w' → w = w')
    (hbarred : ∀ a ∈ group, ∀ c < b, poll.barred a c)
    (hgap : ∀ a ∈ group, ∀ c w, poll.voted a c w → c ≤ last ∨ b ≤ c)
    (hlast : (proposed last v ∧ SafeAt quorum poll last v) ∨ ∀ c w, proposed c w → last < c) :
    SafeAt quorum poll b v := by
  intro c hc w hw
  by_cases hlt : c < last
  · rcases hlast with ⟨_, hsafe⟩ | hnone
    · exact hsafe c hlt w hw
    · refine ⟨group, hq, fun a ha => ⟨hbarred a ha c hc, fun hv => ?_⟩⟩
      exact lt_asymm hlt (hnone c w (hvotes a c w hv))
  · refine ⟨group, hq, fun a ha => ⟨hbarred a ha c hc, fun hv => ?_⟩⟩
    have hp := hvotes a c w hv
    rcases hgap a ha c w hv with hle | hge
    · have hcl : c = last := le_antisymm hle (not_lt.mp hlt)
      subst hcl
      rcases hlast with ⟨hprop, _⟩ | hnone
      · exact hw (hunique c w v hp hprop)
      · exact lt_irrefl c (hnone c w hp)
    · exact absurd hc (not_lt.mpr hge)

-- Votes only for proposals, one proposal a ballot, every proposal safe: then
-- all choices agree.
theorem Chosen.agree {proposed : β → ν → Prop}
    (hmeet : ∀ left right, quorum left → quorum right → ∃ a, a ∈ left ∧ a ∈ right)
    (hvotes : ∀ a c w, poll.voted a c w → proposed c w)
    (hunique : ∀ c w w', proposed c w → proposed c w' → w = w')
    (hsafe : ∀ b v, proposed b v → SafeAt quorum poll b v) {b b' : β} {v w : ν}
    (hv : Chosen quorum poll b v) (hw : Chosen quorum poll b' w) : v = w := by
  have later (b b' : β) (v w : ν) (hlt : b < b') (hv : Chosen quorum poll b v)
      (hw : Chosen quorum poll b' w) : v = w := by
    obtain ⟨left, hl, hvl⟩ := hv
    obtain ⟨right, hr, hwr⟩ := hw
    obtain ⟨witness, _, hx⟩ := hmeet right right hr hr
    by_contra hne
    obtain ⟨group, hg, hblock⟩ := hsafe b' w (hvotes _ _ _ (hwr witness hx)) b hlt v hne
    obtain ⟨a, hal, hag⟩ := hmeet left group hl hg
    exact (hblock a hag).2 (hvl a hal)
  rcases lt_trichotomy b b' with hlt | rfl | hgt
  · exact later b b' v w hlt hv hw
  · obtain ⟨left, hl, hvl⟩ := hv
    obtain ⟨right, hr, hwr⟩ := hw
    obtain ⟨a, hal, har⟩ := hmeet left right hl hr
    exact hunique b v w (hvotes a b v (hvl a hal)) (hvotes a b w (hwr a har))
  · exact (later b' b w v hgt hw hv).symm

-- Majorities of `n` acceptors numbered from zero.
def IsMajority (n : Nat) (group : Finset Nat) : Prop :=
  group ⊆ Finset.range n ∧ n / 2 + 1 ≤ group.card

theorem IsMajority.meet {n : Nat} (left right : Finset Nat) (hl : IsMajority n left)
    (hr : IsMajority n right) : ∃ a, a ∈ left ∧ a ∈ right := by
  have hunion := Finset.card_le_card (Finset.union_subset hl.1 hr.1)
  have hcount := Finset.card_union_add_card_inter left right
  rw [Finset.card_range] at hunion
  have hpos : 0 < (left ∩ right).card := by
    have := hl.2
    have := hr.2
    omega
  obtain ⟨a, ha⟩ := Finset.card_pos.mp hpos
  exact ⟨a, Finset.mem_inter.mp ha⟩

end Voting
