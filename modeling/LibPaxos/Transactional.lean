import Mathlib

universe u v w

-- What takes a store down: its process ends, or the machine it runs on stops.
inductive Failure where
  | process
  | system
  deriving Repr, DecidableEq

-- A map behind transactions, of which at most one is open at a time. `Recovers` says what
-- the next process may find in the files after a failure. The calls are promised in terms
-- of `committed`, the map after the last commit, of `working`, the map the open
-- transaction sees, and of `Flushed`: all that was committed is on the disk.
class Transactional (ε : Type u) (κ : outParam (Type v)) (ν : outParam (Type w))
    [DecidableEq κ] where
  create : ε
  txnBegin : ε → ε
  get : ε → κ → Option ν
  put : ε → κ → ν → ε
  commit : (sync : Bool) → ε → ε
  Recovers : Failure → ε → ε → Prop
  committed : ε → κ → Option ν
  working : ε → Option (κ → Option ν)
  Flushed : ε → Prop
  committed_create : committed create = fun _ => none
  working_create : working create = none
  working_begin : ∀ e, working e = none → working (txnBegin e) = some (committed e)
  committed_begin : ∀ e, working e = none → committed (txnBegin e) = committed e
  flushed_begin : ∀ e, working e = none → Flushed e → Flushed (txnBegin e)
  get_eq : ∀ e db k, working e = some db → get e k = db k
  working_put : ∀ e db k v, working e = some db →
    working (put e k v) = some (Function.update db k (some v))
  committed_put : ∀ e db k v, working e = some db → committed (put e k v) = committed e
  flushed_put : ∀ e db k v, working e = some db → Flushed e → Flushed (put e k v)
  working_commit : ∀ sync e db, working e = some db → working (commit sync e) = none
  committed_commit : ∀ sync e db, working e = some db → committed (commit sync e) = db
  flushed_commit : ∀ e db, working e = some db → Flushed (commit true e)
  -- Recovery undoes the transaction that was open.
  working_recovers : ∀ f e e', Recovers f e e' → working e' = none
  -- Commits outlive their process.
  committed_process : ∀ e e', Recovers .process e e' → committed e' = committed e
  -- They outlive the machine once they are on its disk.
  committed_system : ∀ e e', Recovers .system e e' → Flushed e → committed e' = committed e
  exists_recovers : ∀ f e, ∃ e', Recovers f e e'
  -- A commit that is not flushed can be undone by the recovery after a system failure.
  exists_undone : ∀ e db, working e = some db →
    ∃ e', Recovers .system (commit false e) e' ∧ committed e' = committed e

namespace Transactional

variable {ε : Type u} {κ : Type v} {ν : Type w} [DecidableEq κ] [Transactional ε κ ν]

-- A transaction that writes nothing.
theorem committed_commit_begin (sync : Bool) {e : ε} (h : working e = none) :
    committed (commit sync (txnBegin e)) = committed e :=
  committed_commit sync _ _ (working_begin e h)

theorem working_commit_begin (sync : Bool) {e : ε} (h : working e = none) :
    working (commit sync (txnBegin e)) = none :=
  working_commit sync _ _ (working_begin e h)

theorem flushed_commit_begin {e : ε} (h : working e = none) :
    Flushed (commit true (txnBegin e)) :=
  flushed_commit _ _ (working_begin e h)

theorem committed_recovers {f : Failure} {e e' : ε} (h : Recovers f e e')
    (hflushed : f = .system → Flushed e) : committed e' = committed e := by
  cases f with
  | process => exact committed_process e e' h
  | system => exact committed_system e e' h (hflushed rfl)

end Transactional

-- A store with these laws. `stable` is on the disk, `recent` holds the maps after the
-- commits that are not, the oldest first.
structure Journal (κ : Type v) (ν : Type w) where
  stable : κ → Option ν
  recent : List (κ → Option ν)
  working : Option (κ → Option ν)

namespace Journal

variable {κ : Type v} {ν : Type w}

def committed (j : Journal κ ν) : κ → Option ν := j.recent.getLast?.getD j.stable

def commit (sync : Bool) (j : Journal κ ν) : Journal κ ν :=
  match j.working with
  | none => j
  | some db => if sync then ⟨db, [], none⟩ else ⟨j.stable, j.recent ++ [db], none⟩

-- Of the commits that were not flushed a system failure leaves the first few.
def Recovers : Failure → Journal κ ν → Journal κ ν → Prop
  | .process, j, j' => j' = { j with working := none }
  | .system, j, j' => ∃ keep, j' = ⟨(j.recent.take keep).getLast?.getD j.stable, [], none⟩

instance transactional [DecidableEq κ] : Transactional (Journal κ ν) κ ν where
  create := ⟨fun _ => none, [], none⟩
  txnBegin j := { j with working := some j.committed }
  get j k := j.working.bind fun db => db k
  put j k v := { j with working := j.working.map fun db => Function.update db k (some v) }
  commit := commit
  Recovers := Recovers
  committed := committed
  working := working
  Flushed j := j.recent = []
  committed_create := rfl
  working_create := rfl
  working_begin _ _ := rfl
  committed_begin _ _ := rfl
  flushed_begin _ _ h := h
  get_eq j db k h := by simp [h]
  working_put j db k v h := by simp [h]
  committed_put _ _ _ _ _ := rfl
  flushed_put _ _ _ _ _ h := h
  working_commit sync j db h := by cases sync <;> simp [commit, h]
  committed_commit sync j db h := by cases sync <;> simp [commit, committed, h]
  flushed_commit j db h := by simp [commit, h]
  working_recovers f j j' h := by
    cases f with
    | process => rw [show j' = _ from h]
    | system =>
        obtain ⟨keep, rfl⟩ := h
        rfl
  committed_process j j' h := by
    rw [show j' = _ from h]
    rfl
  committed_system j j' h hflushed := by
    obtain ⟨keep, rfl⟩ := h
    simp [committed, hflushed]
  exists_recovers f j := by
    cases f with
    | process => exact ⟨_, rfl⟩
    | system => exact ⟨_, 0, rfl⟩
  exists_undone j db h := by
    refine ⟨_, ⟨j.recent.length, rfl⟩, ?_⟩
    simp [commit, committed, h]

end Journal
