import LibPaxos.Deployment
import LibPaxos.Wire.Refinement

namespace LibPaxos

open Wire

-- What is buffered and what is on the way make up whole frames that have the
-- property. The buffer may end in the middle of one.
def Pipe.Carries (P : Frame → Prop) (pipe : Pipe) : Prop :=
  ∃ frames : List Frame, (∀ f ∈ frames, f.Sendable ∧ P f) ∧
    pipe.input ++ pipe.inFlight = frames.flatMap Frame.bytes

section

variable {P : Frame → Prop} {pipe : Pipe}

theorem Pipe.Carries.empty (P : Frame → Prop) : Pipe.empty.Carries P := ⟨[], by simp, rfl⟩

theorem Pipe.Carries.mono {P' : Frame → Prop} (h : pipe.Carries P) (hP : ∀ f, P f → P' f) :
    pipe.Carries P' := by
  obtain ⟨frames, hall, hbytes⟩ := h
  exact ⟨frames, fun f hf => ⟨(hall f hf).1, hP f (hall f hf).2⟩, hbytes⟩

theorem Pipe.Carries.write (h : pipe.Carries P) {f : Frame} (hsend : f.Sendable) (hf : P f) :
    (pipe.write f).Carries P := by
  obtain ⟨frames, hall, hbytes⟩ := h
  refine ⟨frames ++ [f],
    List.forall_mem_append.mpr ⟨hall, List.forall_mem_singleton.mpr ⟨hsend, hf⟩⟩, ?_⟩
  rw [Pipe.write, Frame.send_eq hsend, ← List.append_assoc, hbytes, List.flatMap_append]
  simp

theorem Pipe.Carries.arrive (h : pipe.Carries P) (size : Nat) : (pipe.arrive size).Carries P := by
  obtain ⟨frames, hall, hbytes⟩ := h
  refine ⟨frames, hall, ?_⟩
  rw [Pipe.arrive, List.append_assoc, List.take_append_drop, hbytes]

-- When the test of the loop holds, the buffer starts with a frame, and the rest is
-- carried on.
theorem Pipe.Carries.read {δ : Type} {s : δ} (h : pipe.Carries P)
    (hready : msgReady (s, pipe.input) = true) :
    ∃ f rest, f.Sendable ∧ P f ∧ pipe.input = f.bytes ++ rest ∧
      Pipe.Carries P { pipe with input := rest } := by
  obtain ⟨frames, hall, hbytes⟩ := h
  have hcomplete := (msgReady_iff (fun f hf => (hall f hf).1) hbytes).mp hready
  cases frames with
  | nil => exact hcomplete.elim
  | cons f frames =>
      obtain ⟨⟨hsend, hf⟩, hrest⟩ := List.forall_mem_cons.mp hall
      rw [List.flatMap_cons] at hbytes
      have hstart : f.bytes <+: pipe.input :=
        List.prefix_of_prefix_length_le ⟨_, hbytes.symm⟩ (List.prefix_append _ _) hcomplete
      obtain ⟨rest, hinput⟩ := hstart
      rw [← hinput, List.append_assoc] at hbytes
      exact ⟨f, rest, hsend, hf, hinput.symm, frames, hrest, List.append_cancel_left hbytes⟩

end

theorem filter_matchBufferevent {γ : Type} [DecidableEq γ] (c : γ) (list : List γ) :
    (list.map some).filter (fun item => matchBufferevent c item = 0) =
      (list.filter (· ≠ c)).map some := by
  rw [List.filter_map]
  congr 2
  funext item
  simp [matchBufferevent]

variable {ι κ σ : Type} [DecidableEq ι] [DecidableEq κ]

namespace Deployment

variable {P : Way ι κ → Frame → Prop} {d : Deployment ι κ σ}

theorem carries_update (h : ∀ way, (d.pipes way).Carries (P way)) {way : Way ι κ} {pipe : Pipe}
    (hpipe : pipe.Carries (P way)) (way' : Way ι κ) :
    (Function.update d.pipes way pipe way').Carries (P way') :=
  (Function.forall_update_iff d.pipes fun way (pipe : Pipe) => pipe.Carries (P way)).mpr
    ⟨hpipe, fun way _ => h way⟩ way'

theorem carries_write (h : ∀ way, (d.pipes way).Carries (P way)) {way : Way ι κ} {f : Frame}
    (hsend : f.Sendable) (hf : P way f) (way' : Way ι κ) :
    ((d.write way f).pipes way').Carries (P way') :=
  carries_update h ((h way).write hsend hf) way'

-- A frame written to the connections of one peer: nothing but the pipes changes.
theorem sendToAcceptors_eq (cl : Layout ι κ) (peer : Peer ι κ)
    (h : ∀ way, (d.pipes way).Carries (P way)) {f : Frame} (hsend : f.Sendable)
    (hf : ∀ c : Connection ι κ, c.peer = peer → c.acceptor < cl.acceptors → P (.up c) f) :
    ∃ pipes, sendToAcceptors cl peer d f = { d with pipes := pipes } ∧
      ∀ way, (pipes way).Carries (P way) := by
  have hloop (rounds : List Nat) (hr : ∀ i ∈ rounds, i < cl.acceptors) (d : Deployment ι κ σ)
      (h : ∀ way, (d.pipes way).Carries (P way)) :
      ∃ pipes, rounds.foldl (fun d i => d.write (.up (d.peersGetBuffer peer i)) f) d =
        { d with pipes := pipes } ∧ ∀ way, (pipes way).Carries (P way) := by
    induction rounds generalizing d with
    | nil => exact ⟨d.pipes, rfl, h⟩
    | cons i rounds ih =>
        obtain ⟨hi, hrounds⟩ := List.forall_mem_cons.mp hr
        exact ih hrounds _ (carries_write h hsend (hf (d.peersGetBuffer peer i) rfl hi))
  exact hloop (List.range cl.acceptors) (fun i hi => List.mem_range.mp hi) d h

theorem sendAll_eq (cl : Layout ι κ) (peer : Peer ι κ) (frames : List Frame)
    (h : ∀ way, (d.pipes way).Carries (P way)) (hf : ∀ f ∈ frames, f.Sendable ∧
      ∀ c : Connection ι κ, c.peer = peer → c.acceptor < cl.acceptors → P (.up c) f) :
    ∃ pipes, sendAll cl peer d frames = { d with pipes := pipes } ∧
      ∀ way, (pipes way).Carries (P way) := by
  induction frames generalizing d with
  | nil => exact ⟨d.pipes, rfl, h⟩
  | cons f frames ih =>
      obtain ⟨⟨hsend, hallowed⟩, hrest⟩ := List.forall_mem_cons.mp hf
      obtain ⟨pipes, he, hpipes⟩ := sendToAcceptors_eq cl peer h hsend hallowed
      rw [sendAll, List.foldl_cons, he]
      exact ih hpipes hrest

-- The loop over the accepted connections. None of them is NULL.
theorem sendToBevs_eq (h : ∀ way, (d.pipes way).Carries (P way))
    {bevs : Carray (Connection ι κ)} {list : List (Connection ι κ)}
    (hbevs : bevs.Deque (list.map some)) {f : Frame} (hsend : f.Sendable)
    (hf : ∀ c ∈ list, P (.down c) f) :
    ∃ pipes, d.sendToBevs bevs f = .ok { d with pipes := pipes } ∧
      ∀ way, (pipes way).Carries (P way) := by
  obtain ⟨d', hrun, pipes, rfl, hpipes⟩ := foldlM_range_invariant
    (f := sendToBev bevs f)
    (fun _ d' => ∃ pipes, d' = { d with pipes := pipes } ∧ ∀ way, (pipes way).Carries (P way))
    (n := carrayCount bevs) (s := d) ⟨d.pipes, rfl, h⟩ (by
      rintro i hi _ ⟨pipes, rfl, hpipes⟩
      obtain ⟨item, hitem, hat⟩ := hbevs.at_of_lt hi
      rw [List.getElem?_map] at hitem
      obtain ⟨c, hc, rfl⟩ := Option.map_eq_some_iff.mp hitem
      refine ⟨Deployment.write { d with pipes := pipes } (.down c) f, ?_, _, rfl,
        carries_write (d := { d with pipes := pipes }) hpipes hsend
          (hf c (List.mem_of_getElem? hc))⟩
      simp only [sendToBev, hat, ok_bind])
  exact ⟨pipes, hrun, hpipes⟩

end Deployment

end LibPaxos
