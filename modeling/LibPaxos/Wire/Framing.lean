import LibPaxos.Wire.Receiver
import LibPaxos.Wire.Theorems

namespace LibPaxos.Wire

section

variable {σ : Type}

-- The tests of the loop as one: a frame is there as a whole.
def msgReady (t : σ × Evbuffer) : Bool :=
  sizeofPaxosMsg < t.2.length ∧ paxosMsgSize (readPaxosMsg (t.2.take sizeofPaxosMsg)) ≤ t.2.length

theorem readMsgs_eq (callback : σ × Evbuffer → Option (σ × Evbuffer)) (fuel : Nat) :
    readMsgs callback fuel = whileLoop msgReady callback fuel := by
  induction fuel with
  | zero => rfl
  | succ fuel ih =>
      funext t
      simp only [readMsgs, whileLoop, msgReady, evbufferGetLength, evbufferCopyout, ih,
        decide_eq_true_eq]
      by_cases hlen : sizeofPaxosMsg < t.2.length
      · by_cases hsize : t.2.length < paxosMsgSize (readPaxosMsg (t.2.take sizeofPaxosMsg))
        · rw [if_pos hlen, if_pos hsize, if_neg fun h => Nat.not_le.mpr hsize h.2]
        · rw [if_pos hlen, if_neg hsize, if_pos ⟨hlen, Nat.not_lt.mp hsize⟩]
      · rw [if_neg hlen, if_neg fun h => hlen h.1]

variable (dispatch : σ → Nat → List UInt8 → σ)

-- What a whole frame does to the receiver: it is dispatched, unless it is too large.
def receiveFrame (s : σ) (f : Frame) : σ :=
  if f.payload.length ≤ PAXOS_MAX_VALUE_SIZE then dispatch s f.type.code f.payload else s

theorem handleMsg_frame {f : Frame} (h : f.Sendable) (s : σ) (rest : List UInt8) :
    handleMsg dispatch (s, f.bytes ++ rest) = (receiveFrame dispatch s f, rest) := by
  have hhead : readPaxosMsg ((f.bytes ++ rest).take sizeofPaxosMsg) = f.header := by
    refine Frame.readPaxosMsg_take h (List.append_assoc f.bytes rest []) ?_
    rw [List.length_append, Frame.length_bytes]
    omega
  have htail : (f.bytes ++ rest).drop sizeofPaxosMsg = f.payload ++ rest := by
    rw [Frame.bytes, List.append_assoc, List.drop_left' (length_paxosMsgBytes f.header)]
  simp only [handleMsg, evbufferRemove, evbufferDrain, hhead, htail, receiveFrame]
  by_cases hsize : f.payload.length ≤ PAXOS_MAX_VALUE_SIZE
  · have hkeep : ¬f.header.dataSize > PAXOS_MAX_VALUE_SIZE := Nat.not_lt.mpr hsize
    rw [if_neg hkeep, if_pos hsize, Frame.header, List.take_left, List.drop_left]
  · have hdrop : f.header.dataSize > PAXOS_MAX_VALUE_SIZE := Nat.not_le.mp hsize
    rw [if_pos hdrop, if_neg hsize, Frame.header, List.drop_left]

-- A buffer that holds the start of the stream is ready exactly when it holds the
-- first frame: the size in its header is the size of that frame.
theorem msgReady_iff {frames : List Frame} (hsend : ∀ f ∈ frames, f.Sendable) {s : σ}
    {buf : Evbuffer} {more : List UInt8} (hbuf : buf ++ more = frames.flatMap Frame.bytes) :
    msgReady (s, buf) = true ↔ Stream.Complete Frame.bytes frames buf := by
  cases frames with
  | nil =>
      have hempty : buf = [] := (List.append_eq_nil_iff.mp hbuf).1
      simp [msgReady, hempty, Stream.Complete]
  | cons f rest =>
      have hf : f.Sendable := hsend f List.mem_cons_self
      have hpos := (Frame.payload_bounds hf).1
      rw [List.flatMap_cons] at hbuf
      simp only [msgReady, decide_eq_true_eq, Stream.Complete]
      constructor
      · rintro ⟨hlen, hsize⟩
        rwa [Frame.readPaxosMsg_take hf hbuf hlen.le, Frame.paxosMsgSize_header hf] at hsize
      · intro hlen
        have hhead : sizeofPaxosMsg < buf.length := by
          rw [Frame.length_bytes] at hlen
          omega
        rw [Frame.readPaxosMsg_take hf hbuf hhead.le, Frame.paxosMsgSize_header hf]
        exact ⟨hhead, hlen⟩

theorem handleMsg_reads (limit : Nat) :
    Stream.Reads Frame.bytes (receiveFrame dispatch) Frame.Sendable limit msgReady
      (fun t => some (handleMsg dispatch t)) := by
  refine ⟨fun hsend hbuf => msgReady_iff hsend hbuf, fun {frames s buf more} hsend hbuf _ hc => ?_⟩
  cases frames with
  | nil => exact hc.elim
  | cons f rest =>
      rw [List.flatMap_cons] at hbuf
      -- The buffer starts with the first frame, which the handler takes off.
      have hstart : f.bytes <+: buf :=
        List.prefix_of_prefix_length_le ⟨_, hbuf.symm⟩ (List.prefix_append buf more) hc
      obtain ⟨tail, rfl⟩ := hstart
      rw [List.append_assoc] at hbuf
      refine ⟨[f], rest, (receiveFrame dispatch s f, tail), rfl, List.cons_ne_nil f [], ?_, rfl,
        List.append_cancel_left hbuf⟩
      rw [handleMsg_frame dispatch (hsend f List.mem_cons_self)]

-- The four callbacks are loops of one kind: the handler in a loop, and for the
-- clients of a proposer that loop in another one.
theorem onRead_eq (r : Receiver) {limit fuel : Nat} (hfuel : limit < fuel) :
    ∃ body, Stream.Reads Frame.bytes (receiveFrame dispatch) Frame.Sendable limit msgReady body ∧
      r.onRead dispatch fuel = whileLoop msgReady body fuel := by
  have hreads := handleMsg_reads dispatch limit
  cases r with
  | acceptor => exact ⟨_, hreads, readMsgs_eq (handleReq dispatch) fuel⟩
  | proposerClients =>
      refine ⟨_, hreads.nested hfuel, ?_⟩
      have hinner : handleRequest dispatch fuel =
          whileLoop msgReady (proposerHandleMsg dispatch) fuel :=
        readMsgs_eq (proposerHandleMsg dispatch) fuel
      rw [Receiver.onRead, tcpReceiverOnRead, hinner, readMsgs_eq]
      rfl
  | proposerAcceptors => exact ⟨_, hreads, readMsgs_eq (proposerHandleMsg dispatch) fuel⟩
  | learnerAcceptors => exact ⟨_, hreads, readMsgs_eq (learnerHandleMsg dispatch) fuel⟩

theorem foldl_receiveFrame (frames : List Frame) (s : σ) :
    frames.foldl (receiveFrame dispatch) s =
      (frames.filter fun f => f.payload.length ≤ PAXOS_MAX_VALUE_SIZE).foldl
        (fun s f => dispatch s f.type.code f.payload) s := by
  simp only [List.foldl_filter, decide_eq_true_eq]
  rfl

-- Whatever is written and however it is cut: the frames that are not too large
-- are dispatched once each and in order, with their type and payload, and
-- nothing is left over.
theorem frames_survive_chunking (r : Receiver) (s : σ) (frames : List Frame)
    (hsend : ∀ f ∈ frames, f.Sendable) (chunks : List (List UInt8))
    (hchunks : chunks.flatten = frames.foldl Frame.send []) (fuel : Nat)
    (hfuel : frames.length < fuel) :
    Stream.arrivals (r.onRead dispatch fuel) s chunks =
      some ((frames.filter fun f => f.payload.length ≤ PAXOS_MAX_VALUE_SIZE).foldl
        (fun s f => dispatch s f.type.code f.payload) s, []) ∧
    (∀ f ∈ frames, ∀ bev, f.send bev =
      bev ++ (paxosMsgBytes ⟨f.payload.length, f.type.code⟩ ++ f.payload)) ∧
    ∀ rec, Frame.prepareAck rec ∈ frames →
      readPrepareAck (Frame.prepareAck rec).payload = some rec.toPrepareAck := by
  refine ⟨?_, fun f hf bev => Frame.send_eq (hsend f hf) bev, fun rec hrec => ?_⟩
  · obtain ⟨body, hreads, hloop⟩ := onRead_eq dispatch r hfuel
    have hstream : chunks.flatten = frames.flatMap Frame.bytes := by
      rw [hchunks, Frame.foldl_send hsend, List.nil_append]
    have hne : ∀ f : Frame, f.Sendable → f.bytes ≠ [] := by
      intro f _ hnil
      have hlen := congrArg List.length hnil
      rw [Frame.length_bytes, List.length_nil, sizeofPaxosMsg] at hlen
      omega
    rw [hloop, hreads.arrivals_eq hfuel hsend hne le_rfl hstream, foldl_receiveFrame]
  · exact Frame.readPrepareAck_payload (hsend _ hrec)

-- A promise and a client value for a proposer. The first cut is in the first
-- header, and the last chunk has the end of one frame and all of the other.
theorem frames_survive_chunking_cut :
    let frames := [Frame.prepareAck ⟨1, 2, 101, 100, false, [7, 8]⟩, Frame.submit [9]]
    let bytes := frames.foldl Frame.send []
    Stream.arrivals
      (Receiver.onRead (fun log type data => log ++ [(type, data)]) 3 .proposerClients) []
      [bytes.take 5, (bytes.drop 5).take 20, bytes.drop 25] =
      some ([(2, prepareAckStruct ⟨1, 2, 101, 100, [7, 8]⟩ ++ [7, 8]), (32, [9])], []) := by
  intro frames bytes
  exact (frames_survive_chunking (fun log type data => log ++ [(type, data)]) .proposerClients []
    frames (by decide) [bytes.take 5, (bytes.drop 5).take 20, bytes.drop 25] (by decide) 3
    (by decide)).1

end

end LibPaxos.Wire
