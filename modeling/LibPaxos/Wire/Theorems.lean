import LibPaxos.Wire

namespace LibPaxos

-- What is written is read back. The readers are run over the bytes: the fields
-- before an offset are dropped, and the field there is the one written.
theorem readPrepareReq_bytes {m : PrepareReq} (hiid : m.iid < 2 ^ 32)
    (hballot : m.ballot < 2 ^ 32) (rest : List UInt8) :
    readPrepareReq (prepareReqBytes m ++ rest) = some m := by
  have h1 := numberAt_toBytes 4 hiid
  have h2 := numberAt_toBytes 4 hballot
  simp [readPrepareReq, prepareReqBytes, numberAt_append, h1, h2]

theorem readPrepareAck_bytes {m : PrepareAck} (hid : m.acceptorId < 2 ^ 31) (hiid : m.iid < 2 ^ 32)
    (hballot : m.ballot < 2 ^ 32) (hvballot : m.valueBallot < 2 ^ 32)
    (hvalue : m.value.length < 2 ^ 63) (rest : List UInt8) :
    readPrepareAck (prepareAckStruct m ++ m.value ++ rest) = some m := by
  have h1 := numberAt_toBytes 4 (show m.acceptorId < 256 ^ 4 by omega)
  have h2 := numberAt_toBytes 4 hiid
  have h3 := numberAt_toBytes 4 hballot
  have h4 := numberAt_toBytes 4 hvballot
  have h5 := numberAt_toBytes 8 (show m.value.length < 256 ^ 8 by omega)
  have h6 := bytesAt_zero m.value rest
  simp [readPrepareAck, prepareAckStruct, numberAt_append, bytesAt_append, h1, h2, h3, h4, h5, h6]

theorem readAcceptReq_bytes {m : AcceptReq} (hiid : m.iid < 2 ^ 32) (hballot : m.ballot < 2 ^ 32)
    (hvalue : m.value.length < 2 ^ 63) (rest : List UInt8) :
    readAcceptReq (acceptReqBytes m ++ rest) = some m := by
  have h1 := numberAt_toBytes 4 hiid
  have h2 := numberAt_toBytes 4 hballot
  have h3 := numberAt_toBytes 8 (show m.value.length < 256 ^ 8 by omega)
  have h4 := bytesAt_zero m.value rest
  simp [readAcceptReq, acceptReqBytes, numberAt_append, bytesAt_append, h1, h2, h3, h4]

theorem readAcceptAck_bytes {m : AcceptAck} {pad : List UInt8} (hid : m.acceptorId < 2 ^ 31)
    (hiid : m.iid < 2 ^ 32) (hballot : m.ballot < 2 ^ 32) (hvballot : m.valueBallot < 2 ^ 32)
    (hvalue : m.value.length < 2 ^ 63) (hpad : pad.length = 6) (rest : List UInt8) :
    readAcceptAck (acceptAckBytes m pad ++ rest) = some m := by
  have h1 := numberAt_toBytes 4 (show m.acceptorId < 256 ^ 4 by omega)
  have h2 := numberAt_toBytes 4 hiid
  have h3 := numberAt_toBytes 4 hballot
  have h4 := numberAt_toBytes 4 hvballot
  have h5 := numberAt_toBytes 2 (show m.isFinal.toNat < 256 ^ 2 by cases m.isFinal <;> decide)
  have h6 := numberAt_toBytes 8 (show m.value.length < 256 ^ 8 by omega)
  have h7 := bytesAt_zero m.value rest
  simp [readAcceptAck, acceptAckBytes, numberAt_append, bytesAt_append, hpad, h1, h2, h3, h4, h5,
    h6, h7]

-- The sizes the code announces are those of the bytes.
@[simp] theorem length_prepareReqBytes (m : PrepareReq) :
    (prepareReqBytes m).length = prepareReqSize m := by
  simp [prepareReqBytes, prepareReqSize]

@[simp] theorem length_prepareAckStruct (m : PrepareAck) : (prepareAckStruct m).length = 24 := by
  simp [prepareAckStruct]

@[simp] theorem length_acceptReqBytes (m : AcceptReq) :
    (acceptReqBytes m).length = acceptReqSize m := by
  simp [acceptReqBytes, acceptReqSize]
  omega

theorem length_acceptAckBytes (m : AcceptAck) {pad : List UInt8} (h : pad.length = 6) :
    (acceptAckBytes m pad).length = acceptAckSize m := by
  simp [acceptAckBytes, acceptAckSize, h]
  omega

namespace Frame

theorem length_prepareAck_payload (rec : AcceptorRecord) :
    (prepareAck rec).payload.length = prepareAckSize rec.toPrepareAck := by
  simp [payload, prepareAckSize, AcceptAck.toPrepareAck, Nat.add_comm]

theorem readPrepareAck_payload {rec : AcceptorRecord} (h : (prepareAck rec).Sendable) :
    readPrepareAck (prepareAck rec).payload = some rec.toPrepareAck := by
  obtain ⟨hid, hiid, hballot, hvballot, hsize⟩ := h
  have hvalue : rec.value.length < 2 ^ 63 := by
    rw [acceptAckSize] at hsize
    omega
  have hread := readPrepareAck_bytes (m := rec.toPrepareAck) hid hiid hballot hvballot hvalue []
  rwa [List.append_nil] at hread

theorem send_eq {f : Frame} (h : f.Sendable) (bev : Evbuffer) : f.send bev = bev ++ f.bytes := by
  cases f with
  | prepareReq pr =>
      simp [send, sendbufAddPrepareReq, addPaxosHeader, buffereventWrite, bytes, header, payload,
        type]
  | prepareAck rec =>
      have hbytes : (prepareAck rec).bytes =
          paxosMsgBytes ⟨prepareAckSize rec.toPrepareAck, PaxosMsgCode.prepareAcks.code⟩ ++
            (prepareAckStruct rec.toPrepareAck ++ rec.value) := by
        rw [bytes, header, length_prepareAck_payload]
        rfl
      have hvalue : rec.toPrepareAck.value = rec.value := rfl
      simp only [send, sendbufAddPrepareAck, addPaxosHeader, buffereventWrite, hbytes, hvalue,
        List.append_assoc]
      -- An empty value is not written.
      split
      · rfl
      · have hempty : rec.value = [] := List.length_eq_zero_iff.mp (by omega)
        rw [hempty, List.append_nil]
  | acceptReq ar =>
      simp [send, sendbufAddAcceptReq, addPaxosHeader, buffereventWrite, bytes, header, payload,
        type]
  | acceptAck aa pad =>
      obtain ⟨-, -, -, -, -, hpad⟩ := h
      simp [send, sendbufAddAcceptAck, addPaxosHeader, buffereventWrite, bytes, header, payload,
        type, length_acceptAckBytes aa hpad]
  | repeatReq iid =>
      simp [send, sendbufAddRepeatReq, addPaxosHeader, buffereventWrite, bytes, header, payload,
        type]
  | submit value =>
      simp [send, paxosSubmit, addPaxosHeader, buffereventWrite, bytes, header, payload, type]

theorem foldl_send {frames : List Frame} (h : ∀ f ∈ frames, f.Sendable) (bev : Evbuffer) :
    frames.foldl send bev = bev ++ frames.flatMap bytes := by
  induction frames generalizing bev with
  | nil => simp
  | cons f rest ih =>
      rw [List.foldl_cons, send_eq (h f List.mem_cons_self),
        ih fun g hg => h g (List.mem_cons_of_mem f hg), List.flatMap_cons, List.append_assoc]

theorem payload_bounds {f : Frame} (h : f.Sendable) :
    0 < f.payload.length ∧ f.payload.length < 2 ^ 63 := by
  cases f with
  | prepareReq pr => simp [payload, prepareReqSize]
  | prepareAck rec =>
      obtain ⟨-, -, -, -, hsize⟩ := h
      rw [length_prepareAck_payload]
      simp only [prepareAckSize, acceptAckSize, AcceptAck.toPrepareAck] at hsize ⊢
      omega
  | acceptReq ar =>
      obtain ⟨-, -, hsize⟩ := h
      simp only [payload, length_acceptReqBytes, acceptReqSize] at hsize ⊢
      omega
  | acceptAck aa pad =>
      obtain ⟨-, -, -, -, hsize, hpad⟩ := h
      simp only [payload, length_acceptAckBytes aa hpad, acceptAckSize] at hsize ⊢
      omega
  | repeatReq iid => simp [payload]
  | submit value =>
      have hpos : 0 < value.length := List.length_pos_iff.mpr h.1
      have hsize := h.2
      simp only [payload]
      omega

@[simp] theorem length_bytes (f : Frame) :
    f.bytes.length = sizeofPaxosMsg + f.payload.length := by
  simp [bytes]

-- The header of a frame at the start of a buffer is read as it was written.
theorem readPaxosMsg_take {f : Frame} (h : f.Sendable) {buf : Evbuffer} {more after : List UInt8}
    (hbuf : buf ++ more = f.bytes ++ after) (hlen : sizeofPaxosMsg ≤ buf.length) :
    readPaxosMsg (buf.take sizeofPaxosMsg) = f.header := by
  have htake : buf.take sizeofPaxosMsg = paxosMsgBytes f.header := by
    rw [← List.take_append_of_le_length hlen, hbuf, bytes, List.append_assoc,
      List.take_left' (length_paxosMsgBytes f.header)]
  have hsize : f.header.dataSize < 256 ^ 8 := by
    have hpayload := (payload_bounds h).2
    simp only [header]
    omega
  rw [htake, readPaxosMsg_bytes hsize f.type.code_lt]

theorem paxosMsgSize_header {f : Frame} (h : f.Sendable) :
    paxosMsgSize f.header = f.bytes.length := by
  have hpayload := (payload_bounds h).2
  rw [length_bytes, paxosMsgSize]
  simp only [header, sizeofPaxosMsg]
  omega

end Frame

end LibPaxos
