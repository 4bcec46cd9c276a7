import MyBase.Lib.Run
import MyBase.Public.NBuffer

/-!
# MyBase — what a connection sends

`CCloudNetConnection::send` gives a response to the socket. What the socket does not take is
copied to the write buffer, and the descriptor is added to `epollwfd`; as long as the buffer
holds something, further responses are copied behind it. `dealEpollOut`, when the socket can
take more, sends from the front of the buffer, and takes the descriptor out of `epollwfd` when
the buffer is empty. The lock of the connection makes each of them one step.

`none` is an access outside of the buffer.

A response that does not fit behind the others is dropped as a whole. What is left of one that
the socket has begun to take always fits, unless it is longer than the buffer can get: nobody
looks at what `copyBuf` returns there.

* `responses_streamed` — the socket gets the accepted responses, whole and in order.
-/

namespace MyBase

open Lib List

/-- What `::send` says; `EINTR` and `EAGAIN` are `again`. -/
inductive SendResult
  | took (n : Nat)
  | again
  | error
deriving DecidableEq, Repr

/-- A connection, as far as it sends. -/
structure SendSide where
  writeBuf : NBuffer
  /-- The descriptor is in `epollwfd`. -/
  polled : Bool
  /-- What the socket has taken. -/
  taken : Bytes
  /-- The responses for which `send` has returned 0. -/
  accepted : List Bytes
deriving DecidableEq, Repr

inductive SendAction
  | send (data : Bytes) (result : SendResult)
  | dealEpollOut (result : SendResult)
deriving DecidableEq, Repr

namespace SendSide

/-- A new connection with this buffer. -/
def start (b : NBuffer) : SendSide := ⟨b, false, [], []⟩

/-- `copyBuf` and `CloudAddSendPartionToEpool`, which fails when the descriptor is there. -/
def keepRest (c : SendSide) (rest : Bytes) : Option (Int × SendSide) :=
  (c.writeBuf.copyBuf rest).map fun (_, b) =>
    (if c.polled then -1 else 0, { c with writeBuf := b, polled := true })

/-- `CCloudNetConnection::send`. -/
def send (c : SendSide) (data : Bytes) (result : SendResult) : Option (Int × SendSide) :=
  if 0 < c.writeBuf.index then
    -- behind what is waiting, without asking the socket
    (c.writeBuf.copyBuf data).map fun (ok, b) => (if ok then 0 else 1, { c with writeBuf := b })
  else
    match result with
    | .took n =>
      let c := { c with taken := c.taken ++ data.take n }
      if n < data.length then c.keepRest (data.drop n) else some (0, c)
    | .again => c.keepRest data
    | .error => some (-1, c)

def dealEpollOut (c : SendSide) (result : SendResult) : Option SendSide :=
  match result with
  | .took n =>
    if 0 < c.writeBuf.index then
      let taken := c.taken ++ c.writeBuf.content.take n
      if n < c.writeBuf.index then
        -- it stays in `epollwfd`
        (c.writeBuf.shrinkFromFront n).map fun b => { c with writeBuf := b, taken := taken }
      else
        some { c with writeBuf := { c.writeBuf with index := 0 }, taken := taken, polled := false }
    else some c
  -- after an error the caller shuts the connection down
  | _ => some c

def step (c : SendSide) : SendAction → Option SendSide
  | .send data result => (c.send data result).map fun (ret, c) =>
      if ret = 0 then { c with accepted := c.accepted ++ [data] } else c
  | .dealEpollOut result => c.dealEpollOut result

/-- A response that an empty buffer can take. -/
def Fits : SendAction → Prop
  | .send data _ => 0 < data.length ∧ data.length ≤ defaultMaxNBufferSize
  | .dealEpollOut _ => True

/-- The socket has got, and will get, the accepted responses. -/
structure Streams (c : SendSide) : Prop where
  ok : c.writeBuf.Ok
  bytes : c.taken ++ c.writeBuf.content = c.accepted.flatten
  polled_iff : c.polled = true ↔ c.writeBuf.content ≠ []

variable {c : SendSide}

/-- An empty buffer takes what the socket has left. -/
theorem Streams.keepRest (h : c.Streams) (hEmpty : c.writeBuf.index = 0) (taken : Bytes)
    {rest : Bytes} (hLe : rest.length ≤ defaultMaxNBufferSize) :
    ∃ b, SendSide.keepRest { c with taken := taken } rest =
        some (0, { c with writeBuf := b, taken := taken, polled := true }) ∧
      b.Ok ∧ b.content = rest := by
  have hNil := h.ok.content_eq_nil.mpr hEmpty
  obtain ⟨b, hCopy, hOk, hContent⟩ := NBuffer.copyBuf_spec h.ok rest
  rw [hEmpty, Nat.zero_add, if_pos hLe, hNil, nil_append] at hContent
  -- so `epoll_ctl` does not fail, and the response is accepted
  have hPolled : c.polled = false := by
    rw [← Bool.not_eq_true, h.polled_iff, not_not]
    exact hNil
  exact ⟨b, by simp [SendSide.keepRest, hCopy, hPolled], hOk, hContent⟩

/-- A response is sent, buffered behind the others or dropped whole. -/
theorem Streams.send (h : c.Streams) {data : Bytes} {result : SendResult}
    (hFits : Fits (.send data result)) :
    ∃ c', c.step (.send data result) = some c' ∧ c'.Streams := by
  obtain ⟨hPos, hLe⟩ := hFits
  simp only [step, SendSide.send]
  by_cases hSome : 0 < c.writeBuf.index
  · -- behind what is waiting, or not at all
    obtain ⟨b, hCopy, hOk, hContent⟩ := NBuffer.copyBuf_spec h.ok data
    have hPolled : c.polled = true := h.polled_iff.mpr (mt h.ok.content_eq_nil.mp hSome.ne')
    rw [if_pos hSome, hCopy]
    by_cases hRoom : c.writeBuf.index + data.length ≤ defaultMaxNBufferSize
    · rw [if_pos hRoom] at hContent
      refine ⟨_, by simp [hRoom]; rfl, hOk, ?_, ?_⟩
      · simp [hContent, ← h.bytes]
      · simp [hContent, hPolled, ne_nil_of_length_pos hPos]
    · rw [if_neg hRoom] at hContent
      refine ⟨_, by simp [hRoom]; rfl, hOk, ?_, ?_⟩
      · rw [hContent]
        exact h.bytes
      · rw [hContent]
        exact h.polled_iff
  · have hEmpty : c.writeBuf.index = 0 := by omega
    have hBytes := h.bytes
    rw [h.ok.content_eq_nil.mpr hEmpty, append_nil] at hBytes
    rw [if_neg hSome]
    cases result with
    | error => exact ⟨c, rfl, h⟩
    -- nothing has been taken, and everything is kept
    | again =>
      obtain ⟨b, hKeep, hOk, hContent⟩ := h.keepRest hEmpty c.taken hLe
      refine ⟨_, by simp [hKeep]; rfl, hOk, ?_, ?_⟩
      · simp [hContent, hBytes]
      · simp [hContent, ne_nil_of_length_pos hPos]
    | took n =>
      dsimp only
      by_cases hPart : n < data.length
      -- the response is accepted in two parts, of which the socket has one
      · obtain ⟨b, hKeep, hOk, hContent⟩ := h.keepRest hEmpty (c.taken ++ data.take n)
          (show (data.drop n).length ≤ _ by rw [length_drop]; omega)
        refine ⟨_, by simp [hPart, hKeep]; rfl, hOk, ?_, ?_⟩
        · simp [hContent, hBytes]
        · simp [hContent, hPart]
      · rw [if_neg hPart]
        refine ⟨_, rfl, h.ok, ?_, h.polled_iff⟩
        simp [h.ok.content_eq_nil.mpr hEmpty, hBytes, take_of_length_le (not_lt.mp hPart)]

/-- What the socket takes leaves the buffer. -/
theorem Streams.dealEpollOut (h : c.Streams) (result : SendResult) :
    ∃ c', c.dealEpollOut result = some c' ∧ c'.Streams := by
  cases result with
  | error | again => exact ⟨c, rfl, h⟩
  | took n =>
    simp only [SendSide.dealEpollOut]
    by_cases hSome : 0 < c.writeBuf.index
    · rw [if_pos hSome]
      have hLength := h.ok.content_length
      by_cases hPart : n < c.writeBuf.index
      -- bytes go from the front of the buffer to the end of what was taken
      · obtain ⟨b, hShrink, hOk, hContent⟩ := NBuffer.shrinkFromFront_spec h.ok hPart.le
        refine ⟨_, by simp [hPart, hShrink]; rfl, hOk, ?_, ?_⟩
        · simp [hContent, ← h.bytes]
        · have hPolled : c.polled = true := h.polled_iff.mpr (mt h.ok.content_eq_nil.mp hSome.ne')
          simp [hContent, hPolled, hLength, hPart]
      · rw [if_neg hPart, take_of_length_le (by omega)]
        refine ⟨_, rfl,
          ⟨h.ok.buf_length, Nat.zero_le _, h.ok.len_pos, h.ok.len_le, h.ok.max_eq⟩, ?_,
          by simp [NBuffer.content]⟩
        rw [← h.bytes]
        simp [NBuffer.content]
    · exact ⟨c, if_neg hSome, h⟩

/-- **Run lemma.** -/
theorem Streams.run {c : SendSide} (h : c.Streams) {acts : List SendAction}
    (hFits : ∀ a ∈ acts, Fits a) : ∃ c', run step c acts = some c' ∧ c'.Streams := by
  refine run_total ?_ h (along_of_forall fun a ha _ => hFits a ha)
  intro c a hFits h
  cases a with
  | send data result => exact h.send hFits
  | dealEpollOut result => exact h.dealEpollOut result

/-- The write buffer of a new connection: a new one, or the one that the last connection of the slot
has left, which `getNewConn` releases. -/
inductive Fresh : NBuffer → Prop
  | create {b : NBuffer} (hCreate : NBuffer.create defaultMaxNBufferSize = some b) : Fresh b
  | release {b₀ b : NBuffer} {c : SendSide} {acts : List SendAction} (before : Fresh b₀)
      (hFits : ∀ a ∈ acts, Fits a) (hRun : Lib.run step (start b₀) acts = some c)
      (hRelease : c.writeBuf.release = some b) : Fresh b

theorem start_streams {b : NBuffer} (hOk : b.Ok) (hIndex : b.index = 0) : (start b).Streams := by
  have hNil := hOk.content_eq_nil.mpr hIndex
  exact ⟨hOk, by simp [start, hNil], by simp [start, hNil]⟩

theorem Fresh.streams {b : NBuffer} (h : Fresh b) : (start b).Streams := by
  induction h with
  | create hCreate =>
    obtain ⟨b, hCreated, hOk, hIndex⟩ := NBuffer.create_ok
    cases hCreate.symm.trans hCreated
    exact start_streams hOk hIndex
  | release before hFits hRun hRelease ih =>
    obtain ⟨c, hRun', hStreams⟩ := ih.run hFits
    cases hRun.symm.trans hRun'
    obtain ⟨b, hReleased, hOk, hIndex⟩ := NBuffer.release_ok hStreams.ok
    cases hRelease.symm.trans hReleased
    exact start_streams hOk hIndex

/-- **What is accepted arrives.** A new connection, in a slot that is new or was used before, takes
every sequence of responses of up to `defaultMaxNBufferSize` bytes, whatever the socket takes of
each: what the socket has got and what is in the buffer are the accepted responses, one behind the
other, and the descriptor is in `epollwfd` just if there is something in the buffer. -/
theorem responses_streamed {acts : List SendAction} (hFits : ∀ a ∈ acts, Fits a) :
    (∃ b, NBuffer.create defaultMaxNBufferSize = some b) ∧
    ∀ b, Fresh b → ∃ c, Lib.run step (start b) acts = some c ∧
      c.taken ++ c.writeBuf.content = c.accepted.flatten ∧
      (c.polled = true ↔ c.writeBuf.content ≠ []) := by
  obtain ⟨b, hCreate, -⟩ := NBuffer.create_ok
  refine ⟨⟨b, hCreate⟩, fun b hFresh => ?_⟩
  obtain ⟨c, hRun, h⟩ := hFresh.streams.run hFits
  exact ⟨c, hRun, h.bytes, h.polled_iff⟩

/-- The second response waits behind the rest of the first. -/
theorem responses_streamed_two :
    ∃ b c, NBuffer.create defaultMaxNBufferSize = some b ∧
      Lib.run step (start b)
        [.send [1, 2, 3] (.took 1), .send [4] .error, .dealEpollOut (.took 2)] = some c ∧
      c.taken ++ c.writeBuf.content = c.accepted.flatten := by
  have hFits : ∀ a ∈ [.send [1, 2, 3] (.took 1), .send [4] .error, .dealEpollOut (.took 2)],
      Fits a := by
    simp [Fits, defaultMaxNBufferSize]
  obtain ⟨⟨b, hCreate⟩, hStreamed⟩ := responses_streamed hFits
  obtain ⟨c, hRun, hBytes, -⟩ := hStreamed b (.create hCreate)
  exact ⟨b, c, hCreate, hRun, hBytes⟩

end SendSide

end MyBase
