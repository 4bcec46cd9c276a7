import MyBase.Lib.Frames
import MyBase.Public.Buffer
import MyBase.Rpc.Client

/-!
# MyBase — the frames a client receives

`Session::recv` hands the received bytes to `Client::recv` until this asks for more.
`Client::recv` takes the length of the frame from its first four bytes, wraps as many
bytes in a `Buffer`, moves to position 4 and reads the sequence number there. Nothing
checks that a frame is long enough for one: `Buffer::pos` silently refuses a position
behind the end, and `readInt32` asserts that there are four bytes to read.

Main results:

* `recv_of_frame`, `recv_of_four`, `recv_of_short`, `recv_of_huge` — what becomes of a frame, by
  its length;
* `recv_safe_iff` — nothing goes wrong, however the stream is split and whatever is
  outstanding, exactly if no frame is shorter than 8 bytes or too long for a `Buffer`;
* `short_frames` — a frame of four bytes completes the request number 4, and one of five
  fails the assertion.
-/

namespace MyBase

open Lib List

/-- Where the client does not get on. -/
inductive RecvFault
  /-- The assertion in `readInt32`. -/
  | assertion
  /-- `Buffer::expand` doubles an `int32_t` until it is large enough. -/
  | expand
deriving DecidableEq, Repr

/-- The largest size `Buffer::expand` gets to. -/
def maxExpand : Nat := 2 ^ 30

/-- What `Client::recv` does with the bytes it is given. -/
inductive RecvResult (κ : Type)
  /-- `return 0`. -/
  | wait
  /-- `return len`; the callback of `r` has been invoked. -/
  | parsed (len : Nat) (client : RpcClient κ) (r : Option (ClientCtx κ))
  | fault (f : RecvFault)

/-- `Client::recv`. -/
def RpcClient.recv {κ : Type} (c : RpcClient κ) (evbuf : Bytes) : RecvResult κ :=
  if evbuf.length < 4 then .wait
  else
    match (Buffer.wrap (evbuf.take 4)).readInt32 with
    | none => .fault .assertion
    | some (len, _) =>
      if evbuf.length < len then .wait
      -- `Buffer` takes the length as an `int32_t`: its end is in front of the bytes
      else if 2 ^ 31 ≤ len then .fault .assertion
      else
        match ((Buffer.wrap (evbuf.take len)).pos 4).readInt32 with
        | none => .fault .assertion
        | some (seq, buf2) =>
          match c.ctxs.find? seq with
          | none => .parsed len c none
          | some r =>
            if maxExpand < buf2.curData.length then .fault .expand
            else .parsed len (c.complete seq .ok) (some r)

/-- A client on one connection. -/
structure RpcSession (κ : Type) where
  client : RpcClient κ
  /-- Received and not yet parsed. -/
  evbuf : Bytes
  /-- What was parsed, one frame at a time. -/
  parsed : List Bytes
  /-- The requests whose callback was invoked for a frame. -/
  answered : List (ClientCtx κ × Bytes)
  fault : Option RecvFault

inductive SessionEvent (κ : Type)
  /-- Bytes arrive. -/
  | read (chunk : Bytes)
  | request (r : ClientCtx κ)
  | start (r : ClientCtx κ)
  | expire (seq : Nat)
deriving DecidableEq, Repr

namespace RpcSession

variable {κ : Type}

/-- The client when the connection is made. -/
def connected (c : RpcClient κ) : RpcSession κ := ⟨c, [], [], [], none⟩

/-- The loop of `Session::recv`; every frame that is parsed takes a pass. -/
def recvLoop : Nat → RpcSession κ → RpcSession κ
  | 0, s => s
  | fuel + 1, s =>
    if s.evbuf = [] then s
    else
      match s.client.recv s.evbuf with
      | .wait => s
      | .fault f => { s with fault := some f }
      | .parsed len client r =>
        recvLoop fuel
          { s with
            client := client
            evbuf := s.evbuf.drop len
            parsed := s.parsed ++ [s.evbuf.take len]
            answered := s.answered ++ (r.map fun r => (r, s.evbuf.take len)).toList }

/-- `Session::recv` when `chunk` has arrived. -/
def read (s : RpcSession κ) (chunk : Bytes) : RpcSession κ :=
  recvLoop (s.evbuf ++ chunk).length { s with evbuf := s.evbuf ++ chunk }

variable [DecidableEq κ]

def step (s : RpcSession κ) : SessionEvent κ → Option (RpcSession κ)
  | .read chunk => if s.fault = none then some (s.read chunk) else none
  | .request r => (s.client.step (.request r)).map fun c => { s with client := c }
  | .start r => (s.client.step (.start r false)).map fun c => { s with client := c }
  | .expire seq => (s.client.step (.expire seq)).map fun c => { s with client := c }

/-- The bytes of a run, however they were split. -/
def received : List (SessionEvent κ) → Bytes
  | [] => []
  | .read chunk :: es => chunk ++ received es
  | _ :: es => received es

/-- Everything received is whole frames and an incomplete rest, nothing has gone wrong,
and requests were completed from frames with their sequence number. -/
structure Good (s : RpcSession κ) (stream : Bytes) : Prop where
  fault : s.fault = none
  parsed : s.parsed.flatten ++ s.evbuf = stream
  frames : ∀ f ∈ s.parsed, IsFrame f
  rest : Incomplete s.evbuf
  answered : ∀ a ∈ s.answered, a.2 ∈ s.parsed ∧ 8 ≤ a.2.length ∧
    ofBe ((a.2.drop 4).take 4) = a.1.sequence

/-- Every whole frame has room for a sequence number and fits a `Buffer`. -/
inductive WellFramed : Bytes → Prop
  | rest {bs : Bytes} (h : Incomplete bs) : WellFramed bs
  | frame {bs : Bytes} (hWhole : ¬ Incomplete bs) (hShort : 8 ≤ frameLen bs)
      (hLong : frameLen bs ≤ maxExpand + 8) (hNext : WellFramed (bs.drop (frameLen bs))) :
      WellFramed bs

end RpcSession

-- One frame

namespace RpcClient

variable {κ : Type}

variable {bs : Bytes} {c : RpcClient κ}

theorem readInt32_front (h : 4 ≤ bs.length) :
    (Buffer.wrap (bs.take 4)).readInt32 = some (frameLen bs, ⟨bs.take 4, 4⟩) := by
  have hLen : (bs.take 4).length = 4 := by
    rw [length_take]
    omega
  simp [Buffer.wrap, Buffer.readInt32, Buffer.curData, hLen, frameLen, take_take]

theorem recv_of_incomplete (c : RpcClient κ) (h : Incomplete bs) : c.recv bs = .wait := by
  unfold recv
  by_cases hShort : bs.length < 4
  · rw [if_pos hShort]
  · rw [if_neg hShort, readInt32_front (by omega)]
    have hLong : bs.length < frameLen bs := h.resolve_left hShort
    simp only [hLong, if_true]

theorem recv_of_whole (c : RpcClient κ) (h : ¬ Incomplete bs) (hInt : frameLen bs < 2 ^ 31) :
    c.recv bs =
      match ((Buffer.wrap (bs.take (frameLen bs))).pos 4).readInt32 with
      | none => .fault .assertion
      | some (seq, buf2) =>
        match c.ctxs.find? seq with
        | none => .parsed (frameLen bs) c none
        | some r =>
          if maxExpand < buf2.curData.length then .fault .expand
          else .parsed (frameLen bs) (c.complete seq .ok) (some r) := by
  unfold Incomplete at h
  have hShort : ¬ bs.length < 4 := by omega
  have hLong : ¬ bs.length < frameLen bs := by omega
  unfold recv
  rw [if_neg hShort, readInt32_front (by omega)]
  simp only [hLong, Nat.not_le.mpr hInt, if_false]

/-- A length that is no `int32_t` fails the assertion, whatever the map holds. -/
theorem recv_of_huge (c : RpcClient κ) (h : ¬ Incomplete bs) (hHuge : 2 ^ 31 ≤ frameLen bs) :
    c.recv bs = .fault .assertion := by
  unfold Incomplete at h
  have hShort : ¬ bs.length < 4 := by omega
  have hLong : ¬ bs.length < frameLen bs := by omega
  unfold recv
  rw [if_neg hShort, readInt32_front (by omega)]
  simp only [hLong, hHuge, if_false, if_true]

theorem take_frameLen_length (h : ¬ Incomplete bs) :
    (bs.take (frameLen bs)).length = frameLen bs := by
  unfold Incomplete at h
  rw [length_take]
  omega

/-- A frame with room for a sequence number completes the request with this number. -/
theorem recv_of_frame (c : RpcClient κ) (h : ¬ Incomplete bs) (hShort : 8 ≤ frameLen bs)
    (hInt : frameLen bs < 2 ^ 31) :
    c.recv bs =
      match c.ctxs.find? (ofBe ((bs.drop 4).take 4)) with
      | none => .parsed (frameLen bs) c none
      | some r =>
        if maxExpand + 8 < frameLen bs then .fault .expand
        else .parsed (frameLen bs) (c.complete (ofBe ((bs.drop 4).take 4)) .ok) (some r) := by
  have hLen := take_frameLen_length h
  have hRead : ((Buffer.wrap (bs.take (frameLen bs))).pos 4).readInt32 =
      some (ofBe ((bs.drop 4).take 4), ⟨bs.take (frameLen bs), 8⟩) := by
    rw [Buffer.pos_of_lt (show 4 < (bs.take (frameLen bs)).length by omega)]
    have hWord : ((bs.take (frameLen bs)).drop 4).take 4 = (bs.drop 4).take 4 := by
      rw [drop_take, take_take, Nat.min_eq_left (by omega)]
    simp [Buffer.wrap, Buffer.readInt32, Buffer.curData, hLen, hWord, hShort]
  rw [recv_of_whole c h hInt, hRead]
  have hCur : (⟨bs.take (frameLen bs), 8⟩ : Buffer).curData.length = frameLen bs - 8 := by
    rw [Buffer.curData, length_drop, hLen]
  dsimp only
  rw [hCur]
  cases c.ctxs.find? (ofBe ((bs.drop 4).take 4)) with
  | none => rfl
  | some r =>
    have hIff : maxExpand < frameLen bs - 8 ↔ maxExpand + 8 < frameLen bs := by omega
    simp only [hIff]

/-- In a frame of four bytes the length is read again, as the sequence number. -/
theorem recv_of_four (c : RpcClient κ) (h : ¬ Incomplete bs) (hFour : frameLen bs = 4) :
    c.recv bs =
      match c.ctxs.find? 4 with
      | none => .parsed 4 c none
      | some r => .parsed 4 (c.complete 4 .ok) (some r) := by
  have hLen := take_frameLen_length h
  have hWord : ofBe (bs.take 4) = 4 := hFour
  rw [hFour] at hLen
  have hRead : ((Buffer.wrap (bs.take (frameLen bs))).pos 4).readInt32 =
      some (4, ⟨bs.take 4, 4⟩) := by
    rw [hFour, Buffer.pos_of_le (show (bs.take 4).length ≤ 4 by omega)]
    simp [Buffer.wrap, Buffer.readInt32, Buffer.curData, hLen, hWord, take_take]
  rw [recv_of_whole c h (by omega), hRead, hFour]
  have hCur : ¬ maxExpand < (⟨bs.take 4, 4⟩ : Buffer).curData.length := by
    simp [Buffer.curData, maxExpand]
  simp only [hCur, if_false]

/-- Any other frame of less than eight bytes fails the assertion. -/
theorem recv_of_short (c : RpcClient κ) (h : ¬ Incomplete bs) (hShort : frameLen bs < 8)
    (hFour : frameLen bs ≠ 4) : c.recv bs = .fault .assertion := by
  have hLen := take_frameLen_length h
  have hRead : ((Buffer.wrap (bs.take (frameLen bs))).pos 4).readInt32 = none := by
    by_cases hLt : frameLen bs < 4
    · rw [Buffer.pos_of_le (show (bs.take (frameLen bs)).length ≤ 4 by omega)]
      simp only [Buffer.wrap, Buffer.readInt32, hLen]
      rw [if_neg (by omega)]
    · rw [Buffer.pos_of_lt (show 4 < (bs.take (frameLen bs)).length by omega)]
      simp only [Buffer.wrap, Buffer.readInt32, hLen]
      rw [if_neg (by omega)]
  rw [recv_of_whole c h (by omega), hRead]

/-- Requests are in the map under their own sequence number. -/
def Keyed (c : RpcClient κ) : Prop := ∀ k r, c.ctxs.find? k = some r → r.sequence = k

theorem init_keyed : (init : RpcClient κ).Keyed := by simp [Keyed, init]

theorem Keyed.complete (h : c.Keyed) (seq : Nat) (status : ContextStatus) :
    (c.complete seq status).Keyed := by
  unfold RpcClient.complete
  split
  · exact h
  · intro k r hr
    rw [OrdMap.find?_erase] at hr
    split at hr
    · cases hr
    · exact h k r hr

theorem Keyed.close (h : c.Keyed) : c.close.Keyed := by
  unfold RpcClient.close
  split
  · exact h
  · simp [Keyed]

theorem Keyed.connect (h : c.Keyed) (reported : Bool) : (c.connect reported).Keyed := by
  have hConnecting : { c with status := .connecting }.Keyed := h
  unfold RpcClient.connect
  split
  · cases reported
    · exact hConnecting
    · exact hConnecting.close
  · exact h

variable [DecidableEq κ]

/-- A request is entered under its own number. -/
theorem Keyed.start (h : c.Keyed) (r : ClientCtx κ) (reported : Bool) :
    (c.start r reported).Keyed := by
  have hEnter : (c.enter r).Keyed := by
    intro k r' hr'
    rw [RpcClient.enter, OrdMap.find?_emplace] at hr'
    split at hr'
    · rename_i hk
      cases hFind : c.ctxs.find? r.sequence with
      | none =>
        rw [hFind] at hr'
        obtain rfl : r = r' := Option.some.inj hr'
        exact hk.symm
      | some r₀ =>
        rw [hFind] at hr'
        obtain rfl : r₀ = r' := Option.some.inj hr'
        rw [hk]
        exact h _ _ hFind
    · exact h k r' hr'
  have hConnect := hEnter.connect reported
  unfold RpcClient.start
  dsimp only
  split
  · intro k r' hr'
    rw [OrdMap.find?_erase] at hr'
    split at hr'
    · cases hr'
    · exact hConnect k r' hr'
  · exact hConnect

theorem Keyed.step {c' : RpcClient κ} {a : ClientAction κ} (h : c.Keyed)
    (hStep : c.step a = some c') : c'.Keyed := by
  cases steps_of_step hStep with
  | request hNew => exact h
  | start hr => exact h.start _ _
  | connect => exact h.connect _
  | connected => exact h
  | failure => exact h.close
  | recv => exact h.complete _ .ok
  | expire => exact h.complete _ .timeout
  | close => exact h.close

theorem run_keyed {as : List (ClientAction κ)} (hRun : run step init as = some c) : c.Keyed :=
  run_keeps (fun _ _ _ h hStep => Keyed.step h hStep) init_keyed hRun

end RpcClient

-- A stream

namespace RpcSession

variable {κ : Type}

variable {s : RpcSession κ} {bs later stream got : Bytes}

theorem WellFramed.next (h : WellFramed bs) (hWhole : ¬ Incomplete bs) :
    8 ≤ frameLen bs ∧ frameLen bs ≤ maxExpand + 8 ∧ WellFramed (bs.drop (frameLen bs)) := by
  cases h with
  | rest h => exact absurd h hWhole
  | frame _ hShort hLong hNext => exact ⟨hShort, hLong, hNext⟩

/-- What holds while the loop runs on well-framed bytes, of which `later` are still to come. -/
structure Reading (s : RpcSession κ) (stream later : Bytes) : Prop where
  fault : s.fault = none
  parsed : s.parsed.flatten ++ s.evbuf = stream
  frames : ∀ f ∈ s.parsed, IsFrame f
  answered : ∀ a ∈ s.answered, a.2 ∈ s.parsed ∧ 8 ≤ a.2.length ∧
    ofBe ((a.2.drop 4).take 4) = a.1.sequence
  keyed : s.client.Keyed
  wellFramed : WellFramed (s.evbuf ++ later)

/-- One pass takes one frame. -/
theorem Reading.pass (h : s.Reading stream later) (hWhole : ¬ Incomplete s.evbuf) :
    ∃ client r, s.client.recv s.evbuf = .parsed (frameLen s.evbuf) client r ∧
      8 ≤ frameLen s.evbuf ∧
      Reading
        { s with
          client := client
          evbuf := s.evbuf.drop (frameLen s.evbuf)
          parsed := s.parsed ++ [s.evbuf.take (frameLen s.evbuf)]
          answered := s.answered ++
            (r.map fun r => (r, s.evbuf.take (frameLen s.evbuf))).toList }
        stream later := by
  -- the frame is one of the whole stream, so its length is as it should be
  have hLater : ¬ Incomplete (s.evbuf ++ later) := fun hInc => hWhole hInc.of_append
  have hFour : 4 ≤ s.evbuf.length := by
    unfold Incomplete at hWhole
    omega
  obtain ⟨hShort, hLong, hNext⟩ := h.wellFramed.next hLater
  rw [frameLen_append hFour] at hShort hLong hNext
  have hLen := RpcClient.take_frameLen_length hWhole
  have hDrop : (s.evbuf ++ later).drop (frameLen s.evbuf) =
      s.evbuf.drop (frameLen s.evbuf) ++ later := by
    refine drop_append_of_le_length ?_
    unfold Incomplete at hWhole
    omega
  rw [hDrop] at hNext
  -- the number stands inside of the frame
  have hWord : ((s.evbuf.take (frameLen s.evbuf)).drop 4).take 4 = (s.evbuf.drop 4).take 4 := by
    rw [drop_take, take_take, Nat.min_eq_left (by omega)]
  have hParsed : (s.parsed ++ [s.evbuf.take (frameLen s.evbuf)]).flatten ++
      s.evbuf.drop (frameLen s.evbuf) = stream := by
    rw [flatten_append, append_assoc]
    simpa using h.parsed
  have hFrames : ∀ f ∈ s.parsed ++ [s.evbuf.take (frameLen s.evbuf)], IsFrame f := by
    intro f hf
    rcases mem_append.mp hf with hf | hf
    · exact h.frames f hf
    · rw [mem_singleton.mp hf]
      exact isFrame_take hWhole (by omega)
  have hOld : ∀ a ∈ s.answered, a.2 ∈ s.parsed ++ [s.evbuf.take (frameLen s.evbuf)] ∧
      8 ≤ a.2.length ∧ ofBe ((a.2.drop 4).take 4) = a.1.sequence := by
    intro a ha
    exact ⟨mem_append_left _ (h.answered a ha).1, (h.answered a ha).2⟩
  have hInt : frameLen s.evbuf < 2 ^ 31 := by
    unfold maxExpand at hLong
    omega
  rw [s.client.recv_of_frame hWhole hShort hInt]
  cases hFind : s.client.ctxs.find? (ofBe ((s.evbuf.drop 4).take 4)) with
  | none =>
    refine ⟨s.client, none, rfl, hShort, ⟨h.fault, hParsed, hFrames, ?_, h.keyed, hNext⟩⟩
    simpa using hOld
  | some r =>
    refine ⟨s.client.complete (ofBe ((s.evbuf.drop 4).take 4)) .ok, some r, ?_, hShort,
      ⟨h.fault, hParsed, hFrames, ?_, h.keyed.complete _ _, hNext⟩⟩
    · simp only [Nat.not_lt.mpr hLong, if_false]
    · intro a ha
      rcases mem_append.mp ha with ha | ha
      · exact hOld a ha
      · obtain rfl : a = (r, s.evbuf.take (frameLen s.evbuf)) := by simpa using ha
        refine ⟨by simp, by rw [hLen]; exact hShort, ?_⟩
        show ofBe (((s.evbuf.take (frameLen s.evbuf)).drop 4).take 4) = r.sequence
        rw [hWord, h.keyed _ r hFind]

/-- The loop leaves an incomplete frame. -/
theorem Reading.recvLoop (fuel : Nat) (h : s.Reading stream later) (hFuel : s.evbuf.length ≤ fuel) :
    (recvLoop fuel s).Reading stream later ∧ Incomplete (recvLoop fuel s).evbuf := by
  induction fuel generalizing s with
  | zero =>
    refine ⟨h, ?_⟩
    have hNil : s.evbuf = [] := length_eq_zero_iff.mp (by omega)
    show Incomplete s.evbuf
    rw [hNil]
    exact incomplete_nil
  | succ fuel ih =>
    unfold RpcSession.recvLoop
    by_cases hNil : s.evbuf = []
    · rw [if_pos hNil]
      exact ⟨h, hNil ▸ incomplete_nil⟩
    · rw [if_neg hNil]
      by_cases hInc : Incomplete s.evbuf
      · rw [s.client.recv_of_incomplete hInc]
        exact ⟨h, hInc⟩
      · obtain ⟨client, r, hRecv, hShort, hNext⟩ := h.pass hInc
        rw [hRecv]
        refine ih hNext ?_
        show (s.evbuf.drop (frameLen s.evbuf)).length ≤ fuel
        rw [length_drop]
        omega

/-- **Step lemma.** -/
theorem read_good {chunk : Bytes} (hGood : s.Good got) (hKeyed : s.client.Keyed)
    (hFramed : WellFramed (s.evbuf ++ (chunk ++ later))) :
    (s.read chunk).Good (got ++ chunk) ∧ (s.read chunk).client.Keyed ∧
      WellFramed ((s.read chunk).evbuf ++ later) := by
  have hReading : Reading { s with evbuf := s.evbuf ++ chunk } (got ++ chunk) later := by
    refine ⟨hGood.fault, ?_, hGood.frames, hGood.answered, hKeyed, ?_⟩
    · show s.parsed.flatten ++ (s.evbuf ++ chunk) = got ++ chunk
      rw [← append_assoc, hGood.parsed]
    · show WellFramed (s.evbuf ++ chunk ++ later)
      rw [append_assoc]
      exact hFramed
  obtain ⟨hEnd, hRest⟩ := hReading.recvLoop (s.evbuf ++ chunk).length (le_refl _)
  exact ⟨⟨hEnd.fault, hEnd.parsed, hEnd.frames, hRest, hEnd.answered⟩, hEnd.keyed, hEnd.wellFramed⟩

theorem recvLoop_answered (fuel : Nat) (s : RpcSession κ) :
    s.answered <+: (recvLoop fuel s).answered := by
  induction fuel generalizing s with
  | zero => exact prefix_refl _
  | succ fuel ih =>
    unfold recvLoop
    split
    · exact prefix_refl _
    · split
      · exact prefix_refl _
      · exact prefix_refl _
      · refine List.IsPrefix.trans ?_ (ih _)
        exact prefix_append _ _

theorem recvLoop_nil (hBuf : s.evbuf = []) (fuel : Nat) : recvLoop fuel s = s := by
  cases fuel with
  | zero => rfl
  | succ fuel => rw [recvLoop, if_pos hBuf]

/-- A frame that nobody waits for is skipped. -/
theorem read_unknown {f : Bytes} (hBuf : s.evbuf = []) (hFrame : IsFrame f) (hLen : 8 ≤ f.length)
    (hInt : f.length < 2 ^ 31) (hNone : s.client.ctxs = ∅) :
    s.read f = { s with parsed := s.parsed ++ [f] } := by
  have hWhole : ¬ Incomplete f := by
    unfold Incomplete
    rw [hFrame.2]
    omega
  obtain ⟨n, hn⟩ : ∃ n, f.length = n + 1 := ⟨f.length - 1, by omega⟩
  have hNe : f ≠ [] := by
    rintro rfl
    simp at hLen
  have hRecv : s.client.recv f = .parsed f.length s.client none := by
    rw [s.client.recv_of_frame hWhole (by rw [hFrame.2]; exact hLen) (by rw [hFrame.2]; exact hInt),
      hFrame.2, hNone,
      OrdMap.find?_empty]
  unfold read
  rw [hBuf, nil_append, hn, recvLoop, if_neg hNe]
  simp only [hRecv, drop_length, take_length, Option.map_none, Option.toList_none,
    append_nil]
  rw [recvLoop_nil rfl, ← hBuf]

variable [DecidableEq κ]

/-- A run over well-framed bytes goes well. -/
theorem run_good {s' : RpcSession κ} {es : List (SessionEvent κ)} (hGood : s.Good got)
    (hKeyed : s.client.Keyed) (hFramed : WellFramed (s.evbuf ++ received es))
    (hRun : run step s es = some s') : s'.Good (got ++ received es) := by
  induction es generalizing s got with
  | nil =>
    obtain rfl : s = s' := by simpa [run] using hRun
    simpa [received] using hGood
  | cons e es ih =>
    obtain ⟨s₁, hStep, hRest⟩ := run_cons_eq_some.mp hRun
    -- what the client does between two reads leaves the bytes alone
    have hClient : ∀ a, (s.client.step a).map (fun c => { s with client := c }) = some s₁ →
        received (e :: es) = received es → s'.Good (got ++ received (e :: es)) := by
      intro a hStep hSame
      obtain ⟨c, hc, rfl⟩ := Option.map_eq_some_iff.mp hStep
      rw [hSame] at hFramed ⊢
      refine ih (s := { s with client := c }) ?_ (hKeyed.step hc) hFramed hRest
      exact ⟨hGood.fault, hGood.parsed, hGood.frames, hGood.rest, hGood.answered⟩
    cases e with
    | read chunk =>
      simp only [step, hGood.fault, if_true] at hStep
      obtain rfl : s.read chunk = s₁ := Option.some.inj hStep
      obtain ⟨hGood₁, hKeyed₁, hFramed₁⟩ := read_good hGood hKeyed hFramed
      rw [received, ← append_assoc]
      exact ih hGood₁ hKeyed₁ hFramed₁ hRest
    | request r => exact hClient (.request r) hStep rfl
    | start r => exact hClient (.start r false) hStep rfl
    | expire seq => exact hClient (.expire seq) hStep rfl

/-- A request that waits when a frame arrives that is too short or too long. -/
theorem bad_frame (hClient : s.client = RpcClient.init) (hBuf : s.evbuf = [])
    (hFault : s.fault = none) (call : κ) (hWhole : ¬ Incomplete bs)
    (hBad : frameLen bs < 8 ∨ maxExpand + 8 < frameLen bs) :
    ∃ es s', received es = bs ∧ run step s es = some s' ∧ ∀ stream, ¬ s'.Good stream := by
  obtain ⟨seq, hSeq⟩ : ∃ seq, seq =
      if frameLen bs = 4 then 4 else ofBe ((bs.drop 4).take 4) := ⟨_, rfl⟩
  obtain ⟨c, hc⟩ : ∃ c : RpcClient κ, c =
      { (RpcClient.init : RpcClient κ) with
        status := .connecting
        ctxs := (∅ : OrdMap Nat (ClientCtx κ)).emplace seq ⟨call, seq⟩
        requested := [⟨call, seq⟩]
        sent := [⟨call, seq⟩] } := ⟨_, rfl⟩
  have hFind : c.ctxs.find? seq = some ⟨call, seq⟩ := by
    rw [hc, OrdMap.find?_emplace]
    simp
  have hStart : run step s [.request ⟨call, seq⟩, .start ⟨call, seq⟩] =
      some { s with client := c } := by
    simp [run, step, hClient, hc, RpcClient.step, RpcClient.init, RpcClient.start,
      RpcClient.enter, RpcClient.connect]
  obtain ⟨n, hn⟩ : ∃ n, bs.length = n + 1 := by
    unfold Incomplete at hWhole
    exact ⟨bs.length - 1, by omega⟩
  have hNe : bs ≠ [] := by
    rintro rfl
    simp at hn
  refine ⟨[.request ⟨call, seq⟩, .start ⟨call, seq⟩] ++ [.read bs],
    { s with client := c }.read bs, by simp [received], ?_, ?_⟩
  · refine run_append.mpr ⟨_, hStart, ?_⟩
    simp [run, step, hFault]
  · intro stream hGood
    have hRead : { s with client := c }.read bs =
        recvLoop (n + 1) { s with client := c, evbuf := bs } := by
      unfold read
      simp only [hBuf, nil_append, hn]
    rw [hRead, recvLoop, if_neg (show ¬ bs = [] from hNe)] at hGood
    dsimp only at hGood
    by_cases hFour : frameLen bs = 4
    · -- the request is completed from a frame of four bytes
      rw [if_pos hFour] at hSeq
      rw [c.recv_of_four hWhole hFour, ← hSeq, hFind] at hGood
      have hMem : ((⟨call, seq⟩ : ClientCtx κ), bs.take seq) ∈ s.answered ++
          (Option.map (fun r => (r, bs.take seq)) (some (⟨call, seq⟩ : ClientCtx κ))).toList := by
        simp
      have hLen := (hGood.answered _ ((recvLoop_answered n _).subset hMem)).2.1
      have hTake : (bs.take seq).length ≤ seq := by simp
      dsimp only at hLen
      omega
    · by_cases hShort : frameLen bs < 8
      · rw [c.recv_of_short hWhole hShort hFour] at hGood
        simpa using hGood.fault
      · have hLong : maxExpand + 8 < frameLen bs := hBad.resolve_left hShort
        by_cases hInt : frameLen bs < 2 ^ 31
        · rw [if_neg hFour] at hSeq
          rw [c.recv_of_frame hWhole (by omega) hInt, ← hSeq, hFind] at hGood
          simp only [hLong, if_true] at hGood
          simpa using hGood.fault
        · rw [c.recv_of_huge hWhole (by omega)] at hGood
          simpa using hGood.fault

/-- Bytes that are not well framed reach a bad frame behind good ones. -/
theorem not_wellFramed (hClient : s.client = RpcClient.init) (hBuf : s.evbuf = [])
    (hFault : s.fault = none) (call : κ) (h : ¬ WellFramed bs) :
    ∃ es s', received es = bs ∧ run step s es = some s' ∧ ∀ stream, ¬ s'.Good stream := by
  induction hn : bs.length using Nat.strong_induction_on generalizing bs s with
  | _ n ih =>
    have hWhole : ¬ Incomplete bs := fun hInc => h (.rest hInc)
    by_cases hBad : frameLen bs < 8 ∨ maxExpand + 8 < frameLen bs
    · exact bad_frame hClient hBuf hFault call hWhole hBad
    · have hLen := RpcClient.take_frameLen_length hWhole
      have hFrame := isFrame_take hWhole (by omega)
      have hNext : ¬ WellFramed (bs.drop (frameLen bs)) :=
        fun hNext => h (.frame hWhole (by omega) (by omega) hNext)
      have hInt : (bs.take (frameLen bs)).length < 2 ^ 31 := by
        unfold maxExpand at hBad
        omega
      have hRead : s.read (bs.take (frameLen bs)) =
          { s with parsed := s.parsed ++ [bs.take (frameLen bs)] } :=
        read_unknown hBuf hFrame (by omega) hInt (by rw [hClient]; rfl)
      have hLess : (bs.drop (frameLen bs)).length < n := by
        unfold Incomplete at hWhole
        rw [length_drop]
        omega
      obtain ⟨es, s', hReceived, hRun, hNot⟩ := ih _ hLess
        (s := { s with parsed := s.parsed ++ [bs.take (frameLen bs)] }) hClient hBuf hFault hNext
        rfl
      refine ⟨.read (bs.take (frameLen bs)) :: es, s', ?_, ?_, hNot⟩
      · rw [received, hReceived, take_append_drop]
      · exact run_cons_eq_some.mpr ⟨_, by simp only [step, hFault, if_true, hRead], hRun⟩

/-- For every stream: however it is split into reads, whatever requests are issued and
expire in between and whatever the client has been through before, nothing is read
outside the received bytes, no assertion fails, every whole frame is consumed and the
rest waits, and requests are completed only from frames of at least eight bytes with
their number, exactly if no frame of the stream is shorter than eight bytes or has
more content than a `Buffer` can be expanded to. -/
theorem recv_safe_iff [Inhabited κ] (stream : Bytes) :
    (∀ (as : List (ClientAction κ)) (c : RpcClient κ), run RpcClient.step .init as = some c →
      ∀ (es : List (SessionEvent κ)) (s : RpcSession κ), received es = stream →
        run step (connected c) es = some s → s.Good stream) ↔
      WellFramed stream := by
  constructor
  · intro hSafe
    by_contra hNot
    obtain ⟨es, s, hReceived, hRun, hBad⟩ := not_wellFramed (s := connected (.init : RpcClient κ))
      rfl rfl rfl default hNot
    exact hBad stream (hSafe [] .init rfl es s hReceived hRun)
  · intro hFramed as c hReach es s hReceived hRun
    have hStart : (connected c).Good [] :=
      ⟨rfl, rfl, by simp [connected], incomplete_nil, by simp [connected]⟩
    have hGood := run_good hStart (RpcClient.run_keyed hReach)
      (by rw [hReceived]; exact hFramed) hRun
    rwa [hReceived] at hGood

/-- Request 4 is waiting, and the four bytes `00 00 00 04` arrive in two reads: they
complete it. The five bytes `00 00 00 05 2a` fail the assertion. -/
theorem short_frames :
    (∃ s : RpcSession Nat, run step (connected .init)
        [.request ⟨0, 4⟩, .start ⟨0, 4⟩, .read [0, 0], .read [0, 4]] = some s ∧
      s.answered = [(⟨0, 4⟩, [0, 0, 0, 4])]) ∧
    ∃ s : RpcSession Nat, run step (connected .init) [.read [0, 0, 0, 5, 42]] = some s ∧
      s.fault = some .assertion :=
  ⟨⟨_, rfl, rfl⟩, _, rfl, rfl⟩

end RpcSession

end MyBase
