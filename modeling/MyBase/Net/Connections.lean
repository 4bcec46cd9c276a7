import MyBase.Lib.Run

/-!
# MyBase — which connection a response goes to

`connArray` has one entry per descriptor, which is used again when the descriptor is.
A request carries the descriptor and the creation time of the connection it came over;
`sendResponse` compares these with the entry. Of the creation time it gets the seconds
only, as 32 bits, and compares them with the seconds of the entry.

A worker, or the commit thread, may send a response at any time after the request,
whatever has become of the connection. The entry is locked by `sendResponse`, by
`releaseConn` and by `getNewConn`, so each of them is one step.

Main results:

* `responses_stay` — then no response is written to, or buffered for, another connection;
* `response_to_successor` — a descriptor that is used again in the same second.
-/

namespace MyBase

open Lib List

/-- An entry of `connArray`. `conn` tells the accepted connections apart, and a response
in the write buffer is given by the connection its request came over. -/
structure NetConnection where
  /-- `none` is -1. -/
  sockIndex : Option Nat
  /-- `sock_create.tv_sec`. -/
  sockCreate : Int
  writeBuf : List Nat
  conn : Nat
deriving DecidableEq, Repr

/-- What a worker keeps of a `CloudConnHead`. -/
structure RequestHead where
  sockIndex : Nat
  sockCreate : Int
  conn : Nat
deriving DecidableEq, Repr

/-- What `::send` takes. -/
inductive SendOutcome
  | all
  | part
  | again
  | error
deriving DecidableEq, Repr

structure NetServer where
  connNum : Nat
  connArray : Nat → NetConnection
  /-- How many connections have been accepted. -/
  accepts : Nat
  /-- The requests received. -/
  heads : List RequestHead
  /-- For every response of which something was written to a socket, the connection its
  request came over and the one it was written to. -/
  written : List (Nat × Nat)

inductive NetAction
  /-- `onAccpet` gets descriptor `fd` at second `sec`. -/
  | accept (fd : Nat) (sec : Int)
  /-- A request is received on descriptor `fd`. -/
  | request (fd : Nat)
  /-- `sendResponse` for the `k`-th request; `fits` says whether the write buffer can
  take what is left. -/
  | sendResponse (k : Nat) (outcome : SendOutcome) (fits : Bool)
  /-- `dealEpollOut` writes the first `whole` responses in the buffer, and perhaps the
  beginning of the next. -/
  | dealEpollOut (fd : Nat) (whole : Nat) (begun : Bool)
  /-- `releaseConn`. -/
  | releaseConn (fd : Nat)
deriving DecidableEq, Repr

namespace NetConnection

/-- An entry that has not been used. -/
def unused : NetConnection := ⟨none, 0, [], 0⟩

/-- `CCloudNetConnection::release`. -/
def release (c : NetConnection) : NetConnection := { c with sockIndex := none, writeBuf := [] }

/-- `CCloudNetConnection::send` for a response to a request of `origin`: whether
something is written, and the write buffer afterwards. -/
def send (c : NetConnection) (origin : Nat) (outcome : SendOutcome) (fits : Bool) :
    Bool × List Nat :=
  let copied := if fits then c.writeBuf ++ [origin] else c.writeBuf
  if c.writeBuf ≠ [] then (false, copied)
  else
    match outcome with
    | .all => (true, c.writeBuf)
    | .part => (true, copied)
    | .again => (false, copied)
    | .error => (false, c.writeBuf)

theorem mem_send {c : NetConnection} {origin : Nat} {outcome : SendOutcome} {fits : Bool} {o : Nat}
    (h : o ∈ (c.send origin outcome fits).2) : o ∈ c.writeBuf ∨ o = origin := by
  have hCopied : o ∈ (if fits then c.writeBuf ++ [origin] else c.writeBuf) →
      o ∈ c.writeBuf ∨ o = origin := by
    intro h
    split at h
    · simpa using h
    · exact .inl h
  unfold send at h
  dsimp only at h
  split at h
  · exact hCopied h
  · cases outcome with
    | all => exact .inl h
    | part => exact hCopied h
    | again => exact hCopied h
    | error => exact .inl h

end NetConnection

/-- The `uint32_t` that `sendResponse` is called with. -/
def RequestHead.sec32 (h : RequestHead) : Int := h.sockCreate % 2 ^ 32

namespace NetServer

def init (connNum : Nat) : NetServer := ⟨connNum, fun _ => .unused, 0, [], []⟩

def set (s : NetServer) (fd : Nat) (c : NetConnection) : NetServer :=
  { s with connArray := Function.update s.connArray fd c }

/-- `getExistConn` behind `lockConn`. -/
def getExistConn (s : NetServer) (fd : Nat) : Option NetConnection :=
  if fd < s.connNum ∧ (s.connArray fd).sockIndex = some fd then some (s.connArray fd) else none

/-- `sendResponse(head, …)`. -/
def sendResponse (s : NetServer) (h : RequestHead) (outcome : SendOutcome) (fits : Bool) :
    NetServer :=
  match s.getExistConn h.sockIndex with
  | none => s
  | some c =>
    if c.sockCreate ≠ h.sec32 then s
    else
      let out := c.send h.conn outcome fits
      { s.set h.sockIndex { c with writeBuf := out.2 } with
        written := if out.1 then s.written ++ [(h.conn, c.conn)] else s.written }

def step (s : NetServer) : NetAction → Option NetServer
  | .accept fd sec =>
    -- the kernel does not hand out a descriptor that is in use
    if fd < s.connNum ∧ (s.connArray fd).sockIndex = none then
      some { s.set fd ⟨some fd, sec, [], s.accepts⟩ with accepts := s.accepts + 1 }
    else none
  | .request fd =>
    (s.getExistConn fd).map fun c =>
      { s with heads := s.heads ++ [⟨fd, c.sockCreate, c.conn⟩] }
  | .sendResponse k outcome fits => (s.heads[k]?).map fun h => s.sendResponse h outcome fits
  | .dealEpollOut fd whole begun =>
    (s.getExistConn fd).map fun c =>
      { s.set fd { c with writeBuf := c.writeBuf.drop whole } with
        written := s.written ++
          (c.writeBuf.take (if begun then whole + 1 else whole)).map fun o => (o, c.conn) }
  | .releaseConn fd => if fd < s.connNum then some (s.set fd (s.connArray fd).release) else none

/-- Responses have been written to, and wait for, the connection of their request. -/
def Isolated (s : NetServer) : Prop :=
  (∀ w ∈ s.written, w.1 = w.2) ∧
    ∀ fd, ∀ o ∈ (s.connArray fd).writeBuf, o = (s.connArray fd).conn

/-- A connection is accepted in another second than any connection with the same
descriptor over which a request was received. -/
def OtherSecond (s : NetServer) : NetAction → Prop
  | .accept fd sec => ∀ h ∈ s.heads, h.sockIndex = fd → h.sec32 ≠ sec
  | _ => True

instance (s : NetServer) (a : NetAction) : Decidable (s.OtherSecond a) := by
  cases a <;> unfold OtherSecond <;> infer_instance

-- Steps

/-- A request that an open entry matches came over its connection. -/
structure Separate (s : NetServer) : Prop where
  isolated : s.Isolated
  matched : ∀ fd, (s.connArray fd).sockIndex = some fd → ∀ h ∈ s.heads, h.sockIndex = fd →
    h.sec32 = (s.connArray fd).sockCreate → h.conn = (s.connArray fd).conn

theorem init_separate (connNum : Nat) : (init connNum).Separate where
  isolated := ⟨by simp [init], by simp [init, NetConnection.unused]⟩
  matched := by simp [init]

variable {s : NetServer} {fd : Nat} {c : NetConnection}

theorem getExistConn_eq_some (h : s.getExistConn fd = some c) :
    (s.connArray fd).sockIndex = some fd ∧ c = s.connArray fd := by
  unfold getExistConn at h
  split at h
  · rename_i hOpen
    cases h
    exact ⟨hOpen.2, rfl⟩
  · cases h

/-- An entry may change as long as it stays with its connection. -/
theorem Separate.set (h : s.Separate) {written : List (Nat × Nat)}
    (hSame : c.sockIndex = some fd →
      (s.connArray fd).sockIndex = some fd ∧ c.sockCreate = (s.connArray fd).sockCreate ∧
        c.conn = (s.connArray fd).conn) (hBuf : ∀ o ∈ c.writeBuf, o = c.conn)
    (hWritten : ∀ w ∈ written, w.1 = w.2) : { s.set fd c with written := written }.Separate := by
  have hSelf : (s.set fd c).connArray fd = c := by simp [NetServer.set]
  have hOther : ∀ fd', fd' ≠ fd → (s.set fd c).connArray fd' = s.connArray fd' := by
    intro fd' hfd
    simp [NetServer.set, hfd]
  refine ⟨⟨hWritten, ?_⟩, ?_⟩
  · intro fd'
    show ∀ o ∈ ((s.set fd c).connArray fd').writeBuf, o = ((s.set fd c).connArray fd').conn
    by_cases hfd : fd' = fd
    · rw [hfd, hSelf]
      exact hBuf
    · rw [hOther fd' hfd]
      exact h.isolated.2 fd'
  · intro fd'
    show ((s.set fd c).connArray fd').sockIndex = some fd' → ∀ h ∈ s.heads, h.sockIndex = fd' →
      h.sec32 = ((s.set fd c).connArray fd').sockCreate → h.conn = ((s.set fd c).connArray fd').conn
    by_cases hfd : fd' = fd
    · subst hfd
      rw [hSelf]
      intro hOpen
      obtain ⟨hOld, hCreate, hConn⟩ := hSame hOpen
      rw [hCreate, hConn]
      exact h.matched fd' hOld
    · rw [hOther fd' hfd]
      exact h.matched fd'

/-- A response for a request of the entry's own connection stays with it. -/
theorem Separate.sendResponse (h : s.Separate) {head : RequestHead} (hHead : head ∈ s.heads)
    (outcome : SendOutcome) (fits : Bool) : (s.sendResponse head outcome fits).Separate := by
  unfold NetServer.sendResponse
  split
  · exact h
  · rename_i c hConn
    obtain ⟨hOpen, rfl⟩ := getExistConn_eq_some hConn
    split
    · exact h
    · rename_i hCreate
      have hOwn : head.conn = (s.connArray head.sockIndex).conn :=
        h.matched _ hOpen head hHead rfl (not_not.mp hCreate).symm
      have hBuf := h.isolated.2 head.sockIndex
      refine h.set (fun _ => ⟨hOpen, rfl, rfl⟩) ?_ ?_
      · intro o ho
        rcases NetConnection.mem_send ho with ho | rfl
        · exact hBuf o ho
        · exact hOwn
      · intro w hw
        split at hw
        · rcases List.mem_append.mp hw with hw | hw
          · exact h.isolated.1 w hw
          · rw [List.mem_singleton.mp hw]
            exact hOwn
        · exact h.isolated.1 w hw

/-- **Step lemma.** -/
theorem Separate.step {s' : NetServer} {a : NetAction} (h : s.Separate) (hOther : s.OtherSecond a)
    (hStep : s.step a = some s') : s'.Separate := by
  cases a with
  | accept fd sec =>
    simp only [NetServer.step] at hStep
    split at hStep
    · cases hStep
      refine ⟨⟨h.isolated.1, ?_⟩, ?_⟩
      · intro fd'
        by_cases hfd : fd' = fd
        · simp [NetServer.set, hfd]
        · simpa [NetServer.set, hfd] using h.isolated.2 fd'
      · intro fd'
        by_cases hfd : fd' = fd
        · subst hfd
          intro _ head hHead hIndex hCreate
          have hCreate : head.sec32 = sec := by simpa [NetServer.set] using hCreate
          -- no request of that descriptor is from this second
          exact absurd hCreate (hOther head hHead hIndex)
        · simpa [NetServer.set, hfd] using h.matched fd'
    · cases hStep
  | request fd =>
    obtain ⟨c, hConn, rfl⟩ := Option.map_eq_some_iff.mp hStep
    obtain ⟨hOpen, rfl⟩ := getExistConn_eq_some hConn
    refine ⟨h.isolated, ?_⟩
    intro fd' hOpen' head hHead hIndex hCreate
    rcases List.mem_append.mp hHead with hHead | hHead
    · exact h.matched fd' hOpen' head hHead hIndex hCreate
    · rw [List.mem_singleton.mp hHead] at hIndex ⊢
      have hIndex : fd = fd' := hIndex
      rw [hIndex]
  | sendResponse k outcome fits =>
    obtain ⟨head, hHead, rfl⟩ := Option.map_eq_some_iff.mp hStep
    exact h.sendResponse (mem_of_getElem? hHead) outcome fits
  | dealEpollOut fd whole begun =>
    obtain ⟨c, hConn, rfl⟩ := Option.map_eq_some_iff.mp hStep
    obtain ⟨hOpen, rfl⟩ := getExistConn_eq_some hConn
    have hBuf := h.isolated.2 fd
    refine h.set (fun _ => ⟨hOpen, rfl, rfl⟩) ?_ ?_
    · intro o ho
      exact hBuf o (mem_of_mem_drop ho)
    · intro w hw
      rcases List.mem_append.mp hw with hw | hw
      · exact h.isolated.1 w hw
      · obtain ⟨o, ho, rfl⟩ := List.mem_map.mp hw
        exact hBuf o (mem_of_mem_take ho)
  | releaseConn fd =>
    simp only [NetServer.step] at hStep
    split at hStep
    · cases hStep
      exact h.set (by simp [NetConnection.release]) (by simp [NetConnection.release])
        h.isolated.1
    · cases hStep

/-- In every run along which a descriptor is not used again in the second of a connection
over which a request was received, every response is written to, or waits for, the
connection its request came over. -/
theorem responses_stay (connNum : Nat) (as : List NetAction)
    (hRun : run step (init connNum) as = some s)
    (hOther : Along step OtherSecond (init connNum) as) : s.Isolated := by
  have hSeparate : s.Separate :=
    run_invariant (fun _ _ _ hOther h hStep => Separate.step h hOther hStep)
      (init_separate connNum) hOther hRun
  exact hSeparate.isolated

/-- A descriptor is used again one second later: the late response is dropped. -/
theorem responses_stay_one_reuse :
    ∃ s, run step (init 8)
        [.accept 5 1000, .request 5, .sendResponse 0 .part true, .releaseConn 5, .accept 5 1001,
          .sendResponse 0 .all true] = some s ∧
      s.written = [(0, 0)] ∧ s.Isolated := by
  refine run_reaches_then (Q := fun s => s.written = [(0, 0)]) (by decide) fun s hRun hWritten => ?_
  exact ⟨hWritten, responses_stay 8 _ hRun (by decide)⟩

/-- A descriptor is used again in the same second: the late response to the first
connection's request is written to the second. -/
theorem response_to_successor :
    ∃ s, run step (init 8)
        [.accept 5 1000, .request 5, .releaseConn 5, .accept 5 1000,
          .sendResponse 0 .all true] = some s ∧
      s.written = [(0, 1)] :=
  ⟨_, rfl, rfl⟩

end NetServer

end MyBase
